import DynocClient.Connection.View
import DynocClient.Lib.Refinement
import DynocClient.System.Basic

/-!
# The threads, one statement at a time

In `systemStep` a thread makes a whole critical section in one move. Here its statements are
moves of their own, so those of all threads interleave, and `pthread_mutex_lock` is a statement
that cannot be made while the lock is taken. A test of a local variable belongs to the statement
before it.

`attempt_statements` and `reconnect_statements` say that a section whose statements are made in
one go is `attempt`, or `reconnectSlot`; `sectionsLocal` says that a section reads and writes
nothing but the `view` of its slot.
-/

namespace DynocClient

open Lib

/-! ## The sections of the commands -/

/-- The variables of a command that is inside a section, and what its server answers there. -/
structure AttemptFrame where
  command : Command
  cursor : Cursor
  answer : Answer
  deriving DecidableEq

/-- The statements of a command between the lock and the unlock. -/
inductive AttemptPoint where
  /-- `if (redis_conn->status)`. -/
  | test
  /-- `reply = redisCommand(redis_conn->ctx, ...)`. -/
  | send
  /-- `if (reply && reply->type != REDIS_REPLY_ERROR && redis_conn->ctx->err == 0)`. -/
  | judge (reply : Option Reply)
  /-- `freeReplyObject(reply)` before `return 0`. -/
  | freeAccepted (reply : Option Reply)
  /-- `if (reply) freeReplyObject(reply)`. -/
  | freeRefused (reply : Option Reply)
  /-- The three statements of `reset_redis_connection`. -/
  | resetStatus
  | resetFree
  | resetCtx
  /-- `pthread_mutex_unlock`, with what the command returns after it, if it does. -/
  | unlock (result : Option Returned)
  deriving DecidableEq

/-- What a command returns, without the number of a reply. -/
def Returned.anonymous : Returned → Returned
  | .code value => .code value
  | .reply found => .reply (found.map Reply.anonymous)

/-- A command without the number of the reply it returned. -/
def CommandThread.anonymous : CommandThread → CommandThread
  | .running command cursor => .running command cursor
  | .returned command result => .returned command result.anonymous

namespace AttemptPoint

/-- The point without the number of its reply. -/
def anonymous : AttemptPoint → AttemptPoint
  | .judge reply => .judge (reply.map Reply.anonymous)
  | .freeAccepted reply => .freeAccepted (reply.map Reply.anonymous)
  | .freeRefused reply => .freeRefused (reply.map Reply.anonymous)
  | .unlock result => .unlock (result.map Returned.anonymous)
  | point => point

/-- How many statements may follow. -/
def rank : AttemptPoint → Nat
  | .test => 8
  | .send => 7
  | .judge _ => 6
  | .freeRefused _ => 5
  | .resetStatus => 4
  | .resetFree => 3
  | .resetCtx => 2
  | .freeAccepted _ => 1
  | .unlock _ => 0

end AttemptPoint

/-- What a command is after a turn that returned, or did not. -/
def AttemptFrame.outcome (frame : AttemptFrame) : Option Returned → CommandThread
  | some result => .returned frame.command result
  | none => .running frame.command frame.cursor

/-- A statement of a command. -/
def attemptStatement (frame : AttemptFrame) (slot : Slot) (world : World) :
    AttemptPoint → (CommandThread ⊕ AttemptPoint) × World
  | .test =>
      match (world.conn slot).status with
      | .invalid => (.inr (.unlock none), world)
      | .valid => (.inr .send, world)
  | .send =>
      let (reply, world) :=
        world.redisCommand slot (world.conn slot).ctx frame.command.request frame.answer
      (.inr (.judge reply), world)
  | .judge reply =>
      if frame.answer.accepted then
        match frame.command.kind with
        | .code => (.inr (.freeAccepted reply), world)
        | .reply => (.inr (.unlock (some (.reply reply))), world)
      else (.inr (.freeRefused reply), world)
  | .freeAccepted reply => (.inr (.unlock (some (.code 0))), world.freeReply slot reply)
  | .freeRefused reply => (.inr .resetStatus, world.freeReply slot reply)
  | .resetStatus => (.inr .resetFree, world.writeStatus slot .invalid)
  | .resetFree => (.inr .resetCtx, world.redisFree slot (world.conn slot).ctx)
  | .resetCtx => (.inr (.unlock none), world.writeCtx slot none)
  | .unlock result => (.inl (frame.outcome result), world.unlock slot)

/-! ## The sections of the reconnect passes -/

/-- The variables of a pass that is inside a section, and what it meets there. -/
structure ReconnectFrame where
  endpoint : Endpoint
  targets : List (Slot × Endpoint)
  status : Status
  outcome : Reconnect
  deriving DecidableEq

/-- The statements of `reconnect_datacenter` between the lock and the unlock. -/
inductive ReconnectPoint where
  /-- `if (redis_conn->status)`. -/
  | test
  /-- `reply = redisCommand(redis_conn->ctx, "PING")`. -/
  | ping
  /-- `freeReplyObject(reply)` of a `PING`. -/
  | freePing (reply : Option Reply)
  /-- The three statements after a `PING` without a reply. -/
  | lostStatus
  | lostFree
  | lostCtx
  /-- `if (!redis_conn->status)`. -/
  | retest
  /-- `ctx = redisConnectWithTimeout(...)`. -/
  | connect
  /-- `if (ctx) redisFree(ctx)`. -/
  | freeConnect (ctx : Option Ctx)
  /-- `reply = redisCommand(ctx, "AUTH %s", pass)`. -/
  | auth (ctx : Option Ctx) (pass : CString)
  /-- `if (reply) freeReplyObject(reply)` of an `AUTH` that was refused. -/
  | freeAuth (ctx : Option Ctx) (reply : Option Reply)
  /-- `redis_conn->status = status`. -/
  | storeStatus (ctx : Option Ctx)
  /-- `redis_conn->ctx = ctx`. -/
  | storeCtx (ctx : Option Ctx)
  /-- `pthread_mutex_unlock`. -/
  | unlock
  deriving DecidableEq

namespace ReconnectPoint

/-- The point without the numbers of its context and reply. -/
def anonymous : ReconnectPoint → ReconnectPoint
  | .freePing reply => .freePing (reply.map Reply.anonymous)
  | .freeConnect ctx => .freeConnect (anonymousCtx ctx)
  | .auth ctx pass => .auth (anonymousCtx ctx) pass
  | .freeAuth ctx reply => .freeAuth (anonymousCtx ctx) (reply.map Reply.anonymous)
  | .storeStatus ctx => .storeStatus (anonymousCtx ctx)
  | .storeCtx ctx => .storeCtx (anonymousCtx ctx)
  | point => point

/-- How many statements may follow. -/
def rank : ReconnectPoint → Nat
  | .test => 13
  | .ping => 12
  | .freePing _ => 11
  | .lostStatus => 10
  | .lostFree => 9
  | .lostCtx => 8
  | .retest => 7
  | .connect => 6
  | .auth _ _ => 5
  | .freeAuth _ _ => 4
  | .storeStatus _ => 3
  | .storeCtx _ => 2
  | .freeConnect _ => 1
  | .unlock => 0

end ReconnectPoint

/-- A statement of a pass. -/
def reconnectStatement (frame : ReconnectFrame) (slot : Slot) (world : World) :
    ReconnectPoint → (Pass ⊕ ReconnectFrame × ReconnectPoint) × World
  | .test =>
      match (world.conn slot).status with
      | .invalid => (.inr (frame, .retest), world)
      | .valid => (.inr (frame, .ping), world)
  | .ping =>
      let (reply, world) :=
        world.redisCommand slot (world.conn slot).ctx .ping frame.outcome.ping
      match reply with
      | some _ => (.inr (frame, .freePing reply), world)
      | none => (.inr (frame, .lostStatus), world)
  | .freePing reply => (.inr (frame, .retest), world.freeReply slot reply)
  | .lostStatus => (.inr (frame, .lostFree), world.writeStatus slot .invalid)
  | .lostFree => (.inr (frame, .lostCtx), world.redisFree slot (world.conn slot).ctx)
  | .lostCtx => (.inr (frame, .retest), world.writeCtx slot none)
  | .retest =>
      match (world.conn slot).status with
      | .invalid => (.inr (frame, .connect), world)
      | .valid => (.inr (frame, .unlock), world)
  | .connect =>
      let (ctx, world) := world.redisConnect slot frame.endpoint frame.outcome.dial.connect
      match frame.outcome.dial.connect, frame.endpoint.pass with
      | .connected, some pass => (.inr (frame, .auth ctx pass), world)
      | .connected, none => (.inr (frame, .storeStatus ctx), world)
      -- a failed connect leaves `status` and the slot alone
      | _, _ => (.inr (frame, .freeConnect ctx), world)
  | .freeConnect ctx => (.inr (frame, .unlock), world.redisFree slot ctx)
  | .auth ctx pass =>
      let (reply, world) := world.redisCommand slot ctx (.auth pass) frame.outcome.dial.auth
      if frame.outcome.dial.auth.accepted then
        (.inr ({ frame with status := .valid }, .storeStatus ctx), world)
      else (.inr ({ frame with status := .invalid }, .freeAuth ctx reply), world)
  | .freeAuth ctx reply => (.inr (frame, .storeStatus ctx), world.freeReply slot reply)
  | .storeStatus ctx => (.inr (frame, .storeCtx ctx), world.writeStatus slot frame.status)
  | .storeCtx ctx => (.inr (frame, .unlock), world.writeCtx slot ctx)
  | .unlock => (.inl { targets := frame.targets, status := frame.status }, world.unlock slot)

/-! ## All threads -/

/-- A call of a command function, or a pass. -/
inductive Thread where
  | command (thread : CommandThread)
  | pass (pass : Pass)
  deriving DecidableEq

/-- Where a thread is inside a section. -/
inductive Point where
  | attempt (frame : AttemptFrame) (point : AttemptPoint)
  | reconnect (frame : ReconnectFrame) (point : ReconnectPoint)
  deriving DecidableEq

/-- What a section meets. -/
inductive Met where
  | answer (answer : Answer)
  | outcome (outcome : Reconnect)
  deriving DecidableEq

/-- A thread that can begin. -/
inductive Kind where
  | command (command : Command)
  | pass (dcType : DcType)
  deriving DecidableEq

/-- What a thread outside does next: a command selects a connection, a pass goes to its next
slot. -/
def enterSection (dynoc : Dynoc) : Thread → Met → Option (Thread ⊕ Slot × Point)
  | .command (.running command cursor), .answer answer =>
      match selectConnection dynoc command.key cursor with
      | .error _ => none
      -- no connection is left: the command returns and takes no lock
      | .ok (none, _) => some (.inl (.command (.returned command command.kind.failed)))
      | .ok (some slot, cursor) =>
          some (.inr (slot, .attempt { command, cursor, answer } .test))
  | .pass ⟨(slot, endpoint) :: targets, status⟩, .outcome outcome =>
      some (.inr (slot, .reconnect { endpoint, targets, status, outcome } .test))
  | _, _ => none

/-- A statement of a thread. -/
def Point.statement (slot : Slot) (point : Point) (world : World) : (Thread ⊕ Point) × World :=
  match point with
  | .attempt frame point =>
      let (next, world) := attemptStatement frame slot world point
      (next.map .command (.attempt frame), world)
  | .reconnect frame point =>
      let (next, world) := reconnectStatement frame slot world point
      (next.map .pass fun (frame, point) => .reconnect frame point, world)

/-- A thread without the number of the reply it returned. -/
def Thread.anonymous : Thread → Thread
  | .command thread => .command thread.anonymous
  | .pass running => .pass running

/-- The point without the numbers of its context and reply. -/
def Point.anonymous : Point → Point
  | .attempt frame point => .attempt frame point.anonymous
  | .reconnect frame point => .reconnect frame point.anonymous

/-- How many statements may follow. -/
def Point.rank : Point → Nat
  | .attempt _ point => point.rank
  | .reconnect _ point => point.rank

section Rank

variable {slot : Slot} {world : World}

/-- Each statement of an attempt brings its end closer. -/
theorem attempt_rank_lt {frame : AttemptFrame} {point next : AttemptPoint}
    (h : (attemptStatement frame slot world point).1 = .inr next) : next.rank < point.rank := by
  cases point with
  | test =>
      simp only [attemptStatement] at h
      split at h
      all_goals
        obtain rfl := Sum.inr.inj h
        simp [AttemptPoint.rank]
  | judge reply =>
      simp only [attemptStatement] at h
      split at h
      · split at h
        all_goals
          obtain rfl := Sum.inr.inj h
          simp [AttemptPoint.rank]
      · obtain rfl := Sum.inr.inj h
        simp [AttemptPoint.rank]
  | unlock result => cases h
  | _ =>
      obtain rfl := Sum.inr.inj h
      simp [AttemptPoint.rank]

/-- Each statement of a turn brings its end closer. -/
theorem reconnect_rank_lt {frame after : ReconnectFrame} {point next : ReconnectPoint}
    (h : (reconnectStatement frame slot world point).1 = .inr (after, next)) :
    next.rank < point.rank := by
  cases point with
  | test | ping | retest | connect | auth =>
      simp only [reconnectStatement] at h
      split at h
      all_goals
        obtain ⟨-, rfl⟩ := Prod.mk.inj (Sum.inr.inj h)
        simp [ReconnectPoint.rank]
  | unlock => cases h
  | _ =>
      obtain ⟨-, rfl⟩ := Prod.mk.inj (Sum.inr.inj h)
      simp [ReconnectPoint.rank]

end Rank

/-- The commands and passes as threads with sections. -/
def sections (dynoc : Dynoc) : Sections World Slot Thread Point Met Kind where
  spawn
    | .command command => some (.command (.running command .start))
    | .pass dcType =>
        (dynoc.dc dcType).map fun dc => .pass ⟨dc.reconnectTargets dcType, .valid⟩
  enter := enterSection dynoc
  acquire slot world := world.lock slot
  statement := Point.statement
  rank := Point.rank
  rank_lt := by
    intro slot point world next h
    cases point with
    | attempt frame point =>
        obtain ⟨after, hafter, rfl⟩ : ∃ after, (attemptStatement frame slot world point).1 =
            .inr after ∧ next = .attempt frame after := by
          simp only [Point.statement] at h
          cases hstatement : (attemptStatement frame slot world point).1 with
          | inl thread => simp [hstatement] at h
          | inr after => exact ⟨after, rfl, by simpa [hstatement] using h.symm⟩
        exact attempt_rank_lt hafter
    | reconnect frame point =>
        obtain ⟨after, reached, hafter, rfl⟩ : ∃ after reached,
            (reconnectStatement frame slot world point).1 = .inr (after, reached) ∧
              next = .reconnect after reached := by
          simp only [Point.statement] at h
          cases hstatement : (reconnectStatement frame slot world point).1 with
          | inl thread => simp [hstatement] at h
          | inr after => exact ⟨after.1, after.2, rfl, by simpa [hstatement] using h.symm⟩
        exact reconnect_rank_lt hafter

end DynocClient
