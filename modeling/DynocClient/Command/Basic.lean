import DynocClient.Connection.World
import DynocClient.Select.Calls

/-!
# The commands

The functions of `dynoc-cmd.c`. Their bodies are copies of one loop, `commandLoop`, that differ
in the format sent and in whether the reply is returned or freed. One turn of the loop, from the
lock to the unlock, is `attempt`.

What the contacted servers answer is the argument `answers`: the answer of the first connection
the loop gets to, of the second, and so on.
-/

namespace DynocClient

/-- What a command returns: 0 or -1, or a reply or `NULL`. -/
inductive Returned where
  | code (value : Int)
  | reply (reply : Option Reply)
  deriving DecidableEq, Repr

/-- Which of the two a command returns. -/
inductive ReturnKind where
  | code
  | reply
  deriving DecidableEq, Repr

/-- What a command of the kind returns when it has failed. -/
def ReturnKind.failed : ReturnKind → Returned
  | .code => .code (-1)
  | .reply => .reply none

/-- What it returns when this reply was accepted. -/
def ReturnKind.succeeded (reply : Option Reply) : ReturnKind → Returned
  | .code => .code 0
  | .reply => .reply reply

/-- `reset_redis_connection`. -/
def resetRedisConnection (world : World) (slot : Slot) : World :=
  (world.redisFree slot (world.conn slot).ctx).write slot ⟨.invalid, none⟩

/-- One turn of a command's loop at the connection it got: what the command returns then, or
`none` if it goes on. -/
def attempt (kind : ReturnKind) (request : Request) (world : World) (slot : Slot)
    (answer : Answer) : Option Returned × World :=
  let world := world.lock slot
  match (world.conn slot).status with
  | .invalid => (none, world.unlock slot)
  | .valid =>
      let (reply, world) := world.redisCommand slot (world.conn slot).ctx request answer
      if answer.accepted then
        let world :=
          match kind with
          | .code => world.freeReply slot reply
          | .reply => world
        (some (kind.succeeded reply), world.unlock slot)
      else
        let world := world.freeReply slot reply
        let world := resetRedisConnection world slot
        (none, world.unlock slot)

/-- The loop of a command. -/
def commandLoop (kind : ReturnKind) (request : Request) (dynoc : Dynoc) (key : CString)
    (cursor : Cursor) (answers : Nat → Answer) (world : World) :
    Except Fault (Returned × World) :=
  match _h : selectConnection dynoc key cursor with
  | .error fault => throw fault
  | .ok (none, _) => pure (kind.failed, world)
  | .ok (some slot, next) =>
      match attempt kind request world slot (answers 0) with
      | (some returned, world) => pure (returned, world)
      | (none, world) =>
          commandLoop kind request dynoc key next (fun i => answers (i + 1)) world
termination_by cursor.remaining dynoc
decreasing_by exact select_connection_remaining _h

section Loop

variable {kind : ReturnKind} {request : Request} {dynoc : Dynoc} {key : CString}
  {cursor next : Cursor} (answers : Nat → Answer) (world : World)

/-- A fault of `select_connection` ends the command. -/
theorem command_loop_error {fault : Fault}
    (h : selectConnection dynoc key cursor = .error fault) :
    commandLoop kind request dynoc key cursor answers world = .error fault := by
  rw [commandLoop]
  split <;> simp_all [throw, throwThe, MonadExceptOf.throw]

/-- Where `select_connection` offers no slot, the command fails and changes nothing. -/
theorem command_loop_none (h : selectConnection dynoc key cursor = .ok (none, next)) :
    commandLoop kind request dynoc key cursor answers world = .ok (kind.failed, world) := by
  rw [commandLoop]
  split <;> simp_all [pure, Except.pure]

/-- Where a slot is offered, the command tries it and goes on if it is skipped or refused. -/
theorem command_loop_some {slot : Slot}
    (h : selectConnection dynoc key cursor = .ok (some slot, next)) :
    commandLoop kind request dynoc key cursor answers world =
      match attempt kind request world slot (answers 0) with
      | (some returned, world) => .ok (returned, world)
      | (none, world) =>
          commandLoop kind request dynoc key next (fun i => answers (i + 1)) world := by
  rw [commandLoop]
  split
  · simp_all
  · simp_all
  · rename_i hsome
    rw [h] at hsome
    cases hsome
    rfl

end Loop

section Functions

variable (dynoc : Dynoc) (answers : Nat → Answer) (world : World)

/-- `dynoc_set`. -/
def dynocSet (key value : Option CString) : Except Fault (Returned × World) :=
  match key, value with
  | some key, some value =>
      commandLoop .code (.set key value) dynoc key .start answers world
  | _, _ => pure (.code (-1), world)

/-- `dynoc_setex`. -/
def dynocSetex (key value : Option CString) (seconds : Int32) :
    Except Fault (Returned × World) :=
  match key, value with
  | some key, some value =>
      commandLoop .code (.setex key seconds value) dynoc key .start answers world
  | _, _ => pure (.code (-1), world)

/-- `dynoc_psetex`. -/
def dynocPsetex (key value : Option CString) (milliseconds : Int32) :
    Except Fault (Returned × World) :=
  match key, value with
  | some key, some value =>
      commandLoop .code (.psetex key milliseconds value) dynoc key .start answers world
  | _, _ => pure (.code (-1), world)

/-- `dynoc_get`. -/
def dynocGet (key : Option CString) : Except Fault (Returned × World) :=
  match key with
  | some key => commandLoop .reply (.get key) dynoc key .start answers world
  | none => pure (.reply none, world)

/-- `dynoc_del`. -/
def dynocDel (key : Option CString) : Except Fault (Returned × World) :=
  match key with
  | some key => commandLoop .code (.del key) dynoc key .start answers world
  | none => pure (.code (-1), world)

/-- `dynoc_hset`. -/
def dynocHset (key field value : Option CString) : Except Fault (Returned × World) :=
  match key, field, value with
  | some key, some field, some value =>
      commandLoop .code (.hset key field value) dynoc key .start answers world
  | _, _, _ => pure (.code (-1), world)

/-- `dynoc_hget`. -/
def dynocHget (key field : Option CString) : Except Fault (Returned × World) :=
  match key, field with
  | some key, some field =>
      commandLoop .reply (.hget key field) dynoc key .start answers world
  | _, _ => pure (.reply none, world)

/-- `dynoc_incr`. -/
def dynocIncr (key : Option CString) : Except Fault (Returned × World) :=
  match key with
  | some key => commandLoop .code (.incr key) dynoc key .start answers world
  | none => pure (.code (-1), world)

/-- `dynoc_incrby`. -/
def dynocIncrby (key : Option CString) (val : Int32) : Except Fault (Returned × World) :=
  match key with
  | some key => commandLoop .code (.incrby key val) dynoc key .start answers world
  | none => pure (.code (-1), world)

/-- `dynoc_decr`. -/
def dynocDecr (key : Option CString) : Except Fault (Returned × World) :=
  match key with
  | some key => commandLoop .code (.decr key) dynoc key .start answers world
  | none => pure (.code (-1), world)

/-- `dynoc_decrby`. -/
def dynocDecrby (key : Option CString) (val : Int32) : Except Fault (Returned × World) :=
  match key with
  | some key => commandLoop .code (.decrby key val) dynoc key .start answers world
  | none => pure (.code (-1), world)

end Functions

/-! ## Commands as values -/

/-- A call of one of the functions with arguments that are not `NULL`. -/
inductive Command where
  | set (key value : CString)
  | setex (key value : CString) (seconds : Int32)
  | psetex (key value : CString) (milliseconds : Int32)
  | get (key : CString)
  | del (key : CString)
  | hset (key field value : CString)
  | hget (key field : CString)
  | incr (key : CString)
  | incrby (key : CString) (val : Int32)
  | decr (key : CString)
  | decrby (key : CString) (val : Int32)
  deriving DecidableEq

namespace Command

/-- Make the call. -/
def call (dynoc : Dynoc) (answers : Nat → Answer) (world : World) :
    Command → Except Fault (Returned × World)
  | .set key value => dynocSet dynoc answers world (some key) (some value)
  | .setex key value seconds => dynocSetex dynoc answers world (some key) (some value) seconds
  | .psetex key value milliseconds =>
      dynocPsetex dynoc answers world (some key) (some value) milliseconds
  | .get key => dynocGet dynoc answers world (some key)
  | .del key => dynocDel dynoc answers world (some key)
  | .hset key field value =>
      dynocHset dynoc answers world (some key) (some field) (some value)
  | .hget key field => dynocHget dynoc answers world (some key) (some field)
  | .incr key => dynocIncr dynoc answers world (some key)
  | .incrby key val => dynocIncrby dynoc answers world (some key) val
  | .decr key => dynocDecr dynoc answers world (some key)
  | .decrby key val => dynocDecrby dynoc answers world (some key) val

/-- The key, which the connections are chosen for. -/
def key : Command → CString
  | .set key _ | .setex key _ _ | .psetex key _ _ | .get key | .del key | .hset key _ _
  | .hget key _ | .incr key | .incrby key _ | .decr key | .decrby key _ => key

/-- What is sent. -/
def request : Command → Request
  | .set key value => .set key value
  | .setex key value seconds => .setex key seconds value
  | .psetex key value milliseconds => .psetex key milliseconds value
  | .get key => .get key
  | .del key => .del key
  | .hset key field value => .hset key field value
  | .hget key field => .hget key field
  | .incr key => .incr key
  | .incrby key val => .incrby key val
  | .decr key => .decr key
  | .decrby key val => .decrby key val

/-- What is returned. -/
def kind : Command → ReturnKind
  | .get _ | .hget _ _ => .reply
  | _ => .code

/-- All commands run the one loop. -/
theorem call_eq (command : Command) (dynoc : Dynoc) (answers : Nat → Answer) (world : World) :
    command.call dynoc answers world =
      commandLoop command.kind command.request dynoc command.key .start answers world := by
  cases command <;> rfl

end Command

/-! ## What an attempt does -/

section Attempt

variable {kind : ReturnKind} {request : Request} {world : World} {slot : Slot} {answer : Answer}

/-- A connection that is `INVALID` is passed over. -/
theorem attempt_invalid (h : (world.conn slot).status = .invalid) :
    attempt kind request world slot answer = (none, (world.lock slot).unlock slot) := by
  simp [attempt, h]

/-- The reply that the next command gets. -/
def World.nextReply (world : World) (answer : Answer) : Option Reply :=
  answer.reply.map fun type => ⟨world.replies.issued, type⟩

/-- A command returns the next reply. -/
theorem redis_command_reply (world : World) (slot : Slot) (ctx : Option Ctx)
    (request : Request) (answer : Answer) :
    (world.redisCommand slot ctx request answer).1 = world.nextReply answer := by
  unfold World.redisCommand World.nextReply
  cases answer.reply <;> rfl

/-- The connection is `VALID` and does not answer as the command needs. -/
def Refused (world : World) (slot : Slot) (answer : Answer) : Prop :=
  (world.conn slot).status = .valid ∧ answer.accepted = false

instance (world : World) (slot : Slot) (answer : Answer) :
    Decidable (Refused world slot answer) :=
  inferInstanceAs (Decidable (_ ∧ _))

/-- An accepted answer is a reply with data. -/
theorem next_reply_accepted (world : World) (haccepted : answer.accepted) :
    world.nextReply answer = some ⟨world.replies.issued, .data⟩ := by
  have hreply : answer.reply = some .data := by
    simp only [Answer.accepted, Bool.and_eq_true, decide_eq_true_eq] at haccepted
    exact haccepted.1
  simp only [World.nextReply, hreply, Option.map_some]

/-- An accepted answer ends the command with its reply. -/
theorem attempt_accepted (kind : ReturnKind) (request : Request)
    (h : (world.conn slot).status = .valid) (haccepted : answer.accepted) :
    (attempt kind request world slot answer).1 =
      some (kind.succeeded (some ⟨world.replies.issued, .data⟩)) := by
  have hreply := redis_command_reply (world.lock slot) slot (world.conn slot).ctx request answer
  rw [next_reply_accepted _ haccepted] at hreply
  simp only [attempt, World.lock_conn, h, haccepted, if_true, hreply]
  rfl

/-- Without an accepted answer the command goes on. -/
theorem attempt_none (h : ¬ ((world.conn slot).status = .valid ∧ answer.accepted)) :
    (attempt kind request world slot answer).1 = none := by
  cases hstatus : (world.conn slot).status with
  | invalid => rw [attempt_invalid hstatus]
  | valid =>
      have hrefused : answer.accepted = false := by simpa [hstatus] using h
      simp [attempt, hstatus, hrefused]

/-- Where the command goes on from a `VALID` connection, that one has refused. -/
theorem refused_of_none (h : (world.conn slot).status = .valid)
    (hnone : (attempt kind request world slot answer).1 = none) : Refused world slot answer := by
  refine ⟨h, Bool.eq_false_iff.mpr fun haccepted => ?_⟩
  rw [attempt_accepted kind request h haccepted] at hnone
  cases hnone

variable (kind request)

/-- A refused connection is reset. -/
theorem attempt_refused (h : Refused world slot answer) :
    (attempt kind request world slot answer).2.conn =
        Function.update world.conn slot ⟨.invalid, none⟩ ∧
      ∀ ctx, (world.conn slot).ctx = some ctx →
        (attempt kind request world slot answer).2.ctxs = world.ctxs.release ctx := by
  obtain ⟨hstatus, hrefused⟩ := h
  simp only [attempt, World.lock_conn, hstatus, hrefused, Bool.false_eq_true, if_false]
  refine ⟨?_, fun ctx hctx => ?_⟩
  · simp [resetRedisConnection, World.write]
  · simp [resetRedisConnection, hctx]

/-- Any other connection is left as it is. -/
theorem attempt_kept (h : ¬ Refused world slot answer) :
    (attempt kind request world slot answer).2.conn = world.conn ∧
      (attempt kind request world slot answer).2.ctxs = world.ctxs := by
  cases hstatus : (world.conn slot).status with
  | invalid =>
      rw [attempt_invalid hstatus]
      exact ⟨rfl, rfl⟩
  | valid =>
      have haccepted : answer.accepted = true := by simpa [Refused, hstatus] using h
      simp only [attempt, World.lock_conn, hstatus, haccepted, if_true]
      cases kind <;> simp

/-- An attempt changes no other connection. -/
theorem attempt_other {other : Slot} (h : other ≠ slot) :
    (attempt kind request world slot answer).2.conn other = world.conn other := by
  by_cases hrefused : Refused world slot answer
  · rw [(attempt_refused kind request hrefused).1, Function.update_of_ne h]
  · rw [(attempt_kept kind request hrefused).1]

/-- An attempt leaves a connection as it was or `INVALID` and without a context. -/
theorem attempt_conn (world : World) (slot : Slot) (answer : Answer) (other : Slot) :
    (attempt kind request world slot answer).2.conn other = world.conn other ∨
      (attempt kind request world slot answer).2.conn other = ⟨.invalid, none⟩ := by
  by_cases hrefused : Refused world slot answer
  · rw [(attempt_refused kind request hrefused).1]
    by_cases hother : other = slot
    · subst hother
      exact .inr (Function.update_self ..)
    · exact .inl (Function.update_of_ne hother ..)
  · exact .inl (by rw [(attempt_kept kind request hrefused).1])

/-- A call that takes or releases a lock. -/
def ExternalCall.isMutex : ExternalCall → Bool
  | .lock | .unlock => true
  | _ => false

/-- A call that sends a command. -/
def ExternalCall.isCommand : ExternalCall → Bool
  | .command _ _ _ => true
  | _ => false

/-- Taking a lock is a call for the mutex. -/
@[simp] theorem is_mutex_lock : ExternalCall.lock.isMutex = true := rfl

/-- Releasing a lock is a call for the mutex. -/
@[simp] theorem is_mutex_unlock : ExternalCall.unlock.isMutex = true := rfl

/-- Taking a lock is no command. -/
@[simp] theorem is_command_lock : ExternalCall.lock.isCommand = false := rfl

/-- Releasing a lock is no command. -/
@[simp] theorem is_command_unlock : ExternalCall.unlock.isCommand = false := rfl

/-- Between the lock and the unlock of an attempt no other lock is touched, and the request is
sent once if the connection is `VALID` and else not at all. -/
theorem attempt_trace (kind : ReturnKind) (request : Request) (world : World) (slot : Slot)
    (answer : Answer) :
    ∃ inside, (attempt kind request world slot answer).2.trace =
        world.trace ++ ⟨slot, .lock⟩ :: inside ++ [⟨slot, .unlock⟩] ∧
      inside.filter (fun event => event.call.isMutex) = [] ∧
      inside.filter (fun event => event.call.isCommand) =
        if (world.conn slot).status = .valid then
          [⟨slot, .command (world.conn slot).ctx request answer⟩]
        else [] := by
  cases hstatus : (world.conn slot).status with
  | invalid =>
      refine ⟨[], ?_, rfl, rfl⟩
      simp [attempt_invalid hstatus]
  | valid =>
      have hreply := redis_command_reply (world.lock slot) slot (world.conn slot).ctx request
        answer
      cases haccepted : answer.accepted with
      | true =>
          cases kind with
          | code =>
              refine ⟨⟨slot, .command (world.conn slot).ctx request answer⟩ ::
                (((world.lock slot).nextReply answer).map fun reply =>
                  ⟨slot, .freeReplyObject reply.id⟩).toList, ?_, ?_, ?_⟩
              · simp [attempt, hstatus, haccepted, hreply]
              · cases (world.lock slot).nextReply answer <;> rfl
              · cases (world.lock slot).nextReply answer <;> rfl
          | reply =>
              refine ⟨[⟨slot, .command (world.conn slot).ctx request answer⟩], ?_, rfl, rfl⟩
              simp [attempt, hstatus, haccepted]
      | false =>
          refine ⟨⟨slot, .command (world.conn slot).ctx request answer⟩ ::
            ((((world.lock slot).nextReply answer).map fun reply =>
              ⟨slot, .freeReplyObject reply.id⟩).toList ++
            ((world.conn slot).ctx.map fun ctx => ⟨slot, .redisFree ctx⟩).toList), ?_, ?_, ?_⟩
          · simp [attempt, hstatus, haccepted, hreply, resetRedisConnection]
          · cases (world.lock slot).nextReply answer <;> cases (world.conn slot).ctx <;> rfl
          · cases (world.lock slot).nextReply answer <;> cases (world.conn slot).ctx <;> rfl

end Attempt

end DynocClient
