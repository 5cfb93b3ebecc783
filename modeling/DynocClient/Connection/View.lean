import DynocClient.Connection.World

/-!
# What a slot's lock protects

hiredis numbers the contexts and replies of all slots together, so their numbers depend on what
threads do at other slots. Without the numbers, the `view` of a slot is what its critical sections
read and write: its status, whether it has a context, and the calls made for it. Each call into
hiredis changes the view of its own slot, in a way that depends on this view alone, and no other.
-/

namespace DynocClient

/-- A reply without its number. -/
def Reply.anonymous (reply : Reply) : Reply := { reply with id := 0 }

/-- A context without its number. -/
def anonymousCtx (ctx : Option Ctx) : Option Ctx := ctx.map fun _ => 0

/-- A connection without the number of its context. -/
def RedisConnection.anonymous (redisConn : RedisConnection) : RedisConnection :=
  { redisConn with ctx := anonymousCtx redisConn.ctx }

/-- A call without the numbers of contexts and replies. -/
def ExternalCall.anonymous : ExternalCall → ExternalCall
  | .lock => .lock
  | .unlock => .unlock
  | .connect endpoint ctx => .connect endpoint (anonymousCtx ctx)
  | .command ctx request answer => .command (anonymousCtx ctx) request answer
  | .redisFree _ => .redisFree 0
  | .freeReplyObject _ => .freeReplyObject 0

/-- A slot as its lock protects it. -/
structure SlotView where
  redisConn : RedisConnection
  calls : List ExternalCall
  deriving DecidableEq

/-- The calls made for a slot. -/
def World.callsAt (world : World) (slot : Slot) : List ExternalCall :=
  (world.trace.filter fun event => event.slot = slot).map Event.call

/-- The view of a slot. -/
def World.view (world : World) (slot : Slot) : SlotView :=
  { redisConn := (world.conn slot).anonymous
    calls := (world.callsAt slot).map ExternalCall.anonymous }

/-- `redis_conn->status = status`. -/
def World.writeStatus (world : World) (slot : Slot) (status : Status) : World :=
  world.write slot { world.conn slot with status }

/-- `redis_conn->ctx = ctx`. -/
def World.writeCtx (world : World) (slot : Slot) (ctx : Option Ctx) : World :=
  world.write slot { world.conn slot with ctx }

/-- `NULL` has no number to lose. -/
@[simp] theorem anonymous_ctx_none : anonymousCtx none = none := rfl

/-- Every context becomes context 0. -/
@[simp] theorem anonymous_ctx_some (ctx : Ctx) : anonymousCtx (some ctx) = some 0 := rfl

/-- A context without a number has none to lose. -/
@[simp] theorem anonymous_ctx_twice (ctx : Option Ctx) :
    anonymousCtx (anonymousCtx ctx) = anonymousCtx ctx := by
  cases ctx <;> rfl

/-- A reply without a number has none to lose. -/
@[simp] theorem anonymous_reply_twice : Reply.anonymous ∘ Reply.anonymous = Reply.anonymous := rfl

/-- The status of a connection has no number in it. -/
@[simp] theorem anonymous_status (redisConn : RedisConnection) :
    redisConn.anonymous.status = redisConn.status := rfl

/-- A connection without numbers holds the context without its number. -/
@[simp] theorem anonymous_ctx (redisConn : RedisConnection) :
    redisConn.anonymous.ctx = anonymousCtx redisConn.ctx := rfl

/-- One more call at the slot. -/
def SlotView.emit (view : SlotView) (call : ExternalCall) : SlotView :=
  { view with calls := view.calls ++ [call] }

namespace World

section Own

variable (world : World) (slot : Slot)

/-- A view shows the status of its slot. -/
@[simp] theorem view_status : (world.view slot).redisConn.status = (world.conn slot).status := rfl

/-- A view shows whether the slot has a context, not which. -/
@[simp] theorem view_ctx :
    (world.view slot).redisConn.ctx = anonymousCtx (world.conn slot).ctx := rfl

/-- A call at the slot is one more call in its view. -/
@[simp] theorem view_emit (call : ExternalCall) :
    (world.emit slot call).view slot = (world.view slot).emit call.anonymous := by
  simp [view, callsAt, SlotView.emit]

/-- Taking the lock shows as a call and changes nothing else in the view. -/
@[simp] theorem view_lock : (world.lock slot).view slot = (world.view slot).emit .lock :=
  view_emit world slot .lock

/-- Releasing the lock shows as a call and changes nothing else in the view. -/
@[simp] theorem view_unlock : (world.unlock slot).view slot = (world.view slot).emit .unlock :=
  view_emit world slot .unlock

/-- A write to the connection replaces the connection of the view and keeps the calls. -/
@[simp] theorem view_write (redisConn : RedisConnection) :
    (world.write slot redisConn).view slot =
      { world.view slot with redisConn := redisConn.anonymous } := by
  simp [view, callsAt]

/-- A write of the status keeps the context and the calls of the view. -/
@[simp] theorem view_write_status (status : Status) :
    (world.writeStatus slot status).view slot =
      { world.view slot with redisConn := { (world.view slot).redisConn with status } } := by
  simp [writeStatus, RedisConnection.anonymous]

/-- A write of the context keeps the status and the calls of the view. -/
@[simp] theorem view_write_ctx (ctx : Option Ctx) :
    (world.writeCtx slot ctx).view slot =
      { world.view slot with
        redisConn := { (world.view slot).redisConn with ctx := anonymousCtx ctx } } := by
  simp [writeCtx, RedisConnection.anonymous]

/-- A command at the slot shows as one call, whatever number its reply gets. -/
@[simp] theorem view_redis_command (ctx : Option Ctx) (request : Request) (answer : Answer) :
    (world.redisCommand slot ctx request answer).2.view slot =
      (world.view slot).emit (.command (anonymousCtx ctx) request answer) := by
  rw [← ExternalCall.anonymous, ← view_emit]
  unfold redisCommand
  cases answer.reply <;> rfl

/-- The reply to a command has the type the server gave it. -/
@[simp] theorem redis_command_anonymous (ctx : Option Ctx) (request : Request)
    (answer : Answer) :
    (world.redisCommand slot ctx request answer).1.map Reply.anonymous =
      answer.reply.map fun type => ⟨0, type⟩ := by
  unfold redisCommand
  cases answer.reply <;> rfl

/-- A connect gives a context unless it returns `NULL`. -/
@[simp] theorem redis_connect_anonymous (endpoint : Endpoint) (outcome : ConnectOutcome) :
    anonymousCtx (world.redisConnect slot endpoint outcome).1 =
      if outcome = .null then none else some 0 := by
  cases outcome <;> rfl

/-- A connect at the slot shows as one call, whatever number its context gets. -/
@[simp] theorem view_redis_connect (endpoint : Endpoint) (outcome : ConnectOutcome) :
    (world.redisConnect slot endpoint outcome).2.view slot =
      (world.view slot).emit (.connect endpoint (if outcome = .null then none else some 0)) := by
  cases outcome with
  | null => exact view_emit world slot _
  | err | connected => exact view_emit { world with ctxs := world.ctxs.acquire } slot _

/-- `redisFree` shows as one call, and of `NULL` as none. -/
@[simp] theorem view_redis_free (ctx : Option Ctx) :
    (world.redisFree slot ctx).view slot =
      match anonymousCtx ctx with
      | none => world.view slot
      | some _ => (world.view slot).emit (.redisFree 0) := by
  cases ctx with
  | none => rfl
  | some ctx => exact view_emit { world with ctxs := world.ctxs.release ctx } slot _

/-- `freeReplyObject` shows as one call, and of `NULL` as none. -/
@[simp] theorem view_free_reply (reply : Option Reply) :
    (world.freeReply slot reply).view slot =
      match reply.map Reply.anonymous with
      | none => world.view slot
      | some _ => (world.view slot).emit (.freeReplyObject 0) := by
  cases reply with
  | none => rfl
  | some reply => exact view_emit { world with replies := world.replies.release reply.id } slot _

end Own

section Other

variable (world : World) {slot other : Slot} (h : other ≠ slot)
include h

/-- A call at a slot does not show at another. -/
theorem view_emit_other (call : ExternalCall) :
    (world.emit slot call).view other = world.view other := by
  simp [view, callsAt, Ne.symm h]

/-- A write at a slot does not show at another. -/
theorem view_write_other (redisConn : RedisConnection) :
    (world.write slot redisConn).view other = world.view other := by
  simp [view, callsAt, write_other _ _ _ _ h]

/-- A command at a slot does not show at another, although it may number a reply. -/
theorem view_redis_command_other (ctx : Option Ctx) (request : Request) (answer : Answer) :
    (world.redisCommand slot ctx request answer).2.view other = world.view other := by
  rw [← view_emit_other world h (.command ctx request answer)]
  unfold redisCommand
  cases answer.reply <;> rfl

/-- A connect at a slot does not show at another, although it may number a context. -/
theorem view_redis_connect_other (endpoint : Endpoint) (outcome : ConnectOutcome) :
    (world.redisConnect slot endpoint outcome).2.view other = world.view other := by
  cases outcome with
  | null => exact view_emit_other world h _
  | err | connected => exact view_emit_other { world with ctxs := world.ctxs.acquire } h _

/-- `redisFree` at a slot does not show at another. -/
theorem view_redis_free_other (ctx : Option Ctx) :
    (world.redisFree slot ctx).view other = world.view other := by
  cases ctx with
  | none => rfl
  | some ctx => exact view_emit_other { world with ctxs := world.ctxs.release ctx } h _

/-- `freeReplyObject` at a slot does not show at another. -/
theorem view_free_reply_other (reply : Option Reply) :
    (world.freeReply slot reply).view other = world.view other := by
  cases reply with
  | none => rfl
  | some reply => exact view_emit_other { world with replies := world.replies.release reply.id } h _

end Other

end World

end DynocClient
