import DynocClient.Lib.Ledger
import DynocClient.Setup.Basic

/-!
# Connections and the calls into hiredis

hiredis is not part of the repository. What its functions answer is an input of the model: a
`ConnectOutcome` for each connect and an `Answer` for each command. The model keeps what the
library does with the answers: the memory of the connection slots, one ledger for the contexts
and one for the replies, and the trace of external calls, each with the slot it is made for.

A fresh context or reply is the next handle of its ledger. `redisFree` of `NULL` does nothing.
-/

namespace DynocClient

open Lib

/-- What `redisConnectWithTimeout` returns: `NULL`, a context with `err` set, or one that is
connected. -/
inductive ConnectOutcome where
  | null
  | err
  | connected
  deriving DecidableEq, Repr

/-- Whether a reply has the type `REDIS_REPLY_ERROR`. -/
inductive ReplyType where
  | error
  | data
  deriving DecidableEq, Repr

/-- A `redisReply *` that is not `NULL`. -/
structure Reply where
  id : Nat
  type : ReplyType
  deriving DecidableEq, Repr

/-- What a `redisCommand` does: the reply it returns, if any, and whether it leaves `ctx->err`
set. -/
structure Answer where
  reply : Option ReplyType
  err : Bool
  deriving DecidableEq, Repr

/-- `reply && reply->type != REDIS_REPLY_ERROR && ctx->err == 0`. -/
def Answer.accepted (answer : Answer) : Bool :=
  answer.reply = some .data && !answer.err

/-- The arguments of a `redisCommand`, with its format. -/
inductive Request where
  | ping
  | auth (pass : CString)
  | set (key value : CString)
  | setex (key : CString) (seconds : Int32) (value : CString)
  | psetex (key : CString) (milliseconds : Int32) (value : CString)
  | get (key : CString)
  | del (key : CString)
  | hset (key field value : CString)
  | hget (key field : CString)
  | incr (key : CString)
  | incrby (key : CString) (val : Int32)
  | decr (key : CString)
  | decrby (key : CString) (val : Int32)
  deriving DecidableEq

/-- The external calls. -/
inductive ExternalCall where
  | lock
  | unlock
  | connect (endpoint : Endpoint) (ctx : Option Ctx)
  | command (ctx : Option Ctx) (request : Request) (answer : Answer)
  | redisFree (ctx : Ctx)
  | freeReplyObject (reply : Nat)
  deriving DecidableEq

/-- An external call and the slot whose turn it is. -/
structure Event where
  slot : Slot
  call : ExternalCall
  deriving DecidableEq

/-- The connection slots, the contexts and replies handed out by hiredis, and the external calls
so far. -/
structure World where
  conn : Slot → RedisConnection
  ctxs : Ledger
  replies : Ledger
  trace : List Event

namespace World

/-- No context and no reply yet. -/
def initial (conn : Slot → RedisConnection) : World :=
  { conn, ctxs := .empty, replies := .empty, trace := [] }

/-- Record an external call. -/
def emit (world : World) (slot : Slot) (call : ExternalCall) : World :=
  { world with trace := world.trace ++ [⟨slot, call⟩] }

/-- Write a slot. -/
def write (world : World) (slot : Slot) (redisConn : RedisConnection) : World :=
  { world with conn := Function.update world.conn slot redisConn }

/-- `pthread_mutex_lock`. -/
def lock (world : World) (slot : Slot) : World := world.emit slot .lock

/-- `pthread_mutex_unlock`. -/
def unlock (world : World) (slot : Slot) : World := world.emit slot .unlock

/-- `redisConnectWithTimeout`. -/
def redisConnect (world : World) (slot : Slot) (endpoint : Endpoint) :
    ConnectOutcome → Option Ctx × World
  | .null => (none, world.emit slot (.connect endpoint none))
  | .err | .connected =>
      (some world.ctxs.issued,
        { world with ctxs := world.ctxs.acquire }.emit slot
          (.connect endpoint (some world.ctxs.issued)))

/-- `redisCommand`. -/
def redisCommand (world : World) (slot : Slot) (ctx : Option Ctx) (request : Request)
    (answer : Answer) : Option Reply × World :=
  let world := world.emit slot (.command ctx request answer)
  match answer.reply with
  | none => (none, world)
  | some type =>
      (some ⟨world.replies.issued, type⟩, { world with replies := world.replies.acquire })

/-- `redisFree`. -/
def redisFree (world : World) (slot : Slot) : Option Ctx → World
  | none => world
  | some ctx => { world with ctxs := world.ctxs.release ctx }.emit slot (.redisFree ctx)

/-- `freeReplyObject`, where a reply was returned. -/
def freeReply (world : World) (slot : Slot) : Option Reply → World
  | none => world
  | some reply =>
      { world with replies := world.replies.release reply.id }.emit slot
        (.freeReplyObject reply.id)

/-! ## What each call leaves alone -/

section Frame

variable (world : World) (slot other : Slot)

/-- A call by itself changes no connection. -/
@[simp] theorem emit_conn (call : ExternalCall) : (world.emit slot call).conn = world.conn := rfl

/-- A call by itself opens and closes no context. -/
@[simp] theorem emit_ctxs (call : ExternalCall) : (world.emit slot call).ctxs = world.ctxs := rfl

/-- A call is the last event of the trace. -/
@[simp] theorem emit_trace (call : ExternalCall) :
    (world.emit slot call).trace = world.trace ++ [⟨slot, call⟩] := rfl

/-- Taking a lock is one event. -/
@[simp] theorem lock_trace : (world.lock slot).trace = world.trace ++ [⟨slot, .lock⟩] := rfl

/-- Releasing a lock is one event. -/
@[simp] theorem unlock_trace :
    (world.unlock slot).trace = world.trace ++ [⟨slot, .unlock⟩] := rfl

/-- Taking a lock changes no connection. -/
@[simp] theorem lock_conn : (world.lock slot).conn = world.conn := rfl

/-- Taking a lock opens and closes no context. -/
@[simp] theorem lock_ctxs : (world.lock slot).ctxs = world.ctxs := rfl

/-- Releasing a lock changes no connection. -/
@[simp] theorem unlock_conn : (world.unlock slot).conn = world.conn := rfl

/-- Releasing a lock opens and closes no context. -/
@[simp] theorem unlock_ctxs : (world.unlock slot).ctxs = world.ctxs := rfl

/-- A write is read back at its slot. -/
@[simp] theorem write_same (redisConn : RedisConnection) :
    (world.write slot redisConn).conn slot = redisConn :=
  Function.update_self ..

/-- A write is not seen at another slot. -/
theorem write_other (redisConn : RedisConnection) (h : other ≠ slot) :
    (world.write slot redisConn).conn other = world.conn other :=
  Function.update_of_ne h ..

/-- A write opens and closes no context, also where it overwrites a pointer. -/
@[simp] theorem write_ctxs (redisConn : RedisConnection) :
    (world.write slot redisConn).ctxs = world.ctxs := rfl

/-- A write is no event. -/
@[simp] theorem write_trace (redisConn : RedisConnection) :
    (world.write slot redisConn).trace = world.trace := rfl

/-- A command changes no connection. -/
@[simp] theorem redis_command_conn (ctx : Option Ctx) (request : Request) (answer : Answer) :
    (world.redisCommand slot ctx request answer).2.conn = world.conn := by
  unfold redisCommand
  cases answer.reply <;> rfl

/-- A command opens and closes no context. -/
@[simp] theorem redis_command_ctxs (ctx : Option Ctx) (request : Request) (answer : Answer) :
    (world.redisCommand slot ctx request answer).2.ctxs = world.ctxs := by
  unfold redisCommand
  cases answer.reply <;> rfl

/-- A command is one event, whether the server answers or not. -/
@[simp] theorem redis_command_trace (ctx : Option Ctx) (request : Request) (answer : Answer) :
    (world.redisCommand slot ctx request answer).2.trace =
      world.trace ++ [⟨slot, .command ctx request answer⟩] := by
  unfold redisCommand
  cases answer.reply <;> rfl

/-- `redisFree` leaves the pointer it was given where it is. -/
@[simp] theorem redis_free_conn (ctx : Option Ctx) :
    (world.redisFree slot ctx).conn = world.conn := by
  cases ctx <;> rfl

/-- `redisFree` closes its context. -/
@[simp] theorem redis_free_some_ctxs (ctx : Ctx) :
    (world.redisFree slot (some ctx)).ctxs = world.ctxs.release ctx := rfl

/-- `redisFree` is one event, and of `NULL` none. -/
@[simp] theorem redis_free_trace (ctx : Option Ctx) :
    (world.redisFree slot ctx).trace =
      world.trace ++ (ctx.map fun ctx => ⟨slot, .redisFree ctx⟩).toList := by
  cases ctx with
  | none => exact (List.append_nil _).symm
  | some ctx => rfl

/-- `freeReplyObject` is one event, and of `NULL` none. -/
@[simp] theorem free_reply_trace (reply : Option Reply) :
    (world.freeReply slot reply).trace =
      world.trace ++ (reply.map fun reply => ⟨slot, .freeReplyObject reply.id⟩).toList := by
  cases reply with
  | none => exact (List.append_nil _).symm
  | some reply => rfl

/-- `freeReplyObject` changes no connection. -/
@[simp] theorem free_reply_conn (reply : Option Reply) :
    (world.freeReply slot reply).conn = world.conn := by
  cases reply <;> rfl

/-- `freeReplyObject` opens and closes no context. -/
@[simp] theorem free_reply_ctxs (reply : Option Reply) :
    (world.freeReply slot reply).ctxs = world.ctxs := by
  cases reply <;> rfl

/-- A call by itself makes and frees no reply. -/
@[simp] theorem emit_replies (call : ExternalCall) :
    (world.emit slot call).replies = world.replies := rfl

/-- Taking a lock makes and frees no reply. -/
@[simp] theorem lock_replies : (world.lock slot).replies = world.replies := rfl

/-- Releasing a lock makes and frees no reply. -/
@[simp] theorem unlock_replies : (world.unlock slot).replies = world.replies := rfl

/-- A write makes and frees no reply. -/
@[simp] theorem write_replies (redisConn : RedisConnection) :
    (world.write slot redisConn).replies = world.replies := rfl

/-- A connect makes and frees no reply. -/
@[simp] theorem redis_connect_replies (endpoint : Endpoint) (outcome : ConnectOutcome) :
    (world.redisConnect slot endpoint outcome).2.replies = world.replies := by
  cases outcome <;> rfl

/-- `redisFree` makes and frees no reply. -/
@[simp] theorem redis_free_replies (ctx : Option Ctx) :
    (world.redisFree slot ctx).replies = world.replies := by
  cases ctx <;> rfl

end Frame

end World

end DynocClient
