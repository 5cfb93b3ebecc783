import DynocClient.Command.Meaning
import DynocClient.Connection.Status
import DynocClient.System.Basic
import DynocClient.System.Start

/-!
# What a `VALID` slot promises

`Safe` is the invariant of the connections: the slots own their contexts, and a `VALID` slot has
one, on which `AUTH` was accepted if its endpoint has a password. Each critical section keeps it,
whatever it meets, so it holds in every state of the running client (`valid_slot_usable`). A
slot that is `INVALID` may have a context as well; that one is owned too.
-/

namespace DynocClient

open Lib

/-- The context in a slot. -/
def World.ctx (world : World) (slot : Slot) : Option Ctx := (world.conn slot).ctx

/-- `AUTH` with the password was accepted on the context. -/
def Authed (trace : List Event) (slot : Slot) (ctx : Ctx) (pass : CString) : Prop :=
  ∃ answer : Answer, answer.accepted = true ∧
    ⟨slot, .command (some ctx) (.auth pass) answer⟩ ∈ trace

/-- The slots own their contexts, and every `VALID` slot has one that is authenticated. -/
structure Safe (dynoc : Dynoc) (world : World) : Prop where
  owned : Ledger.Owned dynoc.IsSlot world.ctx world.ctxs
  served : ∀ slot endpoint, dynoc.HasEndpoint slot endpoint →
    (world.conn slot).status = .valid →
    ∃ ctx, (world.conn slot).ctx = some ctx ∧
      ∀ pass, endpoint.pass = some pass → Authed world.trace slot ctx pass

/-! ## What the critical sections add to the trace -/

section Trace

/-- A context once authenticated stays so as the trace grows. -/
theorem Authed.mono {trace later : List Event} (hextends : trace <+: later) {slot : Slot}
    {ctx : Ctx} {pass : CString} (h : Authed trace slot ctx pass) :
    Authed later slot ctx pass := by
  obtain ⟨answer, haccepted, hmem⟩ := h
  exact ⟨answer, haccepted, hextends.subset hmem⟩

/-- A command adds to the trace at its end. -/
theorem attempt_extends (kind : ReturnKind) (request : Request) (world : World) (slot : Slot)
    (answer : Answer) : world.trace <+: (attempt kind request world slot answer).2.trace := by
  obtain ⟨inside, htrace, -⟩ := attempt_trace kind request world slot answer
  rw [htrace, List.append_assoc]
  exact List.prefix_append _ _

/-- A PING adds to the trace at its end. -/
theorem ping_slot_extends (world : World) (slot : Slot) (answer : Answer) :
    world.trace <+: (pingSlot world slot answer).trace := by
  cases hstatus : (world.conn slot).status with
  | invalid =>
      simp only [ping_slot_invalid hstatus, List.prefix_refl]
  | valid =>
      cases hreply : answer.reply with
      | none =>
          rw [ping_slot_lost hstatus hreply]
          simp
      | some type => simp [pingSlot, hstatus, World.redisCommand, hreply]

variable (world : World) (slot : Slot) (endpoint : Endpoint)

/-- A dial adds to the trace at its end. -/
theorem dial_extends (outcome : Dial) (status : Status) :
    world.trace <+: (dial world slot endpoint outcome status).2.trace := by
  cases hconnect : outcome.connect with
  | null | err => simp [dial, hconnect, World.redisConnect]
  | connected =>
      cases hpass : endpoint.pass with
      | none => simp [dial, hconnect, World.redisConnect, hpass]
      | some pass =>
          simp only [dial, hconnect, World.redisConnect, hpass]
          split <;> simp

/-- A connect that leaves `VALID` to a slot with a password saw its `AUTH` accepted. -/
theorem dial_authed {outcome : Dial} (status : Status)
    (hconnect : outcome.connect = .connected) {pass : CString}
    (hpass : endpoint.pass = some pass) (hvalid : dialStatus endpoint outcome status = .valid) :
    Authed (dial world slot endpoint outcome status).2.trace slot world.ctxs.issued pass := by
  have haccepted : outcome.auth.accepted = true := by
    by_contra h
    simp [dialStatus, hpass, h] at hvalid
  refine ⟨outcome.auth, haccepted, ?_⟩
  simp [dial, hconnect, World.redisConnect, hpass, haccepted]

end Trace

/-! ## What they do to the connections -/

section Steps

variable {dynoc : Dynoc} {world other : World} {slot : Slot}

/-- A write to one connection changes the context of that slot only. -/
theorem World.ctx_update {redisConn : RedisConnection}
    (h : other.conn = Function.update world.conn slot redisConn) :
    other.ctx = Function.update world.ctx slot redisConn.ctx := by
  funext cell
  by_cases hcell : cell = slot
  · subst hcell
    simp [ctx, h]
  · simp [ctx, h, Function.update_of_ne hcell]

namespace Safe

variable (h : Safe dynoc world)
include h

/-- The connections stay as they are; a context may have been opened and freed. -/
theorem same (hconn : other.conn = world.conn)
    (hctxs : other.ctxs = world.ctxs ∨
      other.ctxs = world.ctxs.acquire.release world.ctxs.issued)
    (hextends : world.trace <+: other.trace) : Safe dynoc other := by
  have hctx : other.ctx = world.ctx := by
    funext cell
    simp only [World.ctx, hconn]
  constructor
  · rw [hctx]
    rcases hctxs with hctxs | hctxs
    · rw [hctxs]
      exact h.owned
    · rw [hctxs]
      exact h.owned.bounce
  · intro cell endpoint hendpoint hvalid
    rw [hconn] at hvalid ⊢
    obtain ⟨ctx, hheld, hauth⟩ := h.served cell endpoint hendpoint hvalid
    exact ⟨ctx, hheld, fun pass hpass => (hauth pass hpass).mono hextends⟩

/-- One slot is written, so only that one has to be served anew. -/
theorem served_update {redisConn : RedisConnection}
    (hconn : other.conn = Function.update world.conn slot redisConn)
    (hextends : world.trace <+: other.trace)
    (hslot : ∀ endpoint, dynoc.HasEndpoint slot endpoint → redisConn.status = .valid →
      ∃ ctx, redisConn.ctx = some ctx ∧
        ∀ pass, endpoint.pass = some pass → Authed other.trace slot ctx pass) :
    ∀ cell endpoint, dynoc.HasEndpoint cell endpoint → (other.conn cell).status = .valid →
      ∃ ctx, (other.conn cell).ctx = some ctx ∧
        ∀ pass, endpoint.pass = some pass → Authed other.trace cell ctx pass := by
  intro cell endpoint hendpoint hvalid
  by_cases hcell : cell = slot
  · subst hcell
    rw [hconn, Function.update_self] at hvalid ⊢
    exact hslot endpoint hendpoint hvalid
  · rw [hconn, Function.update_of_ne hcell] at hvalid ⊢
    obtain ⟨ctx, hheld, hauth⟩ := h.served cell endpoint hendpoint hvalid
    exact ⟨ctx, hheld, fun pass hpass => (hauth pass hpass).mono hextends⟩

/-- The slot gives up its context. -/
theorem reset (hslot : dynoc.IsSlot slot) {ctx : Ctx} (hctx : world.ctx slot = some ctx)
    (hconn : other.conn = Function.update world.conn slot ⟨.invalid, none⟩)
    (hctxs : other.ctxs = world.ctxs.release ctx) (hextends : world.trace <+: other.trace) :
    Safe dynoc other := by
  constructor
  · rw [World.ctx_update hconn, hctxs]
    exact h.owned.release hslot hctx
  · exact h.served_update hconn hextends (fun _ _ hvalid => nomatch hvalid)

/-- A `VALID` slot has a context. -/
theorem ctx_of_valid (hslot : dynoc.IsSlot slot) (hvalid : (world.conn slot).status = .valid) :
    ∃ ctx, (world.conn slot).ctx = some ctx := by
  obtain ⟨dc, rack, hdc, hrack, hlt⟩ := hslot
  obtain ⟨ctx, hctx, -⟩ := h.served slot _ ⟨dc, rack, hdc, hrack, hlt, rfl⟩ hvalid
  exact ⟨ctx, hctx⟩

/-- A turn of a command. -/
theorem attempt (hslot : dynoc.IsSlot slot) (kind : ReturnKind) (request : Request)
    (answer : Answer) : Safe dynoc (attempt kind request world slot answer).2 := by
  have hextends := attempt_extends kind request world slot answer
  by_cases hrefused : Refused world slot answer
  · obtain ⟨ctx, hctx⟩ := h.ctx_of_valid hslot hrefused.1
    obtain ⟨hconn, hctxs⟩ := attempt_refused kind request hrefused
    exact h.reset hslot hctx hconn (hctxs ctx hctx) hextends
  · obtain ⟨hconn, hctxs⟩ := attempt_kept kind request hrefused
    exact h.same hconn (.inl hctxs) hextends

/-- The `PING` of a pass. -/
theorem ping (hslot : dynoc.IsSlot slot) (answer : Answer) :
    Safe dynoc (pingSlot world slot answer) := by
  have hextends := ping_slot_extends world slot answer
  cases hstatus : (world.conn slot).status with
  | invalid =>
      rw [ping_slot_invalid hstatus]
      exact h
  | valid =>
      by_cases hreply : answer.reply = none
      · obtain ⟨ctx, hctx⟩ := h.ctx_of_valid hslot hstatus
        refine h.reset hslot hctx ?_ ?_ hextends
        · rw [ping_slot_lost hstatus hreply]
          simp [World.write]
        · rw [ping_slot_lost hstatus hreply, hctx]
          simp
      · obtain ⟨hconn, hctxs⟩ := ping_slot_alive ⟨hstatus, hreply⟩
        exact h.same hconn (.inl hctxs) hextends

/-- A dial, whatever the slot held before. -/
theorem dial {endpoint : Endpoint} (hendpoint : dynoc.HasEndpoint slot endpoint)
    (outcome : Dial) (status : Status) :
    Safe dynoc (dial world slot endpoint outcome status).2 := by
  have hextends := dial_extends world slot endpoint outcome status
  by_cases hconnect : outcome.connect = .connected
  · obtain ⟨-, hconn, hctxs⟩ := dial_connected world slot endpoint status hconnect
    constructor
    · rw [World.ctx_update hconn, hctxs]
      exact h.owned.acquire slot
    · refine h.served_update hconn hextends (fun own hown hvalid => ⟨_, rfl, fun pass hpass => ?_⟩)
      rw [hown.unique hendpoint] at hpass
      exact dial_authed world slot endpoint status hconnect hpass hvalid
  · exact h.same (dial_failed world slot endpoint status hconnect).2
      (dial_failed_ctxs world slot endpoint status hconnect) hextends

/-- Taking a lock keeps a world safe. -/
theorem lock (slot : Slot) : Safe dynoc (world.lock slot) :=
  h.same rfl (.inl rfl) (List.prefix_append _ _)

/-- Releasing a lock keeps a world safe. -/
theorem unlock (slot : Slot) : Safe dynoc (world.unlock slot) :=
  h.same rfl (.inl rfl) (List.prefix_append _ _)

/-- A turn of a pass. -/
theorem reconnect {endpoint : Endpoint} (hendpoint : dynoc.HasEndpoint slot endpoint)
    (outcome : Reconnect) (status : Status) :
    Safe dynoc (reconnectSlot world slot endpoint outcome status).2 := by
  have hping := (h.lock slot).ping hendpoint.is_slot outcome.ping
  by_cases halive : Alive world slot outcome.ping
  · rw [reconnect_slot_alive halive]
    exact hping.unlock slot
  · rw [reconnect_slot_dial halive]
    exact (hping.dial hendpoint outcome.dial status).unlock slot

end Safe

end Steps

/-! ## The whole run -/

/-- Fresh slots are safe. -/
theorem safe_initial {dynoc : Dynoc} {conn : Slot → RedisConnection}
    (h : ∀ slot, dynoc.IsSlot slot → conn slot = ⟨.invalid, none⟩) :
    Safe dynoc (.initial conn) where
  owned := Ledger.owned_empty fun slot hslot => by
    simp [World.ctx, World.initial, h slot hslot]
  served := fun slot endpoint hendpoint hvalid => by
    simp [World.initial, h slot hendpoint.is_slot] at hvalid

/-- `dynoc_start` leaves the connections safe. -/
theorem LaunchedInRoom.safe {dynoc : Dynoc} {world : World} (h : LaunchedInRoom dynoc world) :
    Safe dynoc world := by
  let K (rest : List (Slot × Endpoint)) (world : World) : Prop :=
    Safe dynoc world ∧ ∀ target ∈ rest, dynoc.HasEndpoint target.1 target.2
  have hdial : ∀ slot endpoint outcome status rest world, K ((slot, endpoint) :: rest) world →
      K rest (dial world slot endpoint outcome status).2 := by
    intro slot endpoint outcome status rest world hK
    obtain ⟨hfirst, hrest⟩ := List.forall_mem_cons.mp hK.2
    exact ⟨hK.1.dial hfirst outcome status, hrest⟩
  exact (h.rule (K := K) hdial fun conn hfresh =>
    ⟨safe_initial hfresh, fun _ => has_endpoint_of_pool h.started_in_room⟩).1

/-- The connections are safe, and the passes have endpoints of the client before them. -/
structure SafeSystem (dynoc : Dynoc) (system : System) : Prop where
  world : Safe dynoc system.world
  passes : ∀ pass ∈ system.passes, ∀ target ∈ pass.targets, dynoc.HasEndpoint target.1 target.2

/-- A client launched within capacity starts safe. -/
theorem LaunchedInRoom.safe_system {dynoc : Dynoc} {world : World}
    (h : LaunchedInRoom dynoc world) : SafeSystem dynoc (.start world) :=
  ⟨h.safe, fun _ hpass => absurd hpass List.not_mem_nil⟩

/-- Every move keeps this. -/
theorem SafeSystem.step {dynoc : Dynoc} (hroom : StartedInRoom dynoc) {system next : System}
    {move : Move} (h : SafeSystem dynoc system) (hstep : systemStep dynoc system move = some next) :
    SafeSystem dynoc next := by
  rcases system_step_cases hstep with ⟨hworld, hpasses, -⟩ |
    ⟨thread, answer, command, cursor, slot, after, -, hselect, hworld, hpasses⟩ |
    ⟨pass, outcome, slot, endpoint, targets, status, -, hpass, hworld, hpasses⟩
  · refine ⟨hworld ▸ h.world, ?_⟩
    rcases hpasses with hpasses | ⟨dcType, dc, hdc, hpasses⟩
    · rw [hpasses]
      exact h.passes
    · rw [hpasses]
      intro running hrunning target htarget
      rcases List.mem_append.mp hrunning with hbefore | hnew
      · exact h.passes running hbefore target htarget
      · rw [List.mem_singleton.mp hnew] at htarget
        exact has_endpoint_of_reconnect hdc htarget
  · refine ⟨?_, hpasses ▸ h.passes⟩
    rw [hworld]
    have hnode := select_connection_is_node hroom.started hselect
    exact h.world.attempt (hroom.is_slot hnode) _ _ _
  · have hmem : ⟨(slot, endpoint) :: targets, status⟩ ∈ system.passes :=
      List.mem_of_getElem? hpass
    obtain ⟨hfirst, hrest⟩ := List.forall_mem_cons.mp (h.passes _ hmem)
    constructor
    · rw [hworld]
      exact h.world.reconnect hfirst outcome status
    · rw [hpasses]
      intro running hrunning target htarget
      rcases List.mem_or_eq_of_mem_set hrunning with hbefore | rfl
      · exact h.passes running hbefore target htarget
      · exact hrest target htarget

/-- Every state that a client launched within capacity reaches is safe. -/
theorem LaunchedInRoom.reachable_safe {dynoc : Dynoc} {world : World}
    (h : LaunchedInRoom dynoc world) {system : System}
    (hreach : Reachable (systemStep dynoc) (.start world) system) : SafeSystem dynoc system :=
  hreach.invariant h.safe_system (fun _ _ _ hsafe hstep => hsafe.step h.started_in_room hstep)

/-- Safe connections meet what `command_meaning` asks of them. -/
theorem Safe.own_contexts {dynoc : Dynoc} {world : World} (h : Safe dynoc world)
    {slots : Slot → Prop} (hslots : ∀ slot, slots slot → dynoc.IsSlot slot) :
    OwnContexts slots world := by
  intro slot hslot hvalid
  obtain ⟨ctx, hctx⟩ := h.ctx_of_valid (hslots slot hslot) hvalid
  refine ⟨ctx, hctx, h.owned.live (hslots slot hslot) hctx, fun other hother hne hheld => ?_⟩
  exact hne (h.owned.sole (hslots other hother) (hslots slot hslot) hheld hctx)

/-- The slot has an open context that no other slot has, and on which `AUTH` was accepted if the
endpoint of the slot has a password. -/
def Usable (dynoc : Dynoc) (world : World) (slot : Slot) : Prop :=
  ∃ ctx, (world.conn slot).ctx = some ctx ∧ world.ctxs.Live ctx ∧
    (∀ other, dynoc.IsSlot other → other ≠ slot → (world.conn other).ctx ≠ some ctx) ∧
    ∀ endpoint pass, dynoc.HasEndpoint slot endpoint → endpoint.pass = some pass →
      Authed world.trace slot ctx pass

/-- In every state that commands and reconnect passes reach from `dynoc_start`, in any order and
whatever they meet, every `VALID` slot is usable, and no context has been freed that was not open
then. -/
theorem valid_slot_usable {dynoc : Dynoc} {world : World} (hlaunch : LaunchedInRoom dynoc world)
    {system : System} (hreach : Reachable (systemStep dynoc) (.start world) system) :
    (∀ slot, dynoc.IsSlot slot → (system.world.conn slot).status = .valid →
      Usable dynoc system.world slot) ∧
    system.world.ctxs.Sound := by
  have hsafe := (hlaunch.reachable_safe hreach).world
  refine ⟨fun slot hslot hvalid => ?_, hsafe.owned.sound⟩
  obtain ⟨ctx, hctx, hlive, hsole⟩ := hsafe.own_contexts (fun _ hslot => hslot) slot hslot hvalid
  refine ⟨ctx, hctx, hlive, hsole, fun endpoint pass hendpoint hpass => ?_⟩
  obtain ⟨held, hheld, hauth⟩ := hsafe.served slot endpoint hendpoint hvalid
  obtain rfl : held = ctx := Option.some.inj (hheld.symm.trans hctx)
  exact hauth pass hpass

/-! ## A slot with a password -/

/-- One rack with one node, which has a password. -/
def lockedScript : List SetupCall :=
  [.datacenterInit true 1 (.ofAscii "local_dc") .localDc,
    .rackInit 1 (.ofAscii "rack1") .localDc, .addNode lockedNode (.ofAscii "rack1") .localDc]

/-- The client of this script, whose first `AUTH` gets the given reply. -/
def lockedClient (reply : ReplyType) : Dynoc × World :=
  (boot (authDials reply) lockedScript).get (by cases reply <;> decide +kernel)

/-- The client with one slot is launched within capacity. -/
theorem locked_client_in_room (reply : ReplyType) :
    LaunchedInRoom (lockedClient reply).1 (lockedClient reply).2 :=
  boot_in_room (Option.some_get _).symm (by decide +kernel)

/-- A command finds no `VALID` connection, and a reconnect pass opens a new one. -/
def unlockMoves : List Move :=
  [.call (.incr (.ofAscii "thread00")), .attempt 0 { reply := none, err := true },
    .reconnect .localDc, .turn 0 (authReconnects .data ⟨.localDc, 0, 0⟩),
    .attempt 0 { reply := none, err := true }]

/-- The state after these moves. -/
def unlocked : System :=
  (runFrom (systemStep (lockedClient .error).1) (.start (lockedClient .error).2)
    unlockMoves).get (by decide +kernel)

/-- After these moves the slot can be used, and nothing was freed twice. -/
theorem unlocked_slot_usable :
    Usable (lockedClient .error).1 unlocked.world ⟨.localDc, 0, 0⟩ ∧
      unlocked.world.ctxs.Sound := by
  have hreach : Reachable (systemStep (lockedClient .error).1) (.start (lockedClient .error).2)
      unlocked := ⟨unlockMoves, (Option.some_get _).symm⟩
  have h := valid_slot_usable (locked_client_in_room .error) hreach
  exact ⟨h.1 _ (by decide +kernel) (by decide +kernel), h.2⟩

end DynocClient
