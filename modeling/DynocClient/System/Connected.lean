import DynocClient.Connection.Targets
import DynocClient.System.Basic
import DynocClient.System.Start

/-!
# What a slot is connected to

The trace says which contexts were opened for a slot, and to which endpoint. `ConnectedTo` says
that what the slot holds is one of these: the one that was opened last, unless that has been freed.
If `dynoc_start` and the passes dial the slot to one endpoint only, the slot is connected to it in
every state of the running client (`ConnectedTo.run`).
-/

namespace DynocClient

open Lib

/-! ## The contexts opened for a slot -/

/-- The context that the call opens, with the endpoint it is connected to. -/
def ExternalCall.opens : ExternalCall → Option (Endpoint × Ctx)
  | .connect endpoint (some ctx) => some (endpoint, ctx)
  | _ => none

namespace World

/-- The contexts opened for a slot so far, each with its endpoint. -/
def opened (world : World) (slot : Slot) : List (Endpoint × Ctx) :=
  world.trace.filterMap fun event => if event.slot = slot then event.call.opens else none

section Opened

variable (world : World) (slot other : Slot)

/-- A call opens a context for its own slot. -/
theorem opened_emit (call : ExternalCall) :
    (world.emit slot call).opened other =
      world.opened other ++ (if slot = other then call.opens else none).toList := by
  unfold opened
  rw [emit_trace, List.filterMap_append]
  cases h : (if slot = other then call.opens else none) <;> simp [h]

/-- Every call but a connect leaves them alone. -/
theorem opened_emit_none {call : ExternalCall} (h : call.opens = none) :
    (world.emit slot call).opened other = world.opened other := by
  simp [opened_emit, h]

/-- Taking a lock opens no context. -/
@[simp] theorem opened_lock : (world.lock slot).opened other = world.opened other :=
  world.opened_emit_none slot other rfl

/-- Releasing a lock opens no context. -/
@[simp] theorem opened_unlock : (world.unlock slot).opened other = world.opened other :=
  world.opened_emit_none slot other rfl

/-- A write opens no context. -/
@[simp] theorem opened_write (redisConn : RedisConnection) :
    (world.write slot redisConn).opened other = world.opened other := rfl

/-- A command opens no context. -/
@[simp] theorem opened_redis_command (ctx : Option Ctx) (request : Request) (answer : Answer) :
    (world.redisCommand slot ctx request answer).2.opened other = world.opened other := by
  have hemit := world.opened_emit_none slot other
    (rfl : (ExternalCall.command ctx request answer).opens = none)
  unfold redisCommand
  cases answer.reply <;> exact hemit

/-- `freeReplyObject` opens no context. -/
@[simp] theorem opened_free_reply (reply : Option Reply) :
    (world.freeReply slot reply).opened other = world.opened other := by
  cases reply with
  | none => rfl
  | some reply => exact world.opened_emit_none slot other rfl

/-- `redisFree` opens no context. -/
@[simp] theorem opened_redis_free (ctx : Option Ctx) :
    (world.redisFree slot ctx).opened other = world.opened other := by
  cases ctx with
  | none => rfl
  | some ctx => exact world.opened_emit_none slot other rfl

end Opened

/-- The slot is connected to this endpoint and to no other. -/
structure ConnectedTo (world : World) (slot : Slot) (endpoint : Endpoint) : Prop where
  /-- Whatever context the slot has was opened for it, to the endpoint. -/
  opened : ∀ ctx, (world.conn slot).ctx = some ctx → (endpoint, ctx) ∈ world.opened slot
  /-- A `VALID` slot has one. -/
  valid : (world.conn slot).status = .valid → (world.conn slot).ctx ≠ none
  /-- The slot has the context that was opened for it last, unless that has been freed. -/
  last : ∀ other ctx, (world.opened slot).getLast? = some (other, ctx) →
    ctx ∉ world.ctxs.released → (world.conn slot).ctx = some ctx

end World

/-! ## What the critical sections do to it -/

section Sections

variable {world after : World} {slot found : Slot} {endpoint : Endpoint}

namespace World.ConnectedTo

/-- A slot that was never used is connected to any endpoint. -/
theorem fresh (hslot : world.conn slot = ⟨.invalid, none⟩) (hopened : world.opened slot = []) :
    world.ConnectedTo slot endpoint := by
  constructor
  · simp [hslot]
  · simp [hslot]
  · simp [hopened]

variable (h : world.ConnectedTo slot endpoint)
include h

/-- The slot stays as it is, and no context is opened for it. -/
theorem kept (hconn : after.conn slot = world.conn slot)
    (hopened : after.opened slot = world.opened slot)
    (hreleased : world.ctxs.released ⊆ after.ctxs.released) : after.ConnectedTo slot endpoint where
  opened := by
    rw [hconn, hopened]
    exact h.opened
  valid := by
    rw [hconn]
    exact h.valid
  last := by
    intro other ctx hlast hopen
    rw [hopened] at hlast
    rw [hconn]
    exact h.last other ctx hlast fun hfreed => hopen (hreleased hfreed)

/-- The slot gives up its context. -/
theorem reset (hconn : after.conn slot = ⟨.invalid, none⟩)
    (hopened : after.opened slot = world.opened slot)
    (hreleased : world.ctxs.released ⊆ after.ctxs.released)
    (hfreed : ∀ ctx, (world.conn slot).ctx = some ctx → ctx ∈ after.ctxs.released) :
    after.ConnectedTo slot endpoint where
  opened := by simp [hconn]
  valid := by simp [hconn]
  last := by
    intro other ctx hlast hopen
    rw [hopened] at hlast
    -- it was in the slot and has been freed with it
    have hheld := h.last other ctx hlast fun hbefore => hopen (hreleased hbefore)
    exact absurd (hfreed ctx hheld) hopen

/-- A context is opened for the slot and freed again. -/
theorem bounced {other : Endpoint} {ctx : Ctx} (hconn : after.conn slot = world.conn slot)
    (hopened : after.opened slot = world.opened slot ++ [(other, ctx)])
    (hfreed : ctx ∈ after.ctxs.released) : after.ConnectedTo slot endpoint where
  opened := by
    rw [hconn, hopened]
    exact fun held hheld => List.mem_append_left _ (h.opened held hheld)
  valid := by
    rw [hconn]
    exact h.valid
  last := by
    intro _ held hlast hopen
    rw [hopened, List.getLast?_concat] at hlast
    rw [← (Prod.mk.inj (Option.some.inj hlast)).2] at hopen
    exact absurd hfreed hopen

omit h in
/-- A context is opened for the slot and stored in it. -/
theorem stored {ctx : Ctx} (hctx : (after.conn slot).ctx = some ctx)
    (hopened : after.opened slot = world.opened slot ++ [(endpoint, ctx)]) :
    after.ConnectedTo slot endpoint where
  opened := by
    intro held hheld
    rw [hopened, ← Option.some.inj (hctx.symm.trans hheld)]
    exact List.mem_concat_self
  valid := by
    rw [hctx]
    exact fun _ => Option.some_ne_none ctx
  last := by
    intro other held hlast _
    rw [hopened, List.getLast?_concat] at hlast
    rw [hctx, (Prod.mk.inj (Option.some.inj hlast)).2]

end World.ConnectedTo

section Attempt

variable (kind : ReturnKind) (request : Request) (world : World) (slot : Slot) (answer : Answer)

/-- A command opens no context. -/
theorem attempt_opened (other : Slot) :
    (attempt kind request world slot answer).2.opened other = world.opened other := by
  cases hstatus : (world.conn slot).status with
  | invalid =>
      rw [attempt_invalid hstatus]
      simp
  | valid =>
      simp only [attempt, World.lock_conn, hstatus]
      split
      · cases kind <;> simp
      · simp [resetRedisConnection]

/-- It frees the context of the slot it resets, and no other. -/
theorem attempt_ctxs :
    (attempt kind request world slot answer).2.ctxs = world.ctxs ∨
      ∃ ctx, (world.conn slot).ctx = some ctx ∧
        (attempt kind request world slot answer).2.ctxs = world.ctxs.release ctx := by
  by_cases hrefused : Refused world slot answer
  · cases hctx : (world.conn slot).ctx with
    | none =>
        obtain ⟨hstatus, haccepted⟩ := hrefused
        refine .inl ?_
        simp [attempt, hstatus, haccepted, resetRedisConnection, hctx, World.redisFree]
    | some ctx => exact .inr ⟨ctx, rfl, (attempt_refused kind request hrefused).2 ctx hctx⟩
  · exact .inl (attempt_kept kind request hrefused).2

/-- A command releases contexts and takes none back. -/
theorem attempt_released :
    world.ctxs.released ⊆ (attempt kind request world slot answer).2.ctxs.released := by
  rcases attempt_ctxs kind request world slot answer with hsame | ⟨ctx, -, hrelease⟩
  · rw [hsame]
    exact List.Subset.refl _
  · rw [hrelease]
    exact List.subset_cons_self _ _

end Attempt

/-- A turn of a command, at this slot or another one. -/
theorem World.ConnectedTo.attempt (h : world.ConnectedTo slot endpoint) (kind : ReturnKind)
    (request : Request) (found : Slot) (answer : Answer) :
    (attempt kind request world found answer).2.ConnectedTo slot endpoint := by
  have hopened := attempt_opened kind request world found answer slot
  have hreleased := attempt_released kind request world found answer
  by_cases hrefused : Refused world found answer
  · by_cases hfound : slot = found
    · subst hfound
      obtain ⟨hconn, hfreed⟩ := attempt_refused kind request hrefused
      refine h.reset (by rw [hconn, Function.update_self]) hopened hreleased fun ctx hctx => ?_
      rw [hfreed ctx hctx]
      exact List.mem_cons_self
    · exact h.kept (attempt_other kind request hfound) hopened hreleased
  · exact h.kept (by rw [(attempt_kept kind request hrefused).1]) hopened hreleased

/-- A `PING` opens no context. -/
theorem ping_slot_opened (world : World) (slot : Slot) (answer : Answer) (other : Slot) :
    (pingSlot world slot answer).opened other = world.opened other := by
  unfold pingSlot
  cases (world.conn slot).status with
  | invalid => rfl
  | valid =>
      cases hreply : (world.redisCommand slot (world.conn slot).ctx .ping answer).1 <;>
        simp [hreply]

/-- It frees the context of a slot that does not answer. -/
theorem World.ConnectedTo.ping (h : world.ConnectedTo slot endpoint) (found : Slot)
    (answer : Answer) : (pingSlot world found answer).ConnectedTo slot endpoint := by
  have hopened := ping_slot_opened world found answer slot
  cases hstatus : (world.conn found).status with
  | invalid =>
      rw [ping_slot_invalid hstatus]
      exact h
  | valid =>
      cases hreply : answer.reply with
      | some type =>
          have halive : Alive world found answer := ⟨hstatus, by simp [hreply]⟩
          obtain ⟨hconn, hctxs⟩ := ping_slot_alive halive
          exact h.kept (by rw [hconn]) hopened (by rw [hctxs]; exact List.Subset.refl _)
      | none =>
          rw [ping_slot_lost hstatus hreply] at hopened ⊢
          have hreleased : world.ctxs.released ⊆ (((world.emit found
              (.command (world.conn found).ctx .ping answer)).redisFree found
                (world.conn found).ctx).write found ⟨.invalid, none⟩).ctxs.released := by
            cases (world.conn found).ctx <;> simp [World.redisFree]
          by_cases hfound : slot = found
          · subst hfound
            exact h.reset (World.write_same ..) hopened hreleased fun ctx hctx => by simp [hctx]
          · exact h.kept (by rw [World.write_other _ _ _ _ hfound]; simp) hopened hreleased

/-- A dial opens a context for its slot, unless the connect returns `NULL`. -/
theorem dial_opened (world : World) (slot : Slot) (endpoint : Endpoint) (outcome : Dial)
    (status : Status) (other : Slot) :
    (dial world slot endpoint outcome status).2.opened other = world.opened other ++
      if slot = other ∧ outcome.connect ≠ .null then [(endpoint, world.ctxs.issued)] else [] := by
  have hconnect : (world.redisConnect slot endpoint outcome.connect).2.opened other =
      world.opened other ++
        if slot = other ∧ outcome.connect ≠ .null then [(endpoint, world.ctxs.issued)] else [] := by
    cases outcome.connect with
    | null => simp [World.redisConnect, World.opened_emit, ExternalCall.opens]
    | err | connected =>
        have hemit := World.opened_emit { world with ctxs := world.ctxs.acquire } slot other
          (.connect endpoint (some world.ctxs.issued))
        refine hemit.trans ?_
        by_cases hother : slot = other <;> simp [hother, ExternalCall.opens] <;> rfl
  rw [← hconnect]
  unfold dial
  cases outcome.connect with
  | null | err => simp
  | connected =>
      cases endpoint.pass with
      | none => simp
      | some pass => cases outcome.auth.accepted <;> simp

/-- The dial of this slot goes to its endpoint, and those of others may go anywhere. -/
theorem World.ConnectedTo.dial (h : world.ConnectedTo slot endpoint) {target : Endpoint}
    (htarget : slot = found → target = endpoint) (outcome : Dial) (status : Status) :
    (dial world found target outcome status).2.ConnectedTo slot endpoint := by
  have hopened := dial_opened world found target outcome status slot
  by_cases hconnect : outcome.connect = .connected
  · obtain ⟨-, hconn, hctxs⟩ := dial_connected world found target status hconnect
    by_cases hfound : slot = found
    · subst hfound
      obtain rfl := htarget rfl
      rw [if_pos ⟨rfl, by simp [hconnect]⟩] at hopened
      exact .stored (by rw [hconn, Function.update_self]) hopened
    · rw [if_neg (fun hboth => hfound hboth.1.symm), List.append_nil] at hopened
      refine h.kept (dial_other world found target status outcome hfound) hopened ?_
      rw [hctxs]
      exact List.Subset.refl _
  · obtain ⟨-, hconn⟩ := dial_failed world found target status hconnect
    by_cases hnew : found = slot ∧ outcome.connect ≠ .null
    · -- a context with `err` set is freed at once, and the slot keeps what it has
      rw [if_pos hnew] at hopened
      obtain ⟨rfl, hnull⟩ := hnew
      have herr : outcome.connect = .err := by
        cases hcase : outcome.connect <;> simp_all
      refine h.bounced (by rw [hconn]) hopened ?_
      simp [DynocClient.dial, herr, World.redisConnect]
    · rw [if_neg hnew, List.append_nil] at hopened
      refine h.kept (by rw [hconn]) hopened ?_
      rcases dial_failed_ctxs world found target status hconnect with hsame | hbounce
      · rw [hsame]
        exact List.Subset.refl _
      · rw [hbounce]
        exact List.subset_cons_self _ _

/-- Taking a lock changes nothing of what the slot holds. -/
theorem World.ConnectedTo.lock (h : world.ConnectedTo slot endpoint) (found : Slot) :
    (world.lock found).ConnectedTo slot endpoint :=
  h.kept rfl (world.opened_lock found slot) (List.Subset.refl _)

/-- Releasing a lock changes nothing of what the slot holds. -/
theorem World.ConnectedTo.unlock (h : world.ConnectedTo slot endpoint) (found : Slot) :
    (world.unlock found).ConnectedTo slot endpoint :=
  h.kept rfl (world.opened_unlock found slot) (List.Subset.refl _)

/-- A turn of a pass. -/
theorem World.ConnectedTo.reconnect (h : world.ConnectedTo slot endpoint) {target : Endpoint}
    (htarget : slot = found → target = endpoint) (outcome : Reconnect) (status : Status) :
    (reconnectSlot world found target outcome status).2.ConnectedTo slot endpoint := by
  have hping := (h.lock found).ping found outcome.ping
  by_cases halive : Alive world found outcome.ping
  · rw [reconnect_slot_alive halive]
    exact hping.unlock found
  · rw [reconnect_slot_dial halive]
    exact (hping.dial htarget outcome.dial status).unlock found

end Sections

/-! ## The whole run -/

section Run

variable {dynoc : Dynoc} {world : World} {slot : Slot} {endpoint : Endpoint}

/-- The slot is connected to the endpoint, and the passes have no other one for it. -/
structure ConnectedSystem (slot : Slot) (endpoint : Endpoint) (system : System) : Prop where
  world : system.world.ConnectedTo slot endpoint
  passes : ∀ pass ∈ system.passes, ∀ target ∈ pass.targets, target.1 = slot → target.2 = endpoint

/-- Every move keeps this, if the passes dial the slot to the endpoint. -/
theorem ConnectedSystem.step
    (hturn : ∀ dc, dynoc.dc slot.dcType = some dc →
      ∀ other, (slot, other) ∈ dc.reconnectTargets slot.dcType → other = endpoint)
    {system next : System} {move : Move} (h : ConnectedSystem slot endpoint system)
    (hstep : systemStep dynoc system move = some next) : ConnectedSystem slot endpoint next := by
  rcases system_step_cases hstep with ⟨hworld, hpasses, -⟩ |
    ⟨thread, answer, command, cursor, found, after, -, -, hworld, hpasses⟩ |
    ⟨pass, outcome, found, target, targets, status, -, hpass, hworld, hpasses⟩
  · refine ⟨hworld ▸ h.world, ?_⟩
    rcases hpasses with hpasses | ⟨dcType, dc, hdc, hpasses⟩
    · rw [hpasses]
      exact h.passes
    · rw [hpasses]
      intro running hrunning target htarget hslot
      rcases List.mem_append.mp hrunning with hbefore | hnew
      · exact h.passes running hbefore target htarget hslot
      · obtain ⟨found, other⟩ := target
        obtain rfl : found = slot := hslot
        rw [List.mem_singleton.mp hnew] at htarget
        obtain rfl : found.dcType = dcType := (mem_reconnect_targets.mp htarget).1
        exact hturn dc hdc other htarget
  · exact ⟨hworld ▸ h.world.attempt _ _ _ _, hpasses ▸ h.passes⟩
  · obtain ⟨hfirst, hrest⟩ := List.forall_mem_cons.mp
      (h.passes _ (List.mem_of_getElem? hpass))
    refine ⟨hworld ▸ h.world.reconnect (fun hfound => hfirst hfound.symm) outcome status, ?_⟩
    rw [hpasses]
    intro running hrunning next htarget
    rcases List.mem_or_eq_of_mem_set hrunning with hbefore | rfl
    · exact h.passes running hbefore next htarget
    · exact hrest next htarget

/-- A slot that is connected to its endpoint at the start and redialled to no other one is connected
to it in every state of the running client. -/
theorem World.ConnectedTo.run (h : world.ConnectedTo slot endpoint)
    (hturn : ∀ dc, dynoc.dc slot.dcType = some dc →
      ∀ other, (slot, other) ∈ dc.reconnectTargets slot.dcType → other = endpoint)
    {system : System} (hreach : Reachable (systemStep dynoc) (.start world) system) :
    system.world.ConnectedTo slot endpoint := by
  have hstart : ConnectedSystem slot endpoint (.start world) :=
    ⟨h, fun _ hpass => absurd hpass List.not_mem_nil⟩
  exact (hreach.invariant hstart fun _ _ _ hbefore hstep => hbefore.step hturn hstep).world

/-- `dynoc_start` connects a fresh slot to the endpoint, if it dials it to no other one. -/
theorem dynoc_start_connected {client : Client} (hfresh : client.FreshSlots)
    (hashAlgos : HashType → HashFunc) (qsort : Qsort Continuum) (dials : Slot → Dial)
    (hslot : (dynocStart hashAlgos qsort dials client).1.IsSlot slot)
    (htarget : ∀ other, (slot, other) ∈
      (dynocStart hashAlgos qsort dials client).1.poolTargets slot.dcType → other = endpoint) :
    (dynocStart hashAlgos qsort dials client).2.ConnectedTo slot endpoint := by
  let K (rest : List (Slot × Endpoint)) (world : World) : Prop :=
    world.ConnectedTo slot endpoint ∧ ∀ target ∈ rest, target.1 = slot → target.2 = endpoint
  have hdial : ∀ found target status rest world, K ((found, target) :: rest) world →
      K rest (dial world found target (dials found) status).2 := by
    intro found target status rest world hK
    obtain ⟨hfirst, hrest⟩ := List.forall_mem_cons.mp hK.2
    exact ⟨hK.1.dial (fun hfound => hfirst hfound.symm) (dials found) status, hrest⟩
  refine (dynoc_start_rule (K := K) hdial hashAlgos qsort client ⟨.fresh ?_ rfl, ?_⟩).1
  · exact hfresh slot ((dynoc_start_is_slot hashAlgos qsort dials client slot).mp hslot)
  · rintro ⟨found, target⟩ hmem rfl
    refine htarget target ?_
    rcases List.mem_append.mp hmem with hlocal | hremote
    · rwa [(mem_pool_targets.mp hlocal).1]
    · rwa [(mem_pool_targets.mp hremote).1]

end Run

end DynocClient
