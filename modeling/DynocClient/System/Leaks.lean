import DynocClient.System.Usable

/-!
# When no context is lost

The slots own their contexts in every state (`Safe`), so a context that was opened and not freed
is lost only if a slot that has it gets another one. One place does that: a pass that connects a
slot which is `INVALID` and still has a context, as a refused `AUTH` leaves it, writes the new
context over the old. `no_leak_iff_dials_empty` says that this is the only way.
-/

namespace DynocClient

open Lib

/-- Every open context is the one of exactly one slot, so there are no more of them than slots. -/
structure NoLeak (dynoc : Dynoc) (system : System) : Prop where
  held : ∀ ctx, system.world.ctxs.Live ctx →
    ∃! slot, dynoc.IsSlot slot ∧ (system.world.conn slot).ctx = some ctx
  count : system.world.ctxs.live.length ≤ dynoc.slots.length

/-- No turn of a pass connects a slot that is `INVALID` and has a context. -/
def DialsEmpty (system : System) : Move → Prop
  | .turn pass outcome =>
      ∀ running ∈ system.passes[pass]?, ∀ target ∈ running.targets.head?,
        (system.world.conn target.1).status = .invalid → outcome.dial.connect = .connected →
          (system.world.conn target.1).ctx = none
  | _ => True

instance (system : System) : (move : Move) → Decidable (DialsEmpty system move)
  | .turn pass outcome =>
      inferInstanceAs (Decidable (∀ running ∈ system.passes[pass]?,
        ∀ target ∈ running.targets.head?,
          (system.world.conn target.1).status = .invalid → outcome.dial.connect = .connected →
            (system.world.conn target.1).ctx = none))
  | .call _ | .attempt _ _ | .reconnect _ => isTrue trivial

/-- No open context is lost. -/
def World.Kept (dynoc : Dynoc) (world : World) : Prop :=
  Ledger.Kept dynoc.IsSlot world.ctx world.ctxs

/-- Where the slots own their contexts, a lost one is all that can be wrong. -/
theorem Safe.no_leak_iff {dynoc : Dynoc} {system : System} (h : Safe dynoc system.world) :
    NoLeak dynoc system ↔ system.world.Kept dynoc := by
  constructor
  · intro hnoLeak ctx hlive
    exact (hnoLeak.held ctx hlive).exists
  · intro hkept
    refine ⟨fun ctx hlive => h.owned.exists_unique hkept hlive, ?_⟩
    refine Ledger.live_length_le dynoc.slots system.world.ctx (fun ctx hlive => ?_)
    obtain ⟨slot, hslot, hctx⟩ := hkept ctx hlive
    exact ⟨slot, mem_slots.mpr hslot, hctx⟩

/-! ## The critical sections -/

section Steps

variable {dynoc : Dynoc} {world other : World} {slot : Slot} (h : Safe dynoc world)
  (hkept : world.Kept dynoc)
include h hkept

/-- A section that keeps the connections loses no context. -/
theorem kept_same (hconn : other.conn = world.conn)
    (hctxs : other.ctxs = world.ctxs ∨
      other.ctxs = world.ctxs.acquire.release world.ctxs.issued) : other.Kept dynoc := by
  have hctx : other.ctx = world.ctx := by
    funext cell
    simp only [World.ctx, hconn]
  unfold World.Kept
  rw [hctx]
  rcases hctxs with hctxs | hctxs
  · rw [hctxs]
    exact hkept
  · rw [hctxs]
    exact h.owned.kept_bounce hkept

omit h in
/-- A slot that is reset loses no context, because it frees its own. -/
theorem kept_reset {ctx : Ctx} (hctx : world.ctx slot = some ctx)
    (hconn : other.conn = Function.update world.conn slot ⟨.invalid, none⟩)
    (hctxs : other.ctxs = world.ctxs.release ctx) : other.Kept dynoc := by
  unfold World.Kept
  rw [World.ctx_update hconn, hctxs]
  exact Ledger.Kept.release hkept hctx

/-- A turn of a command loses nothing. -/
theorem kept_attempt (hslot : dynoc.IsSlot slot) (kind : ReturnKind) (request : Request)
    (answer : Answer) : (attempt kind request world slot answer).2.Kept dynoc := by
  by_cases hrefused : Refused world slot answer
  · obtain ⟨ctx, hctx⟩ := h.ctx_of_valid hslot hrefused.1
    obtain ⟨hconn, hctxs⟩ := attempt_refused kind request hrefused
    exact kept_reset hkept hctx hconn (hctxs ctx hctx)
  · obtain ⟨hconn, hctxs⟩ := attempt_kept kind request hrefused
    exact kept_same h hkept hconn (.inl hctxs)

/-- Nor does the `PING` of a pass. -/
theorem kept_ping (hslot : dynoc.IsSlot slot) (answer : Answer) :
    (pingSlot world slot answer).Kept dynoc := by
  cases hstatus : (world.conn slot).status with
  | invalid =>
      rw [ping_slot_invalid hstatus]
      exact hkept
  | valid =>
      by_cases hreply : answer.reply = none
      · obtain ⟨ctx, hctx⟩ := h.ctx_of_valid hslot hstatus
        rw [ping_slot_lost hstatus hreply, hctx]
        exact kept_reset hkept hctx (by simp [World.write]) rfl
      · obtain ⟨hconn, hctxs⟩ := ping_slot_alive ⟨hstatus, hreply⟩
        exact kept_same h hkept hconn (.inl hctxs)

/-- A dial loses the context the slot had, if the connect succeeds. -/
theorem kept_dial_iff (hslot : dynoc.IsSlot slot) (endpoint : Endpoint) (outcome : Dial)
    (status : Status) :
    (dial world slot endpoint outcome status).2.Kept dynoc ↔
      (outcome.connect = .connected → (world.conn slot).ctx = none) := by
  by_cases hconnect : outcome.connect = .connected
  · obtain ⟨-, hconn, hctxs⟩ := dial_connected world slot endpoint status hconnect
    unfold World.Kept
    rw [World.ctx_update hconn, hctxs, h.owned.kept_acquire_iff hkept hslot]
    simp only [World.ctx, hconnect, true_implies]
  · have hsame := kept_same h hkept (dial_failed world slot endpoint status hconnect).2
      (dial_failed_ctxs world slot endpoint status hconnect)
    simp only [hsame, hconnect, false_implies]

/-- A turn of a pass loses a context exactly if it connects a slot that is `INVALID` and has
one. -/
theorem kept_reconnect_iff {endpoint : Endpoint} (hslot : dynoc.IsSlot slot)
    (outcome : Reconnect) (status : Status) :
    (reconnectSlot world slot endpoint outcome status).2.Kept dynoc ↔
      ((world.conn slot).status = .invalid → outcome.dial.connect = .connected →
        (world.conn slot).ctx = none) := by
  have hlocked := h.lock slot
  have hping := hlocked.ping hslot outcome.ping
  have hpingKept := kept_ping hlocked hkept hslot outcome.ping
  by_cases halive : Alive world slot outcome.ping
  · rw [reconnect_slot_alive halive]
    simp only [halive.1, reduceCtorEq, false_implies, iff_true]
    exact hpingKept
  · rw [reconnect_slot_dial halive]
    refine (kept_dial_iff hping hpingKept hslot endpoint outcome.dial status).trans ?_
    cases hstatus : (world.conn slot).status with
    | invalid =>
        have hinvalid : ((world.lock slot).conn slot).status = .invalid := hstatus
        rw [ping_slot_invalid hinvalid]
        simp
    | valid =>
        -- the slot has given up its context before it is dialled
        have hreply : outcome.ping.reply = none := by
          by_contra hreply
          exact halive ⟨hstatus, hreply⟩
        have hvalid : ((world.lock slot).conn slot).status = .valid := hstatus
        rw [ping_slot_lost hvalid hreply]
        simp

end Steps

/-! ## The whole run -/

/-- `dynoc_start` dials slots without a context, each once, and so loses none. -/
theorem LaunchedInRoom.kept {dynoc : Dynoc} {world : World} (h : LaunchedInRoom dynoc world) :
    world.Kept dynoc := by
  let K (rest : List (Slot × Endpoint)) (world : World) : Prop :=
    Safe dynoc world ∧ world.Kept dynoc ∧ (rest.map Prod.fst).Nodup ∧
      ∀ target ∈ rest, dynoc.HasEndpoint target.1 target.2 ∧ (world.conn target.1).ctx = none
  have hdial : ∀ slot endpoint outcome status rest world, K ((slot, endpoint) :: rest) world →
      K rest (dial world slot endpoint outcome status).2 := by
    intro slot endpoint outcome status rest world hK
    obtain ⟨hsafe, hkept, hnodup, htargets⟩ := hK
    obtain ⟨⟨hendpoint, hnone⟩, hrest⟩ := List.forall_mem_cons.mp htargets
    obtain ⟨hnot, hnodup⟩ := List.nodup_cons.mp hnodup
    refine ⟨hsafe.dial hendpoint outcome status, ?_, hnodup, fun target htarget => ?_⟩
    · exact (kept_dial_iff hsafe hkept hendpoint.is_slot endpoint outcome status).mpr
        fun _ => hnone
    · -- the slots still to be dialled are other ones
      have hmem : target.1 ∈ rest.map Prod.fst := List.mem_map_of_mem htarget
      rw [dial_other world slot endpoint status outcome (ne_of_mem_of_not_mem hmem hnot)]
      exact hrest target htarget
  refine (h.rule (K := K) hdial fun conn hfresh => ⟨safe_initial hfresh, Ledger.kept_empty,
    dynoc.pool_targets_nodup, fun target htarget => ?_⟩).2.1
  have hendpoint := has_endpoint_of_pool h.started_in_room htarget
  refine ⟨hendpoint, ?_⟩
  show (conn target.1).ctx = none
  rw [hfresh target.1 hendpoint.is_slot]

/-- A move loses no context exactly if it connects no slot that is `INVALID` and has one. -/
theorem kept_step_iff {dynoc : Dynoc} (hroom : StartedInRoom dynoc) {system : System}
    (h : SafeSystem dynoc system) (hkept : system.world.Kept dynoc) (move : Move) :
    DialsEmpty system move ↔
      ∀ next, systemStep dynoc system move = some next → next.world.Kept dynoc := by
  constructor
  · intro hempty next hstep
    rcases system_step_cases hstep with ⟨hworld, -, -⟩ |
      ⟨thread, answer, command, cursor, slot, after, -, hselect, hworld, -⟩ |
      ⟨pass, outcome, slot, endpoint, targets, status, rfl, hpass, hworld, -⟩
    · rw [hworld]
      exact hkept
    · rw [hworld]
      have hnode := select_connection_is_node hroom.started hselect
      exact kept_attempt h.world hkept (hroom.is_slot hnode) _ _ _
    · have hslot := (h.passes _ (List.mem_of_getElem? hpass) _ List.mem_cons_self).is_slot
      rw [hworld, kept_reconnect_iff h.world hkept hslot]
      exact hempty _ hpass _ rfl
  · intro hnext
    cases move with
    | call | attempt | reconnect => exact trivial
    | turn pass outcome =>
        intro running hrunning target htarget
        obtain ⟨targets, status⟩ := running
        obtain ⟨rest, rfl⟩ : ∃ rest, targets = target :: rest :=
          List.head?_eq_some_iff.mp htarget
        have hslot := (h.passes _ (List.mem_of_getElem? hrunning) _ List.mem_cons_self).is_slot
        have hpass : system.passes[pass]? = some ⟨target :: rest, status⟩ := hrunning
        exact (kept_reconnect_iff h.world hkept hslot outcome status).mp
          (hnext _ (system_step_turn outcome hpass))

/-- In every run of commands and reconnect passes from `dynoc_start`, in any order and whatever
they meet: every open context is the one of exactly one slot in every state, if and only if no
turn of a pass connects a slot that is `INVALID` and has a context. -/
theorem no_leak_iff_dials_empty {dynoc : Dynoc} {world : World}
    (hlaunch : LaunchedInRoom dynoc world) (moves : List Move) :
    Throughout (systemStep dynoc) (NoLeak dynoc) (.start world) moves ↔
      EachStep (systemStep dynoc) DialsEmpty (.start world) moves := by
  have hroom := hlaunch.started_in_room
  refine throughout_iff_each_step (I := SafeSystem dynoc) (D := fun _ _ => True) ?_ ?_
    hlaunch.safe_system (hlaunch.safe.no_leak_iff.mpr hlaunch.kept)
    (each_step_of_forall (fun _ _ => trivial) _ _)
  · intro system move next hsafe _ _ hstep
    exact hsafe.step hroom hstep
  · intro system move hsafe hnoLeak _
    rw [kept_step_iff hroom hsafe (hsafe.world.no_leak_iff.mp hnoLeak)]
    refine forall_congr' (fun next => forall_congr' (fun hstep => ?_))
    exact (hsafe.step hroom hstep).world.no_leak_iff.symm

/-- A reconnect turn finds `PING` lost and opens a connection, and a command gets an error from
it; the next pass opens another one. -/
def lostMoves : List Move :=
  [.reconnect .localDc, .turn 0 (authReconnects .data ⟨.localDc, 0, 0⟩),
    .call (.incr (.ofAscii "thread00")), .attempt 0 { reply := some .error, err := false },
    .reconnect .localDc, .turn 1 (authReconnects .data ⟨.localDc, 0, 0⟩)]

/-- Where the password is accepted no context is lost. -/
theorem accepted_slot_keeps_context :
    EachStep (systemStep (lockedClient .data).1) DialsEmpty (.start (lockedClient .data).2)
        lostMoves ∧
      Throughout (systemStep (lockedClient .data).1) (NoLeak (lockedClient .data).1)
        (.start (lockedClient .data).2) lostMoves := by
  have hempty : EachStep (systemStep (lockedClient .data).1) DialsEmpty
      (.start (lockedClient .data).2) lostMoves := by decide +kernel
  exact ⟨hempty, (no_leak_iff_dials_empty (locked_client_in_room .data) lostMoves).mpr hempty⟩

/-- After a refused `AUTH` the slot is `INVALID` with a context, and the first pass writes another
one over it. -/
theorem refused_context_lost :
    LaunchedInRoom (lockedClient .error).1 (lockedClient .error).2 ∧
      ¬ Throughout (systemStep (lockedClient .error).1) (NoLeak (lockedClient .error).1)
        (.start (lockedClient .error).2) unlockMoves := by
  refine ⟨locked_client_in_room .error, fun h => ?_⟩
  have hrun : runFrom (systemStep (lockedClient .error).1) (.start (lockedClient .error).2)
      unlockMoves = some unlocked := (Option.some_get _).symm
  have hcounts : unlocked.world.ctxs.live.length = 2 ∧ (lockedClient .error).1.slots.length = 1 :=
    by decide +kernel
  have hcount := (h.last hrun).count
  omega

end DynocClient
