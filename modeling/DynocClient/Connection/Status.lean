import DynocClient.Connection.Targets
import DynocClient.Setup.Calls

/-!
# The status a pass leaves in each slot

`redis_connection_pool_init` and a pass of `reconnect_datacenter` take turns at the slots. A
slot's own turn says whether it should be `VALID` afterwards. But the loop's `status` is
assigned only by an `AUTH`, so a slot without a password that gets connected takes what the
latest `AUTH` of the pass left in it. `status_own_iff` says when that makes no difference.
-/

namespace DynocClient

open Lib

/-! ## Turns -/

/-- What the turn at a slot meets: whether the slot is alive, and else what dialling its endpoint
meets. -/
structure Turn where
  alive : Bool
  endpoint : Endpoint
  dial : Dial

namespace Turn

/-- Whether the turn sends an `AUTH`, and if so whether it is accepted. -/
def auth (turn : Turn) : Option Bool :=
  if turn.alive || turn.dial.connect ≠ .connected then none
  else turn.endpoint.pass.map fun _ => turn.dial.auth.accepted

/-- The turn connects a slot without a password. -/
def Unchecked (turn : Turn) : Prop :=
  turn.alive = false ∧ turn.dial.connect = .connected ∧ turn.endpoint.pass = none

/-- The slot was alive, or its own connect succeeded and so did its own `AUTH`, if it has a
password. -/
def Own (turn : Turn) : Prop :=
  turn.alive = true ∨
    turn.dial.connect = .connected ∧
      (turn.endpoint.pass ≠ none → turn.dial.auth.accepted = true)

instance (turn : Turn) : Decidable turn.Own :=
  inferInstanceAs (Decidable (_ ∨ _ ∧ (_ → _)))

/-- The loop's `status` after the turn. -/
def carry (turn : Turn) (status : Status) : Status :=
  if turn.alive || turn.dial.connect ≠ .connected then status
  else dialStatus turn.endpoint turn.dial status

/-- The slot's status after the turn. -/
def status (turn : Turn) (status : Status) : Status :=
  if turn.alive then .valid
  else if turn.dial.connect = .connected then dialStatus turn.endpoint turn.dial status
  else .invalid

/-- The `AUTH` of a turn is all that changes the loop's `status`. -/
theorem carry_eq (turn : Turn) (status : Status) :
    turn.carry status =
      (turn.auth.map fun accepted => if accepted then Status.valid else .invalid).getD status := by
  unfold carry auth
  split
  · rfl
  · cases hpass : turn.endpoint.pass <;> simp [dialStatus, hpass]

/-- The status is the slot's own, unless the turn takes over an `INVALID` that an earlier turn
left in the loop's `status`. -/
theorem status_iff (turn : Turn) (status : Status) :
    (turn.status status = .valid ↔ turn.Own) ↔ (turn.Unchecked → status = .valid) := by
  cases halive : turn.alive with
  | true => simp [Turn.status, Own, Unchecked, halive]
  | false =>
      cases hconnect : turn.dial.connect with
      | null | err => simp [Turn.status, Own, Unchecked, halive, hconnect]
      | connected =>
          cases hpass : turn.endpoint.pass with
          | none => simp [Turn.status, Own, Unchecked, halive, hconnect, hpass, dialStatus]
          | some pass =>
              cases haccepted : turn.dial.auth.accepted <;>
                simp [Turn.status, Own, Unchecked, halive, hconnect, hpass, dialStatus,
                  haccepted]

end Turn

/-- No turn that connects a slot without a password follows turns whose latest `AUTH` was
refused. -/
def NoneRefusedBefore (turns : List Turn) : Prop :=
  ∀ before turn after, turns = before ++ turn :: after → turn.Unchecked →
    (before.filterMap Turn.auth).getLast? ≠ some false

/-- The loop's `status` is `INVALID` exactly if the latest `AUTH` was refused. -/
theorem carry_turns (turns : List Turn) :
    turns.foldl (fun status turn => turn.carry status) .valid = .valid ↔
      (turns.filterMap Turn.auth).getLast? ≠ some false := by
  have hlatest := foldl_latest
    (fun turn : Turn =>
      turn.auth.map fun accepted => if accepted then Status.valid else .invalid) turns .valid
  simp only [← Turn.carry_eq] at hlatest
  rw [hlatest, ← List.map_filterMap, List.getLast?_map]
  cases (turns.filterMap Turn.auth).getLast? with
  | none => simp
  | some accepted => cases accepted <;> simp

/-! ## The loops as sweeps over the statuses -/

/-- The statuses of the slots. -/
def World.status (world : World) (slot : Slot) : Status := (world.conn slot).status

/-- The turn of `redis_connection_pool_init` at a slot, which is fresh. -/
def poolTurn (dials : Slot → Dial) (target : Slot × Endpoint) : Turn :=
  { alive := false, endpoint := target.2, dial := dials target.1 }

/-- The turn of `reconnect_datacenter` at a slot that has this status. -/
def passTurn (outcomes : Slot → Reconnect) (target : Slot × Endpoint) (status : Status) : Turn :=
  { alive := status = .valid ∧ (outcomes target.1).ping.reply ≠ none
    endpoint := target.2
    dial := (outcomes target.1).dial }

/-- `dial` as a visit to a status. -/
def poolVisit (dials : Slot → Dial) : Visit (Slot × Endpoint) Slot Status Status where
  cell := Prod.fst
  carry target _ status := (poolTurn dials target).carry status
  value target before status :=
    if (dials target.1).connect = .connected then dialStatus target.2 (dials target.1) status
    else before

/-- `reconnectSlot` as a visit to a status. -/
def passVisit (outcomes : Slot → Reconnect) : Visit (Slot × Endpoint) Slot Status Status where
  cell := Prod.fst
  carry target before status := (passTurn outcomes target before).carry status
  value target before status := (passTurn outcomes target before).status status

/-- A dial is a visit of the pool loop. -/
theorem dial_view (dials : Slot → Dial) (target : Slot × Endpoint) (status : Status)
    (world : World) :
    (dial world target.1 target.2 (dials target.1) status).1 =
        (poolVisit dials).carry target (world.status target.1) status ∧
      (dial world target.1 target.2 (dials target.1) status).2.status =
        Function.update world.status target.1
          ((poolVisit dials).value target (world.status target.1) status) := by
  by_cases hconnect : (dials target.1).connect = .connected
  · obtain ⟨hstatus, hconn, -⟩ := dial_connected world target.1 target.2 status hconnect
    refine ⟨by simp [hstatus, poolVisit, Turn.carry, poolTurn, hconnect], ?_⟩
    funext slot
    by_cases hslot : slot = target.1
    · subst hslot
      simp [World.status, hconn, poolVisit, hconnect]
    · simp [World.status, hconn, Function.update_of_ne hslot]
  · obtain ⟨hstatus, hconn⟩ := dial_failed world target.1 target.2 status hconnect
    refine ⟨by simp [hstatus, poolVisit, Turn.carry, poolTurn, hconnect], ?_⟩
    simp only [poolVisit, if_neg hconnect, Function.update_eq_self]
    funext slot
    simp only [World.status, hconn]

/-- A turn finds the connection alive exactly if the PING does. -/
theorem pass_turn_alive {outcomes : Slot → Reconnect} {target : Slot × Endpoint} {world : World} :
    (passTurn outcomes target (world.status target.1)).alive = true ↔
      Alive world target.1 (outcomes target.1).ping :=
  decide_eq_true_iff

/-- The turn of a slot that is not alive is the turn of a fresh one. -/
theorem pass_turn_dead {outcomes : Slot → Reconnect} {target : Slot × Endpoint} {world : World}
    (h : ¬ Alive world target.1 (outcomes target.1).ping) :
    passTurn outcomes target (world.status target.1) =
      poolTurn (fun slot => (outcomes slot).dial) target := by
  rw [← pass_turn_alive, Bool.not_eq_true] at h
  simp only [passTurn] at h
  simp only [passTurn, poolTurn, h]

/-- A turn of a pass is a visit of its loop. -/
theorem reconnect_slot_view (outcomes : Slot → Reconnect) (target : Slot × Endpoint)
    (status : Status) (world : World) :
    (reconnectSlot world target.1 target.2 (outcomes target.1) status).1 =
        (passVisit outcomes).carry target (world.status target.1) status ∧
      (reconnectSlot world target.1 target.2 (outcomes target.1) status).2.status =
        Function.update world.status target.1
          ((passVisit outcomes).value target (world.status target.1) status) := by
  obtain ⟨hself, hother⟩ := ping_slot_conn (world.lock target.1) target.1
    (outcomes target.1).ping
  by_cases halive : Alive world target.1 (outcomes target.1).ping
  · have hturn := pass_turn_alive.mpr halive
    have hvalid : world.status target.1 = .valid := halive.1
    rw [reconnect_slot_alive halive]
    refine ⟨by simp [passVisit, Turn.carry, hturn], ?_⟩
    simp only [passVisit, Turn.status, hturn, if_true, ← hvalid, Function.update_eq_self]
    funext slot
    have hlocked : Alive (world.lock target.1) target.1 (outcomes target.1).ping := halive
    have hconn := (ping_slot_alive hlocked).1
    simp [World.status, hconn]
  · obtain ⟨hcarry, hview⟩ := dial_view (fun slot => (outcomes slot).dial) target status
      (pingSlot (world.lock target.1) target.1 (outcomes target.1).ping)
    simp only [reconnect_slot_dial halive, passVisit, pass_turn_dead halive]
    refine ⟨hcarry, ?_⟩
    show (dial _ _ _ _ _).2.status = _
    rw [hview]
    funext slot
    by_cases hslot : slot = target.1
    · subst hslot
      have hinvalid : (pingSlot (world.lock target.1) target.1
          (outcomes target.1).ping).status target.1 = .invalid := by
        cases hstatus : (pingSlot (world.lock target.1) target.1
            (outcomes target.1).ping).status target.1 with
        | invalid => rfl
        | valid => exact absurd (hself.mp hstatus) halive
      rw [Function.update_self, Function.update_self, hinvalid]
      rfl
    · rw [Function.update_of_ne hslot, Function.update_of_ne hslot]
      simp [World.status, hother slot hslot]

/-! ## When each slot has its own status -/

section Turns

variable (visit : Visit (Slot × Endpoint) Slot Status Status) (memory : Slot → Status)
  (turn : Slot × Endpoint → Turn) {targets : List (Slot × Endpoint)}

/-- A target's status after the loop is what its turn makes of the `status` that the turns before
it carry on. -/
theorem sweep_turns (hnodup : (targets.map visit.cell).Nodup)
    (hcarry : ∀ target ∈ targets, ∀ status,
      visit.carry target (memory (visit.cell target)) status = (turn target).carry status)
    (hvalue : ∀ target ∈ targets, ∀ status,
      visit.value target (memory (visit.cell target)) status = (turn target).status status)
    {before after : List (Slot × Endpoint)} {target : Slot × Endpoint}
    (h : targets = before ++ target :: after) :
    (sweep visit targets .valid memory).2 (visit.cell target) =
      (turn target).status
        ((before.map turn).foldl (fun status turn => turn.carry status) .valid) := by
  subst h
  rw [sweep_at visit hnodup, hvalue target (by simp), carried, List.foldl_map]
  congr 1
  refine List.foldl_ext _ _ _ (fun status other hother => ?_)
  exact hcarry other (List.mem_append_left _ hother) status

/-- All targets have their own status exactly if none takes over a refused `AUTH`. -/
theorem sweep_own_iff (hnodup : (targets.map visit.cell).Nodup)
    (hcarry : ∀ target ∈ targets, ∀ status,
      visit.carry target (memory (visit.cell target)) status = (turn target).carry status)
    (hvalue : ∀ target ∈ targets, ∀ status,
      visit.value target (memory (visit.cell target)) status = (turn target).status status) :
    (∀ target ∈ targets,
      ((sweep visit targets .valid memory).2 (visit.cell target) = .valid ↔
        (turn target).Own)) ↔
      NoneRefusedBefore (targets.map turn) := by
  constructor
  · intro h before t after hsplit hunchecked
    obtain ⟨first, rest, htargets, rfl, hrest⟩ := List.map_eq_append_iff.mp hsplit
    obtain ⟨target, second, rfl, rfl, rfl⟩ := List.map_eq_cons_iff.mp hrest
    have hown := h target (by simp [htargets])
    rw [sweep_turns visit memory turn hnodup hcarry hvalue htargets, Turn.status_iff] at hown
    exact (carry_turns _).mp (hown hunchecked)
  · intro h target htarget
    obtain ⟨before, after, hsplit⟩ := List.append_of_mem htarget
    rw [sweep_turns visit memory turn hnodup hcarry hvalue hsplit, Turn.status_iff, carry_turns]
    exact h (before.map turn) (turn target) (after.map turn) (by simp [hsplit])

end Turns

/-- Every slot of a new pool has the status of its own outcome exactly if no slot without a
password follows a refused one. -/
theorem pool_status_own_iff (qsort : Qsort Continuum) (dials : Slot → Dial) (dcType : DcType)
    (i : Nat) (rack : Rack) (world : World)
    (hfresh : ∀ j, world.conn ⟨dcType, i, j⟩ = ⟨.invalid, none⟩) :
    (∀ target ∈ (sortContinuum qsort rack).poolTargets dcType i,
      ((redisConnectionPoolInit qsort dials dcType i rack world).2.status target.1 = .valid ↔
        (poolTurn dials target).Own)) ↔
      NoneRefusedBefore
        (((sortContinuum qsort rack).poolTargets dcType i).map (poolTurn dials)) := by
  have hview := (loop_view (poolVisit dials) World.status (dial_view dials)
    ((sortContinuum qsort rack).poolTargets dcType i) .valid world).2
  have hvalue : ∀ target ∈ (sortContinuum qsort rack).poolTargets dcType i, ∀ status,
      (poolVisit dials).value target (world.status target.1) status =
        (poolTurn dials target).status status := by
    intro target htarget status
    obtain ⟨j, hj, rfl⟩ := List.mem_mapIdx.mp htarget
    have hinvalid : world.status ⟨dcType, i, j⟩ = .invalid := by
      show (world.conn ⟨dcType, i, j⟩).status = .invalid
      rw [hfresh]
    rw [hinvalid]
    rfl
  have hown := sweep_own_iff (poolVisit dials) world.status (poolTurn dials)
    ((sortContinuum qsort rack).pool_targets_nodup dcType i) (fun _ _ _ => rfl) hvalue
  rw [← hview] at hown
  exact hown

/-- The same of the turns of a pass. -/
theorem pass_status_own_iff (outcomes : Slot → Reconnect) (dcType : DcType) (dc : Datacenter)
    (world : World) :
    (∀ target ∈ dc.reconnectTargets dcType,
      ((reconnectDatacenter outcomes dcType dc world).status target.1 = .valid ↔
        (passTurn outcomes target (world.status target.1)).Own)) ↔
      NoneRefusedBefore ((dc.reconnectTargets dcType).map fun target =>
        passTurn outcomes target (world.status target.1)) := by
  have hview := (loop_view (passVisit outcomes) World.status
    (reconnect_slot_view outcomes) (dc.reconnectTargets dcType) .valid world).2
  have hown := sweep_own_iff (passVisit outcomes) world.status
    (fun target => passTurn outcomes target (world.status target.1))
    (dc.reconnect_targets_nodup dcType) (fun _ _ _ => rfl) (fun _ _ _ => rfl)
  rw [← hview] at hown
  exact hown

/-- Where that is so, what other slots meet and what they held makes no difference to a slot. -/
theorem pass_status_independent {outcomes other : Slot → Reconnect} {dcType : DcType}
    {dc : Datacenter} {world world' : World}
    (h : NoneRefusedBefore ((dc.reconnectTargets dcType).map fun target =>
      passTurn outcomes target (world.status target.1)))
    (h' : NoneRefusedBefore ((dc.reconnectTargets dcType).map fun target =>
      passTurn other target (world'.status target.1)))
    {target : Slot × Endpoint} (htarget : target ∈ dc.reconnectTargets dcType)
    (houtcome : outcomes target.1 = other target.1)
    (hstatus : world.status target.1 = world'.status target.1) :
    (reconnectDatacenter outcomes dcType dc world).status target.1 =
      (reconnectDatacenter other dcType dc world').status target.1 := by
  have hown := (pass_status_own_iff outcomes dcType dc world).mpr h target htarget
  have hown' := (pass_status_own_iff other dcType dc world').mpr h' target htarget
  have hturn : passTurn outcomes target (world.status target.1) =
      passTurn other target (world'.status target.1) := by
    simp only [passTurn, houtcome, hstatus]
  rw [hturn, ← hown'] at hown
  exact Status.eq_of_valid_iff hown

/-! ## A slot with a password and one without -/

/-- The node of the first ring position, with a password. -/
def lockedNode : Node :=
  { ip := .ofAscii "10.0.0.1", port := 8102, pass := some (.ofAscii "secret")
    tokenStr := .ofAscii "1" }

/-- The node of the second ring position, without one. -/
def openNode : Node :=
  { ip := .ofAscii "10.0.0.2", port := 8102, pass := none, tokenStr := .ofAscii "2" }

/-- A rack that holds both. -/
def mixedRack : Rack :=
  { name := some (.ofAscii "rack1"), nodeCount := 2, ncontinuum := 2
    continuum := [lockedNode.element 0, openNode.element 1] }

/-- Every connect succeeds and every `AUTH` gets this reply. -/
def authDials (reply : ReplyType) : Slot → Dial := fun _ =>
  { connect := .connected, auth := { reply := some reply, err := false } }

/-- The same in a reconnect pass, with no `PING` answered. -/
def authReconnects (reply : ReplyType) : Slot → Reconnect := fun slot =>
  { ping := { reply := none, err := true }, dial := authDials reply slot }

/-- The datacenter of this rack. -/
def mixedDatacenter : Datacenter :=
  { name := .ofAscii "local_dc", rack := [mixedRack], dcType := .localDc }

/-- Slots as `dynoc_rack_init` leaves them. -/
def freshWorld : World := .initial fun _ => ⟨.invalid, none⟩

/-- A slot is `VALID` after a pass exactly if it should be by its own turn, for all slots, if and
only if no slot without a password is connected after a refused `AUTH` with no accepted one in
between. The first part is about `redis_connection_pool_init` on fresh slots, the second about a
pass of `reconnect_datacenter`. -/
theorem status_own_iff (qsort : Qsort Continuum) (dials : Slot → Dial)
    (outcomes : Slot → Reconnect) (dcType : DcType) (i : Nat) (rack : Rack) (dc : Datacenter)
    (fresh world : World) (hfresh : ∀ j, fresh.conn ⟨dcType, i, j⟩ = ⟨.invalid, none⟩) :
    ((∀ target ∈ (sortContinuum qsort rack).poolTargets dcType i,
      ((redisConnectionPoolInit qsort dials dcType i rack fresh).2.status target.1 = .valid ↔
        (poolTurn dials target).Own)) ↔
      NoneRefusedBefore
        (((sortContinuum qsort rack).poolTargets dcType i).map (poolTurn dials))) ∧
    ((∀ target ∈ dc.reconnectTargets dcType,
      ((reconnectDatacenter outcomes dcType dc world).status target.1 = .valid ↔
        (passTurn outcomes target (world.status target.1)).Own)) ↔
      NoneRefusedBefore ((dc.reconnectTargets dcType).map fun target =>
        passTurn outcomes target (world.status target.1))) :=
  ⟨pool_status_own_iff qsort dials dcType i rack fresh hfresh,
    pass_status_own_iff outcomes dcType dc world⟩

/-- With every `AUTH` accepted the two nodes meet the condition. -/
theorem status_own_mixed_rack :
    NoneRefusedBefore (((sortContinuum (.insertion Continuum) mixedRack).poolTargets .localDc
        0).map (poolTurn (authDials .data))) ∧
      NoneRefusedBefore ((mixedDatacenter.reconnectTargets .localDc).map fun target =>
        passTurn (authReconnects .data) target (freshWorld.status target.1)) := by
  have h := status_own_iff (.insertion Continuum) (authDials .data) (authReconnects .data)
    .localDc 0 mixedRack mixedDatacenter freshWorld freshWorld (fun _ => rfl)
  exact ⟨h.1.mp (by decide +kernel), h.2.mp (by decide +kernel)⟩

/-- With every `AUTH` refused the second node is connected and `INVALID`. -/
theorem open_node_shut_out :
    (∀ j, freshWorld.conn ⟨.localDc, 0, j⟩ = ⟨.invalid, none⟩) ∧
      (¬ ∀ target ∈ (sortContinuum (.insertion Continuum) mixedRack).poolTargets .localDc 0,
        ((redisConnectionPoolInit (.insertion Continuum) (authDials .error) .localDc 0 mixedRack
          freshWorld).2.status target.1 = .valid ↔ (poolTurn (authDials .error) target).Own)) ∧
      ¬ ∀ target ∈ mixedDatacenter.reconnectTargets .localDc,
        ((reconnectDatacenter (authReconnects .error) .localDc mixedDatacenter
          freshWorld).status target.1 = .valid ↔
          (passTurn (authReconnects .error) target (freshWorld.status target.1)).Own) :=
  ⟨fun _ => rfl, by decide +kernel, by decide +kernel⟩

end DynocClient
