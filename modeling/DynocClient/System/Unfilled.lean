import DynocClient.System.Usable

/-!
# Slots beside entries that no call filled

`reconnect_datacenter` goes through all `node_count` slots of a rack, the loop of
`redis_connection_pool_init` only through `ncontinuum`. `dials_configured_iff` says what follows:
the passes keep to the configured nodes in exactly the clients whose racks have all the nodes
that `dynoc_rack_init` made room for.
-/

namespace DynocClient

open Lib

/-! ## Which entries are filled -/

/-- Every entry written was made by `continuum_init`, with a host. -/
def Rack.Hosted (rack : Rack) : Prop :=
  ∀ element ∈ rack.continuum, element.endpoint.host ≠ none

/-- A write adds one element and no other. -/
theorem mem_write_continuum {continuum : List Continuum} {i : Nat} {element other : Continuum}
    (h : other ∈ writeContinuum continuum i element) : other ∈ continuum ∨ other = element := by
  unfold writeContinuum at h
  split at h
  · exact List.mem_or_eq_of_mem_set h
  · exact (List.mem_append.mp h).imp_right List.mem_singleton.mp

/-- Setup calls keep a host for every element. -/
theorem hosted_step {client next : Client} {call : SetupCall}
    (h : client.AllRacks Rack.Hosted) (hstep : setupStep client call = some next) :
    next.AllRacks Rack.Hosted := by
  refine h.step hstep (fun _ hmem => absurd hmem List.not_mem_nil)
    (fun _ _ _ hmem => absurd hmem List.not_mem_nil) ?_
  intro node rcName dcType dc _ _ rack _ hhosted hname element hmem
  rw [Rack.add_node_of_name hname] at hmem
  rcases mem_write_continuum hmem with hold | rfl
  · exact hhosted element hold
  · exact Option.some_ne_none node.ip

/-- After `dynoc_start` the entries that `ncontinuum` counts have a host, and there are no
others. -/
theorem StartedInRoom.rack_hosted {dynoc : Dynoc} (h : StartedInRoom dynoc) {dcType : DcType}
    {dc : Datacenter} (hdc : dynoc.dc dcType = some dc) {rack : Rack} (hrack : rack ∈ dc.rack) :
    rack.Counted ∧ rack.Hosted := by
  obtain ⟨hashAlgos, qsort, dials, conn, calls, client, hrun, hroom, rfl⟩ := h
  rw [dynoc_start_dc, Option.map_eq_some_iff] at hdc
  obtain ⟨built, hbuilt, rfl⟩ := hdc
  obtain ⟨before, hbefore, rfl⟩ := List.mem_map.mp hrack
  have hcounted := (fits_of_room hrun hroom).2 dcType built hbuilt before hbefore
  have hreach : Reachable setupStep (dynocInit conn) client := ⟨calls, hrun⟩
  have hhosted : client.AllRacks Rack.Hosted :=
    hreach.invariant (all_racks_init _ conn) (fun _ _ _ hold hstep => hosted_step hold hstep)
  have hlength : (before.sorted qsort).length = before.ncontinuum.toNat :=
    Rack.Filled.sorted_length qsort hcounted.le
  have hall : before.continuum.take before.ncontinuum.toNat = before.continuum := by
    rw [hcounted, List.take_length]
  have hrest : before.continuum.drop before.ncontinuum.toNat = [] := by
    rw [hcounted, List.drop_length]
  constructor
  · show before.ncontinuum.toNat =
      ((before.sorted qsort).mapIdx _ ++ before.continuum.drop _).length
    rw [hrest, List.append_nil, List.length_mapIdx, hlength]
  · intro element hmem
    have hmapped : element ∈ (before.sorted qsort).mapIdx
        (fun i element => { element with index := UInt32.ofNat i }) ++
          before.continuum.drop before.ncontinuum.toNat := hmem
    rw [hrest, List.append_nil] at hmapped
    obtain ⟨i, hi, rfl⟩ := List.mem_mapIdx.mp hmapped
    have hsorted := (before.sorted_perm qsort).mem_iff.mp (List.getElem_mem hi)
    rw [hall] at hsorted
    exact hhosted dcType built hbuilt before hbefore (before.sorted qsort)[i] hsorted

/-- The endpoint beside a slot has a host exactly if the slot is a node's. -/
theorem StartedInRoom.host_iff {dynoc : Dynoc} (h : StartedInRoom dynoc) {slot : Slot}
    {endpoint : Endpoint} (hendpoint : dynoc.HasEndpoint slot endpoint) :
    endpoint.host ≠ none ↔ dynoc.IsNode slot := by
  obtain ⟨dc, rack, hdc, hrack, -, rfl⟩ := hendpoint
  obtain ⟨hcounted, hhosted⟩ := h.rack_hosted hdc (List.mem_of_getElem? hrack)
  have hnode : dynoc.IsNode slot ↔ slot.node < rack.continuum.length := by
    rw [← hcounted]
    constructor
    · intro hnode
      obtain ⟨dc', rack', hdc', hrack', hlt⟩ := hnode
      obtain rfl : dc = dc' := Option.some.inj (hdc.symm.trans hdc')
      obtain rfl : rack = rack' := Option.some.inj (hrack.symm.trans hrack')
      exact hlt
    · exact fun hlt => ⟨dc, rack, hdc, hrack, hlt⟩
  rw [hnode, Rack.endpointAt]
  cases helement : rack.continuum[slot.node]? with
  | none =>
      have hle : rack.continuum.length ≤ slot.node := List.getElem?_eq_none_iff.mp helement
      simp [Nat.not_lt.mpr hle]
  | some element =>
      have hlt : slot.node < rack.continuum.length :=
        (List.getElem?_eq_some_iff.mp helement).choose
      exact iff_of_true (hhosted element (List.mem_of_getElem? helement)) hlt

/-! ## What the passes dial -/

/-- Every connect so far was to a configured node, and the slots beside other entries have not
been touched. -/
structure DialsConfigured (dynoc : Dynoc) (system : System) : Prop where
  dialled : ∀ slot endpoint, (slot, endpoint) ∈ system.world.connects →
    dynoc.IsNode slot ∧ endpoint.host ≠ none
  untouched : ∀ slot, dynoc.IsSlot slot → ¬ dynoc.IsNode slot →
    system.world.conn slot = ⟨.invalid, none⟩

/-- No turn of a pass comes to a slot whose entry no call filled. -/
def TurnsFilled (dynoc : Dynoc) (system : System) : Move → Prop
  | .turn pass _ =>
      ∀ running ∈ system.passes[pass]?, ∀ target ∈ running.targets.head?,
        dynoc.IsNode target.1
  | _ => True

/-- Every rack has been given all the nodes it has room for. -/
def Dynoc.Full (dynoc : Dynoc) : Prop :=
  ∀ dcType, ∀ dc ∈ dynoc.dc dcType, ∀ rack ∈ dc.rack, rack.ncontinuum = rack.nodeCount

instance (dynoc : Dynoc) : Decidable dynoc.Full :=
  inferInstanceAs (Decidable (∀ dcType, ∀ dc ∈ dynoc.dc dcType, ∀ rack ∈ dc.rack,
    rack.ncontinuum = rack.nodeCount))

/-- A command connects nothing. -/
theorem attempt_connects (kind : ReturnKind) (request : Request) (world : World) (slot : Slot)
    (answer : Answer) :
    (attempt kind request world slot answer).2.connects = world.connects := by
  cases hstatus : (world.conn slot).status with
  | invalid => simp [attempt_invalid hstatus]
  | valid =>
      cases haccepted : answer.accepted with
      | false => simp [attempt, hstatus, haccepted, resetRedisConnection]
      | true => cases kind <;> simp [attempt, hstatus, haccepted]

/-- `dynoc_start` dials the configured nodes only. -/
theorem LaunchedInRoom.dials_configured {dynoc : Dynoc} {world : World}
    (h : LaunchedInRoom dynoc world) : DialsConfigured dynoc (.start world) := by
  have hroom := h.started_in_room
  let K (rest : List (Slot × Endpoint)) (world : World) : Prop :=
    DialsConfigured dynoc (.start world) ∧
      ∀ target ∈ rest, dynoc.IsNode target.1 ∧ target.2.host ≠ none
  have hdial : ∀ slot endpoint outcome status rest world, K ((slot, endpoint) :: rest) world →
      K rest (dial world slot endpoint outcome status).2 := by
    intro slot endpoint outcome status rest world hK
    obtain ⟨hconfigured, htargets⟩ := hK
    obtain ⟨hfirst, hrest⟩ := List.forall_mem_cons.mp htargets
    refine ⟨⟨fun other endpoint' hmem => ?_, fun other hslot hnot => ?_⟩, hrest⟩
    · have hmem' : (other, endpoint') ∈ (dial world slot endpoint outcome status).2.connects :=
        hmem
      rw [dial_connects] at hmem'
      rcases List.mem_append.mp hmem' with hold | hnew
      · exact hconfigured.dialled other endpoint' hold
      · obtain ⟨rfl, rfl⟩ := Prod.mk.inj (List.mem_singleton.mp hnew)
        exact hfirst
    · have hother : other ≠ slot := by
        rintro rfl
        exact hnot hfirst.1
      exact (dial_other world slot endpoint status outcome hother).trans
        (hconfigured.untouched other hslot hnot)
  refine (h.rule (K := K) hdial fun conn hfresh => ⟨⟨fun _ _ hmem => ?_, fun slot hslot _ => ?_⟩,
    fun target htarget => ?_⟩).1
  · exact absurd hmem List.not_mem_nil
  · exact hfresh slot hslot
  · have hnode : dynoc.IsNode target.1 := by
      rcases List.mem_append.mp htarget with hmem | hmem
      all_goals
        obtain ⟨hdcType, dc, rack, element, hdc, hrack, hlt, -, -⟩ := mem_pool_targets.mp hmem
        exact ⟨dc, rack, hdcType ▸ hdc, hrack, hlt⟩
    exact ⟨hnode, (hroom.host_iff (has_endpoint_of_pool hroom htarget)).mpr hnode⟩

section Steps

variable {dynoc : Dynoc} (hroom : StartedInRoom dynoc) {system next : System} {move : Move}
  (hsafe : SafeSystem dynoc system) (h : DialsConfigured dynoc system)
include hroom hsafe h

/-- A move that comes to no unfilled entry keeps to the configured nodes. -/
theorem DialsConfigured.step (hfilled : TurnsFilled dynoc system move)
    (hstep : systemStep dynoc system move = some next) : DialsConfigured dynoc next := by
  rcases system_step_cases hstep with ⟨hworld, -, -⟩ |
    ⟨thread, answer, command, cursor, slot, after, -, hselect, hworld, -⟩ |
    ⟨pass, outcome, slot, endpoint, targets, status, rfl, hpass, hworld, -⟩
  · exact ⟨by rw [hworld]; exact h.dialled, by rw [hworld]; exact h.untouched⟩
  · have hnode := select_connection_is_node hroom.started hselect
    constructor
    · rw [hworld, attempt_connects]
      exact h.dialled
    · intro other hslot hnot
      have hother : other ≠ slot := by
        rintro rfl
        exact hnot hnode
      rw [hworld, attempt_other _ _ hother]
      exact h.untouched other hslot hnot
  · have hnode : dynoc.IsNode slot := hfilled _ hpass _ rfl
    have hendpoint := hsafe.passes _ (List.mem_of_getElem? hpass) _ List.mem_cons_self
    constructor
    · rw [hworld, reconnect_slot_connects]
      intro other endpoint' hmem
      rcases List.mem_append.mp hmem with hold | hnew
      · exact h.dialled other endpoint' hold
      · split at hnew
        · exact absurd hnew List.not_mem_nil
        · obtain ⟨rfl, rfl⟩ := Prod.mk.inj (List.mem_singleton.mp hnew)
          exact ⟨hnode, (hroom.host_iff hendpoint).mpr hnode⟩
    · intro other hslot hnot
      have hother : other ≠ slot := by
        rintro rfl
        exact hnot hnode
      rw [hworld, reconnect_slot_other hother]
      exact h.untouched other hslot hnot

omit hroom in
/-- A turn that comes to one dials it. -/
theorem DialsConfigured.turns_filled
    (hnext : ∀ next, systemStep dynoc system move = some next → DialsConfigured dynoc next) :
    TurnsFilled dynoc system move := by
  cases move with
  | call | attempt | reconnect => exact trivial
  | turn pass outcome =>
      intro running hrunning target htarget
      obtain ⟨targets, status⟩ := running
      obtain ⟨rest, rfl⟩ : ∃ rest, targets = target :: rest := List.head?_eq_some_iff.mp htarget
      have hpass : system.passes[pass]? = some ⟨target :: rest, status⟩ := hrunning
      have hslot := (hsafe.passes _ (List.mem_of_getElem? hpass) _ List.mem_cons_self).is_slot
      by_contra hnot
      -- the slot is `INVALID`, so the turn dials it
      have hdead : ¬ Alive system.world target.1 outcome.ping := by
        intro halive
        have hvalid := halive.1
        rw [h.untouched target.1 hslot hnot] at hvalid
        cases hvalid
      refine hnot ((hnext _ (system_step_turn outcome hpass)).dialled target.1 target.2 ?_).1
      show (target.1, target.2) ∈
        (reconnectSlot system.world target.1 target.2 outcome status).2.connects
      rw [reconnect_slot_connects, if_neg hdead]
      exact List.mem_append_right _ List.mem_cons_self

end Steps

/-! ## The whole run -/

/-- In a full client every slot is that of a node. -/
theorem Dynoc.Full.is_node {dynoc : Dynoc} (h : dynoc.Full) {slot : Slot}
    (hslot : dynoc.IsSlot slot) : dynoc.IsNode slot := by
  obtain ⟨dc, rack, hdc, hrack, hlt⟩ := hslot
  refine ⟨dc, rack, hdc, hrack, ?_⟩
  rwa [h slot.dcType dc hdc rack (List.mem_of_getElem? hrack)]

/-- If the turns of a pass meet the condition, its targets are configured nodes. -/
theorem targets_filled {dynoc : Dynoc} (outcomes : Slot → Reconnect) {system : System}
    {pass : Nat} {targets : List (Slot × Endpoint)} {status : Status}
    (hpass : system.passes[pass]? = some ⟨targets, status⟩)
    (h : EachStep (systemStep dynoc) (TurnsFilled dynoc) system
      (targets.map fun target => .turn pass (outcomes target.1))) :
    ∀ target ∈ targets, dynoc.IsNode target.1 := by
  induction targets generalizing system status with
  | nil => exact fun _ hmem => absurd hmem List.not_mem_nil
  | cons target targets ih =>
      obtain ⟨hfirst, hrest⟩ := h
      have hlt : pass < system.passes.length := (List.getElem?_eq_some_iff.mp hpass).choose
      exact List.forall_mem_cons.mpr ⟨hfirst _ hpass _ rfl,
        ih (List.getElem?_set_self hlt) (hrest _ (system_step_turn _ hpass))⟩

/-- A node that nothing reaches. -/
def unreachable : Reconnect := ⟨⟨none, true⟩, { connect := .null, auth := ⟨none, true⟩ }⟩

/-- A whole pass over a datacenter comes to all slots of its racks. -/
theorem full_of_turns_filled {dynoc : Dynoc} {world : World} (hroom : StartedInRoom dynoc)
    (hall : ∀ moves, EachStep (systemStep dynoc) (TurnsFilled dynoc) (.start world) moves) :
    dynoc.Full := by
  intro dcType dc hdc rack hrack
  have hcount := UInt32.le_iff_toNat_le.mpr (hroom.count_le hdc hrack)
  refine UInt32.le_antisymm hcount (UInt32.le_iff_toNat_le.mpr (Nat.le_of_not_lt fun hlt => ?_))
  obtain ⟨i, hrack⟩ := List.getElem?_of_mem hrack
  have hmeets := hall (.reconnect dcType :: (dc.reconnectTargets dcType).map fun _ =>
    .turn 0 unreachable)
  have hbegin : systemStep dynoc (.start world) (.reconnect dcType) =
      some ⟨world, [], [⟨dc.reconnectTargets dcType, .valid⟩]⟩ := by
    have hdc' : dynoc.dc dcType = some dc := hdc
    simp [systemStep, hdc', System.start]
  have hnode := targets_filled (fun _ => unreachable) rfl (hmeets.2 _ hbegin)
    (⟨dcType, i, rack.ncontinuum.toNat⟩, rack.endpointAt rack.ncontinuum.toNat)
    (mem_reconnect_targets.mpr ⟨rfl, rack, hrack, hlt, rfl⟩)
  obtain ⟨dc', rack', hdc', hrack', hself⟩ := hnode
  obtain rfl : dc = dc' := Option.some.inj (hdc.symm.trans hdc')
  obtain rfl : rack = rack' := Option.some.inj (hrack.symm.trans hrack')
  exact Nat.lt_irrefl _ hself

/-- In a full client every turn is at the slot of a node. -/
theorem Dynoc.Full.turns_filled {dynoc : Dynoc} (hfull : dynoc.Full) {system : System}
    (hsafe : SafeSystem dynoc system) (move : Move) : TurnsFilled dynoc system move := by
  cases move with
  | call | attempt | reconnect => exact trivial
  | turn pass outcome =>
      intro running hrunning target htarget
      have hpass : running ∈ system.passes := List.mem_of_getElem? hrunning
      exact hfull.is_node
        (hsafe.passes running hpass target (List.mem_of_mem_head? htarget)).is_slot

/-- In every run of commands and reconnect passes from `dynoc_start`, in any order and whatever
they meet: the passes dial configured nodes only and leave all other slots as they were, if and
only if no turn comes to a slot whose entry no call filled. All runs of a client are like that
exactly if every rack has been given as many nodes as it has room for. -/
theorem dials_configured_iff {dynoc : Dynoc} {world : World}
    (hlaunch : LaunchedInRoom dynoc world) :
    (∀ moves, Throughout (systemStep dynoc) (DialsConfigured dynoc) (.start world) moves ↔
      EachStep (systemStep dynoc) (TurnsFilled dynoc) (.start world) moves) ∧
    ((∀ moves, Throughout (systemStep dynoc) (DialsConfigured dynoc) (.start world) moves) ↔
      dynoc.Full) := by
  have hroom := hlaunch.started_in_room
  have hexact : ∀ moves,
      Throughout (systemStep dynoc) (DialsConfigured dynoc) (.start world) moves ↔
        EachStep (systemStep dynoc) (TurnsFilled dynoc) (.start world) moves := by
    intro moves
    refine throughout_iff_each_step (I := SafeSystem dynoc) (D := fun _ _ => True) ?_ ?_
      hlaunch.safe_system hlaunch.dials_configured (each_step_of_forall (fun _ _ => trivial) _ _)
    · intro system move next hsafe _ _ hstep
      exact hsafe.step hroom hstep
    · intro system move hsafe hconfigured _
      exact ⟨fun hfilled next hstep => hconfigured.step hroom hsafe hfilled hstep,
        hconfigured.turns_filled hsafe⟩
  refine ⟨hexact, fun hall => ?_, fun hfull moves => ?_⟩
  · exact full_of_turns_filled hroom fun moves => (hexact moves).mp (hall moves)
  · refine (hexact moves).mpr (each_step_of_invariant (I := SafeSystem dynoc)
      (fun _ _ _ hsafe hstep => hsafe.step hroom hstep) ?_ hlaunch.safe_system moves)
    intro system move hsafe
    exact hfull.turns_filled hsafe move

/-- One node in a rack with room for two. -/
def roomyScript : List SetupCall :=
  [.datacenterInit true 1 (.ofAscii "local_dc") .localDc,
    .rackInit 2 (.ofAscii "rack1") .localDc, .addNode lockedNode (.ofAscii "rack1") .localDc]

/-- A client with room for more nodes than it has. -/
def roomyClient : Dynoc × World :=
  (boot (authDials .data) roomyScript).get (by decide +kernel)

/-- A pass over the rack. -/
def roomyMoves : List Move :=
  [.reconnect .localDc, .turn 0 (authReconnects .data ⟨.localDc, 0, 0⟩),
    .turn 0 (authReconnects .data ⟨.localDc, 0, 1⟩)]

/-- That client after a pass. -/
def roomyPassed : System :=
  (runFrom (systemStep roomyClient.1) (.start roomyClient.2) roomyMoves).get (by decide +kernel)

/-- The pass connects the second slot to an endpoint without a host. -/
theorem unfilled_entry_dialled :
    LaunchedInRoom roomyClient.1 roomyClient.2 ∧
      ¬ Throughout (systemStep roomyClient.1) (DialsConfigured roomyClient.1)
        (.start roomyClient.2) roomyMoves := by
  have hlaunch : LaunchedInRoom roomyClient.1 roomyClient.2 :=
    boot_in_room (Option.some_get _).symm (by decide +kernel)
  refine ⟨hlaunch, fun h => ?_⟩
  have hrun : runFrom (systemStep roomyClient.1) (.start roomyClient.2) roomyMoves =
      some roomyPassed := (Option.some_get _).symm
  have hmem : (⟨.localDc, 0, 1⟩, { host := none, port := 0, pass := none }) ∈
      roomyPassed.world.connects := by decide +kernel
  exact ((h.last hrun).dialled _ _ hmem).2 rfl

/-- A rack with all its nodes. -/
theorem full_rack_dials_configured :
    Throughout (systemStep (lockedClient .error).1) (DialsConfigured (lockedClient .error).1)
      (.start (lockedClient .error).2) unlockMoves :=
  (dials_configured_iff (locked_client_in_room .error)).2.mpr (by decide +kernel) unlockMoves

end DynocClient
