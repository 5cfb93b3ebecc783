import DynocClient.Connection.Targets
import DynocClient.Lib.Ownership
import DynocClient.Select.Topology

/-!
# The slots when the client starts

Every slot of a client that was set up is `INVALID` and without a context until `dynoc_start`
dials it (`fresh_slots_reachable`), and `dynoc_start` dials no slot twice
(`Dynoc.pool_targets_nodup`).
-/

namespace DynocClient

open Lib

/-! ## Slots and their endpoints -/

/-- The endpoint is that of the element `continuum[j]` beside the slot `redis_conn_pool[j]`. -/
def Dynoc.HasEndpoint (dynoc : Dynoc) (slot : Slot) (endpoint : Endpoint) : Prop :=
  ∃ dc rack, dynoc.dc slot.dcType = some dc ∧ dc.rack[slot.rack]? = some rack ∧
    slot.node < rack.nodeCount.toNat ∧ endpoint = rack.endpointAt slot.node

section Endpoints

variable {dynoc : Dynoc} {slot : Slot} {endpoint : Endpoint}

/-- Where there is an endpoint there is a slot. -/
theorem Dynoc.HasEndpoint.is_slot (h : dynoc.HasEndpoint slot endpoint) : dynoc.IsSlot slot := by
  obtain ⟨dc, rack, hdc, hrack, hlt, -⟩ := h
  exact ⟨dc, rack, hdc, hrack, hlt⟩

/-- A slot has one endpoint. -/
theorem Dynoc.HasEndpoint.unique {other : Endpoint} (h : dynoc.HasEndpoint slot endpoint)
    (hother : dynoc.HasEndpoint slot other) : endpoint = other := by
  obtain ⟨dc, rack, hdc, hrack, -, rfl⟩ := h
  obtain ⟨dc', rack', hdc', hrack', -, rfl⟩ := hother
  obtain rfl := Option.some.inj (hdc.symm.trans hdc')
  obtain rfl := Option.some.inj (hrack.symm.trans hrack')
  rfl

/-- A pass goes through slots with their own endpoints. -/
theorem has_endpoint_of_reconnect {dcType : DcType} {dc : Datacenter}
    (hdc : dynoc.dc dcType = some dc) (h : (slot, endpoint) ∈ dc.reconnectTargets dcType) :
    dynoc.HasEndpoint slot endpoint := by
  obtain ⟨rfl, rack, hrack, hlt, rfl⟩ := mem_reconnect_targets.mp h
  exact ⟨dc, rack, hdc, hrack, hlt, rfl⟩

/-- So does `dynoc_start`, if the racks have room for their nodes. -/
theorem has_endpoint_of_pool (hroom : StartedInRoom dynoc) {target : Slot × Endpoint}
    (h : target ∈ dynoc.poolTargets .localDc ++ dynoc.poolTargets .remoteDc) :
    dynoc.HasEndpoint target.1 target.2 := by
  have hside : ∀ dcType, target ∈ dynoc.poolTargets dcType →
      dynoc.HasEndpoint target.1 target.2 := by
    intro dcType hmem
    obtain ⟨rfl, dc, rack, element, hdc, hrack, hlt, helement, hendpoint⟩ :=
      mem_pool_targets.mp hmem
    refine ⟨dc, rack, hdc, hrack, ?_, by simp [Rack.endpointAt, helement, hendpoint]⟩
    exact hlt.trans_le (hroom.count_le hdc (List.mem_of_getElem? hrack))
  exact (List.mem_append.mp h).elim (hside .localDc) (hside .remoteDc)

end Endpoints

/-- The slots of one datacenter. -/
def Dynoc.slotsOf (dynoc : Dynoc) (dcType : DcType) : List Slot :=
  match dynoc.dc dcType with
  | none => []
  | some dc => (dc.reconnectTargets dcType).map Prod.fst

/-- All slots of the client, each once. -/
def Dynoc.slots (dynoc : Dynoc) : List Slot := dynoc.slotsOf .localDc ++ dynoc.slotsOf .remoteDc

section Slots

variable {dynoc : Dynoc} {slot : Slot}

/-- The slots of a datacenter are listed. -/
theorem mem_slots_of {dcType : DcType} :
    slot ∈ dynoc.slotsOf dcType ↔ slot.dcType = dcType ∧ dynoc.IsSlot slot := by
  unfold Dynoc.slotsOf
  constructor
  · intro h
    cases hdc : dynoc.dc dcType with
    | none => simp [hdc] at h
    | some dc =>
        rw [hdc] at h
        obtain ⟨⟨found, endpoint⟩, htarget, rfl⟩ := List.mem_map.mp h
        exact ⟨(mem_reconnect_targets.mp htarget).1,
          (has_endpoint_of_reconnect hdc htarget).is_slot⟩
  · intro h
    obtain ⟨rfl, dc, rack, hdc, hrack, hlt⟩ := h
    rw [hdc]
    exact List.mem_map.mpr ⟨(slot, rack.endpointAt slot.node),
      mem_reconnect_targets.mpr ⟨rfl, rack, hrack, hlt, rfl⟩, rfl⟩

/-- The slots of a client are listed. -/
theorem mem_slots : slot ∈ dynoc.slots ↔ dynoc.IsSlot slot := by
  rw [Dynoc.slots, List.mem_append, mem_slots_of, mem_slots_of]
  cases hdcType : slot.dcType <;> simp

instance : DecidablePred dynoc.IsSlot := fun slot =>
  decidable_of_iff (slot ∈ dynoc.slots) mem_slots

end Slots

/-! ## Slots are fresh until they are dialled -/

/-- Every slot is as `dynoc_rack_init` leaves it. -/
def Client.FreshSlots (client : Client) : Prop :=
  ∀ slot, client.dynoc.IsSlot slot → client.conn slot = ⟨.invalid, none⟩

/-- The slots of a new client are fresh. -/
theorem fresh_slots_init (conn : Slot → RedisConnection) : (dynocInit conn).FreshSlots := by
  intro slot h
  obtain ⟨dc, rack, hdc, -⟩ := h
  cases hdcType : slot.dcType <;> simp [dynocInit, Dynoc.dc, hdcType] at hdc

/-- A slot of a client with a new datacenter lies in that one or is a slot from before. -/
theorem is_slot_with_dc {client : Client} {dcType : DcType} {dc : Datacenter} {slot : Slot}
    (h : (client.withDc dcType dc).dynoc.IsSlot slot) :
    (slot.dcType = dcType ∧ ∃ rack, dc.rack[slot.rack]? = some rack ∧
      slot.node < rack.nodeCount.toNat) ∨ client.dynoc.IsSlot slot := by
  obtain ⟨found, rack, hfound, hrack, hlt⟩ := h
  by_cases hdcType : slot.dcType = dcType
  · rw [hdcType, Client.with_dc_same] at hfound
    obtain rfl := Option.some.inj hfound
    exact .inl ⟨hdcType, rack, hrack, hlt⟩
  · rw [Client.with_dc_other _ _ hdcType] at hfound
    exact .inr ⟨found, rack, hfound, hrack, hlt⟩

/-- Setup calls keep the slots fresh. -/
theorem fresh_slots_step {client next : Client} {call : SetupCall} (h : client.FreshSlots)
    (hstep : setupStep client call = some next) : next.FreshSlots := by
  rcases setup_step_cases hstep with ⟨rfl, -⟩ | ⟨rackCount, name, dcType, -, -, rfl⟩ |
    ⟨nodeCount, name, dcType, dc, i, -, hdc, -, rfl⟩ | ⟨node, rcName, dcType, dc, -, hdc, rfl⟩
  · exact h
  · intro slot hslot
    have hconn : (client.withDc dcType (newDatacenter rackCount name dcType)).conn slot =
        client.conn slot := rfl
    rcases is_slot_with_dc hslot with ⟨-, rack, hrack, hlt⟩ | hbefore
    · -- the racks of a new datacenter have no slot yet
      rw [List.eq_of_mem_replicate (List.mem_of_getElem? hrack)] at hlt
      exact absurd hlt (Nat.not_lt_zero _)
    · rw [hconn, h slot hbefore]
  · intro slot hslot
    show initSlots client.conn dcType i nodeCount slot = _
    unfold initSlots
    split
    · rfl
    · rename_i hnew
      refine h slot ?_
      rcases is_slot_with_dc hslot with ⟨hdcType, rack, hrack, hlt⟩ | hbefore
      · rw [List.getElem?_set] at hrack
        by_cases hi : i = slot.rack
        · obtain ⟨-, rfl⟩ : i < dc.rack.length ∧ initRack nodeCount name = rack := by
            simpa [hi] using hrack
          exact absurd ⟨hdcType, hi.symm, hlt⟩ hnew
        · rw [if_neg hi] at hrack
          exact ⟨dc, rack, by rwa [hdcType], hrack, hlt⟩
      · exact hbefore
  · intro slot hslot
    have hconn : (client.withDc dcType
        { dc with rack := dc.rack.map (Rack.addNode node rcName) }).conn slot =
          client.conn slot := rfl
    rw [hconn]
    refine h slot ?_
    rcases is_slot_with_dc hslot with ⟨hdcType, rack, hrack, hlt⟩ | hbefore
    · rw [List.getElem?_map, Option.map_eq_some_iff] at hrack
      obtain ⟨before, hbefore, rfl⟩ := hrack
      rw [Rack.add_node_node_count] at hlt
      exact ⟨dc, before, by rwa [hdcType], hbefore, hlt⟩
    · exact hbefore

/-- Setup scripts leave the slots fresh. -/
theorem fresh_slots_reachable {conn : Slot → RedisConnection} {client : Client}
    (h : Reachable setupStep (dynocInit conn) client) : client.FreshSlots :=
  h.invariant (fresh_slots_init conn) (fun _ _ _ hfresh hstep => fresh_slots_step hfresh hstep)

/-- `dynoc_start` neither adds nor removes slots. -/
theorem dynoc_start_is_slot (hashAlgos : HashType → HashFunc) (qsort : Qsort Continuum)
    (dials : Slot → Dial) (client : Client) (slot : Slot) :
    (dynocStart hashAlgos qsort dials client).1.IsSlot slot ↔ client.dynoc.IsSlot slot := by
  unfold Dynoc.IsSlot
  rw [dynoc_start_dc]
  constructor
  · intro h
    obtain ⟨started, sorted, hstarted, hsorted, hlt⟩ := h
    obtain ⟨dc, hdc, rfl⟩ := Option.map_eq_some_iff.mp hstarted
    have hmap : (dc.rack.map (sortContinuum qsort))[slot.rack]? = some sorted := hsorted
    rw [List.getElem?_map, Option.map_eq_some_iff] at hmap
    obtain ⟨rack, hrack, rfl⟩ := hmap
    exact ⟨dc, rack, hdc, hrack, hlt⟩
  · intro h
    obtain ⟨dc, rack, hdc, hrack, hlt⟩ := h
    refine ⟨dc.start qsort, sortContinuum qsort rack, by rw [hdc]; rfl, ?_, hlt⟩
    show (dc.rack.map _)[slot.rack]? = _
    rw [List.getElem?_map, hrack]
    rfl

/-! ## Started clients and their connections -/

/-- The client and its connections are what `dynoc_start` leaves after a setup script that adds
no more nodes to a rack than it has room for. -/
def LaunchedInRoom (dynoc : Dynoc) (world : World) : Prop :=
  ∃ hashAlgos qsort dials conn calls client,
    runFrom setupStep (dynocInit conn) calls = some client ∧
    EachStep setupStep HasRoom (dynocInit conn) calls ∧
    (dynoc, world) = dynocStart hashAlgos qsort dials client

/-- A client launched within capacity is started within capacity. -/
theorem LaunchedInRoom.started_in_room {dynoc : Dynoc} {world : World}
    (h : LaunchedInRoom dynoc world) : StartedInRoom dynoc := by
  obtain ⟨hashAlgos, qsort, dials, conn, calls, client, hrun, hroom, heq⟩ := h
  exact ⟨hashAlgos, qsort, dials, conn, calls, client, hrun, hroom, congrArg Prod.fst heq⟩

/-- The rule for launched clients: what holds of fresh slots with all of them to be dialled, and is
kept when the first has been dialled, holds when the client has been launched. -/
theorem LaunchedInRoom.rule {dynoc : Dynoc} {world : World} (h : LaunchedInRoom dynoc world)
    {K : List (Slot × Endpoint) → World → Prop}
    (hdial : ∀ slot endpoint outcome status rest world, K ((slot, endpoint) :: rest) world →
      K rest (dial world slot endpoint outcome status).2)
    (hfresh : ∀ conn, (∀ slot, dynoc.IsSlot slot → conn slot = ⟨.invalid, none⟩) →
      K (dynoc.poolTargets .localDc ++ dynoc.poolTargets .remoteDc) (.initial conn)) :
    K [] world := by
  obtain ⟨hashAlgos, qsort, dials, conn, calls, client, hrun, -, heq⟩ := h
  obtain ⟨rfl, rfl⟩ := Prod.mk.inj heq
  refine dynoc_start_rule (fun slot endpoint => hdial slot endpoint (dials slot)) hashAlgos qsort
    client (hfresh _ fun slot hslot => ?_)
  exact fresh_slots_reachable ⟨calls, hrun⟩ slot
    ((dynoc_start_is_slot hashAlgos qsort dials client slot).mp hslot)

/-- What a setup script and `dynoc_start` make, if no call of the script faults. Keys hash to the
number of their bytes. -/
def boot (dials : Slot → Dial) (calls : List SetupCall) : Option (Dynoc × World) :=
  (runFrom setupStep (dynocInit fun _ => ⟨.invalid, none⟩) calls).map
    (dynocStart (fun _ bytes => UInt32.ofNat bytes.length) (.insertion Continuum) dials)

/-- A script that boots within capacity launches a client within capacity. -/
theorem boot_in_room {dials : Slot → Dial} {calls : List SetupCall} {started : Dynoc × World}
    (h : boot dials calls = some started)
    (hroom : EachStep setupStep HasRoom (dynocInit fun _ => ⟨.invalid, none⟩) calls) :
    LaunchedInRoom started.1 started.2 := by
  obtain ⟨client, hrun, rfl⟩ := Option.map_eq_some_iff.mp h
  exact ⟨_, _, _, _, calls, client, hrun, hroom, rfl⟩

end DynocClient
