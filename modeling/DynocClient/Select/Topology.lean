import DynocClient.Connection.Pool
import DynocClient.Select.Search
import DynocClient.Setup.Capacity

/-!
# The topology of a started client

`dynoc_start` sorts and numbers the elements of every rack and changes nothing else of the
topology, so after any setup script every rack is `Indexed` (`Started.indexed`): whatever
`select_connection` picks there is one of the rack's nodes.
-/

namespace DynocClient

open Lib

/-- `cmp` orders elements by the values of their tokens. -/
theorem cmp_ordered_by : OrderedBy cmp fun element => element.token.key :=
  token_cmp_ordered_by.on Continuum.token

/-! ## What `dynoc_start` makes of the racks -/

section Sorting

variable (qsort : Qsort Continuum) {rack : Rack}

/-- Sorting leaves `ncontinuum`. -/
@[simp] theorem sort_continuum_ncontinuum :
    (sortContinuum qsort rack).ncontinuum = rack.ncontinuum := rfl

/-- Sorting leaves `node_count`. -/
@[simp] theorem sort_continuum_node_count :
    (sortContinuum qsort rack).nodeCount = rack.nodeCount := rfl

/-- The elements that `ncontinuum` counts have been written. -/
def Rack.Filled (rack : Rack) : Prop := rack.ncontinuum.toNat ≤ rack.continuum.length

/-- The counted elements in the order `qsort` leaves them in. -/
def Rack.sorted (rack : Rack) : List Continuum :=
  qsort.sort cmp (rack.continuum.take rack.ncontinuum.toNat)

/-- The sorted elements are the elements below `ncontinuum`. -/
theorem Rack.sorted_perm :
    (rack.sorted qsort).Perm (rack.continuum.take rack.ncontinuum.toNat) :=
  qsort.perm cmp_ordered_by.consistent _

/-- A filled rack has `ncontinuum` elements to sort. -/
theorem Rack.Filled.sorted_length (h : rack.Filled) :
    (rack.sorted qsort).length = rack.ncontinuum.toNat := by
  rw [(rack.sorted_perm qsort).length_eq, List.length_take]
  exact Nat.min_eq_left h

/-- The element at a position after the sort. -/
def Rack.Filled.element (h : rack.Filled) (i : Fin rack.ncontinuum.toNat) : Continuum :=
  { (rack.sorted qsort).get (i.cast (h.sorted_length qsort).symm) with
    index := UInt32.ofNat i.val }

/-- After the sort an index holds the element of that rank, renumbered. -/
theorem Rack.Filled.get_sorted (h : rack.Filled) (i : Fin rack.ncontinuum.toNat) :
    (sortContinuum qsort rack).continuum[i.val]? = some (h.element qsort i) := by
  have hlt : i.val < (rack.sorted qsort).length := by
    rw [h.sorted_length qsort]
    exact i.isLt
  show ((rack.sorted qsort).mapIdx _ ++ _)[i.val]? = _
  rw [List.getElem?_append_left (by rwa [List.length_mapIdx]), List.getElem?_mapIdx,
    List.getElem?_eq_getElem hlt]
  rfl

/-- Elements of higher index have tokens no lower. -/
theorem Rack.Filled.element_monotone (h : rack.Filled) :
    Monotone fun i => (h.element qsort i).token.key := by
  have hsorted := qsort.sorted cmp_ordered_by.consistent
    (rack.continuum.take rack.ncontinuum.toNat)
  intro i j hij
  rcases hij.lt_or_eq with hlt | rfl
  · exact (cmp_ordered_by.le_iff _ _).mp (List.pairwise_iff_getElem.mp hsorted i.val j.val
      _ _ hlt)
  · exact le_refl _

/-- The index of an element is its place in the sorted array. -/
theorem Rack.Filled.element_index (h : rack.Filled) (i : Fin rack.ncontinuum.toNat) :
    (h.element qsort i).index.toNat = i.val := by
  have hbound : i.val < 2 ^ 32 := Nat.lt_trans i.isLt rack.ncontinuum.toNat_lt
  show (UInt32.ofNat i.val).toNat = i.val
  rw [UInt32.toNat_ofNat']
  exact Nat.mod_eq_of_lt hbound

/-- Sorted racks are indexed. -/
theorem Rack.Filled.indexed (h : rack.Filled) : (sortContinuum qsort rack).Indexed :=
  ⟨h.element qsort, h.get_sorted qsort, h.element_index qsort, h.element_monotone qsort⟩

end Sorting

/-- A datacenter after `dynoc_start`. -/
def Datacenter.start (qsort : Qsort Continuum) (dc : Datacenter) : Datacenter :=
  { dc with rack := dc.rack.map (sortContinuum qsort) }

/-- `redis_connection_pool_init` sorts the racks and changes nothing else of them. -/
theorem pool_init_racks_fst (qsort : Qsort Continuum) (dials : Slot → Dial) (dcType : DcType)
    (i : Nat) (racks : List Rack) (world : World) :
    (poolInitRacks qsort dials dcType i racks world).1 = racks.map (sortContinuum qsort) := by
  induction racks generalizing i world with
  | nil => rfl
  | cons rack racks ih =>
      show sortContinuum qsort rack :: (poolInitRacks _ _ _ (i + 1) racks _).1 = _
      rw [ih, List.map_cons]

/-- What `dynoc_start` leaves of a datacenter does not depend on its dials. -/
theorem start_datacenter_fst (qsort : Qsort Continuum) (dials : Slot → Dial) (dcType : DcType)
    (dc : Option Datacenter) (world : World) :
    (startDatacenter qsort dials dcType dc world).1 = dc.map (Datacenter.start qsort) := by
  cases dc with
  | none => rfl
  | some dc =>
      simp only [startDatacenter, pool_init_racks_fst]
      rfl

section Start

variable (hashAlgos : HashType → HashFunc) (qsort : Qsort Continuum) (dials : Slot → Dial)
  (client : Client)

/-- `dynoc_start` sorts the racks of the datacenters that are there. -/
theorem dynoc_start_dc (dcType : DcType) :
    (dynocStart hashAlgos qsort dials client).1.dc dcType =
      (client.dynoc.dc dcType).map (Datacenter.start qsort) := by
  cases dcType <;> exact start_datacenter_fst qsort dials _ _ _

/-- A datacenter that is there is there after `dynoc_start`, sorted. -/
theorem dynoc_start_some (dcType : DcType) {dc : Datacenter}
    (h : client.dynoc.dc dcType = some dc) :
    (dynocStart hashAlgos qsort dials client).1.dc dcType = some (dc.start qsort) := by
  rw [dynoc_start_dc, h, Option.map_some]

/-- `dynoc_start` makes no datacenter. -/
theorem dynoc_start_none (dcType : DcType) (h : client.dynoc.dc dcType = none) :
    (dynocStart hashAlgos qsort dials client).1.dc dcType = none := by
  rw [dynoc_start_dc, h, Option.map_none]

/-- `dynoc_start` takes the hash function from the hash type. -/
theorem dynoc_start_hash_func :
    (dynocStart hashAlgos qsort dials client).1.hashFunc =
      getHashFunc hashAlgos client.dynoc.hashType := rfl

end Start

/-! ## Started clients -/

/-- The client is one that `dynoc_start` leaves after some setup script. -/
def Started (dynoc : Dynoc) : Prop :=
  ∃ hashAlgos qsort dials conn client, Reachable setupStep (dynocInit conn) client ∧
    dynoc = (dynocStart hashAlgos qsort dials client).1

/-- After a write at or before the end the array is filled up to its index. -/
theorem write_continuum_filled (continuum : List Continuum) {i : Nat} (element : Continuum)
    (h : i ≤ continuum.length) : i + 1 ≤ (writeContinuum continuum i element).length := by
  unfold writeContinuum
  split
  · rw [List.length_set]
    assumption
  · rw [List.length_append]
    exact Nat.succ_le_succ h

/-- A setup call keeps every rack filled, even where it overfills one. -/
theorem filled_step {client next : Client} {call : SetupCall}
    (h : client.AllRacks Rack.Filled) (hstep : setupStep client call = some next) :
    next.AllRacks Rack.Filled := by
  refine h.step hstep (Nat.zero_le _) (fun _ _ => Nat.zero_le _) ?_
  intro node rcName dcType dc _ _ rack _ hfilled hname
  have hwritten := write_continuum_filled rack.continuum (node.element rack.ncontinuum) hfilled
  have hcount : (rack.ncontinuum + 1).toNat ≤ rack.ncontinuum.toNat + 1 := by
    rw [UInt32.toNat_add]
    exact Nat.mod_le _ _
  rw [Rack.add_node_of_name hname]
  exact hcount.trans hwritten

/-- No setup call changes the hash type. -/
theorem setup_step_hash_type {client next : Client} {call : SetupCall}
    (hstep : setupStep client call = some next) :
    next.dynoc.hashType = client.dynoc.hashType := by
  have hwith : ∀ dcType dc, (client.withDc dcType dc).dynoc.hashType =
      client.dynoc.hashType := by
    intro dcType dc
    cases dcType <;> rfl
  rcases setup_step_cases hstep with ⟨rfl, -⟩ | ⟨_, _, dcType, -, -, rfl⟩ |
    ⟨_, _, dcType, dc, _, -, -, -, rfl⟩ | ⟨_, _, dcType, dc, -, -, rfl⟩
  · rfl
  · exact hwith _ _
  · exact hwith _ _
  · exact hwith _ _

/-- Every rack holds at least one node. -/
def Dynoc.Populated (dynoc : Dynoc) : Prop :=
  ∀ dcType, ∀ dc ∈ dynoc.dc dcType, ∀ rack ∈ dc.rack, 0 < rack.ncontinuum.toNat

instance (dynoc : Dynoc) : Decidable dynoc.Populated :=
  inferInstanceAs (Decidable (∀ dcType, ∀ dc ∈ dynoc.dc dcType, ∀ rack ∈ dc.rack,
    0 < rack.ncontinuum.toNat))

/-- `dynoc_init` chooses the default hash and no setup call changes it. -/
theorem hash_type_reachable {conn : Slot → RedisConnection} {client : Client}
    (h : Reachable setupStep (dynocInit conn) client) : client.dynoc.hashType = .murmur :=
  h.invariant (P := fun client => client.dynoc.hashType = .murmur) rfl
    (fun _ _ _ hold hstep => (setup_step_hash_type hstep).trans hold)

namespace Started

variable {dynoc : Dynoc} (h : Started dynoc)
include h

/-- The hash function is set. -/
theorem hash : ∃ hashFunc, dynoc.hashFunc = some hashFunc := by
  obtain ⟨hashAlgos, qsort, dials, conn, client, hreach, rfl⟩ := h
  have htype := hash_type_reachable hreach
  exact ⟨hashAlgos .murmur, by simp [dynoc_start_hash_func, htype, getHashFunc]⟩

/-- Every rack is indexed. -/
theorem indexed {dcType : DcType} {dc : Datacenter} (hdc : dynoc.dc dcType = some dc)
    {rack : Rack} (hrack : rack ∈ dc.rack) : rack.Indexed := by
  obtain ⟨hashAlgos, qsort, dials, conn, client, hreach, rfl⟩ := h
  have hfilled : client.AllRacks Rack.Filled :=
    hreach.invariant (all_racks_init _ conn) (fun _ _ _ hold hstep => filled_step hold hstep)
  rw [dynoc_start_dc, Option.map_eq_some_iff] at hdc
  obtain ⟨dc, hdc, rfl⟩ := hdc
  obtain ⟨built, hbuilt, rfl⟩ := List.mem_map.mp hrack
  exact (hfilled dcType dc hdc built hbuilt).indexed qsort

end Started

/-- The client is one that `dynoc_start` leaves after a setup script that adds no more nodes to a
rack than it has room for. -/
def StartedInRoom (dynoc : Dynoc) : Prop :=
  ∃ hashAlgos qsort dials conn calls client,
    runFrom setupStep (dynocInit conn) calls = some client ∧
    EachStep setupStep HasRoom (dynocInit conn) calls ∧
    dynoc = (dynocStart hashAlgos qsort dials client).1

/-- A client started within capacity is started. -/
theorem StartedInRoom.started {dynoc : Dynoc} (h : StartedInRoom dynoc) : Started dynoc := by
  obtain ⟨hashAlgos, qsort, dials, conn, calls, client, hrun, -, rfl⟩ := h
  exact ⟨hashAlgos, qsort, dials, conn, client, ⟨calls, hrun⟩, rfl⟩

/-- The elements counted lie in the array that `dynoc_rack_init` allocated. -/
theorem StartedInRoom.count_le {dynoc : Dynoc} (h : StartedInRoom dynoc) {dcType : DcType}
    {dc : Datacenter} (hdc : dynoc.dc dcType = some dc) {rack : Rack} (hrack : rack ∈ dc.rack) :
    rack.ncontinuum.toNat ≤ rack.nodeCount.toNat := by
  obtain ⟨hashAlgos, qsort, dials, conn, calls, client, hrun, hroom, rfl⟩ := h
  rw [dynoc_start_dc, Option.map_eq_some_iff] at hdc
  obtain ⟨built, hbuilt, rfl⟩ := hdc
  obtain ⟨before, hbefore, rfl⟩ := List.mem_map.mp hrack
  exact UInt32.le_iff_toNat_le.mp
    ((fits_of_room hrun hroom).1 dcType built hbuilt before hbefore).count

/-- The slot lies in a `redis_conn_pool` that `dynoc_rack_init` allocated. -/
def Dynoc.IsSlot (dynoc : Dynoc) (slot : Slot) : Prop :=
  ∃ dc rack, dynoc.dc slot.dcType = some dc ∧ dc.rack[slot.rack]? = some rack ∧
    slot.node < rack.nodeCount.toNat

/-- The slot lies beside an element that `ncontinuum` counts. -/
def Dynoc.IsNode (dynoc : Dynoc) (slot : Slot) : Prop :=
  ∃ dc rack, dynoc.dc slot.dcType = some dc ∧ dc.rack[slot.rack]? = some rack ∧
    slot.node < rack.ncontinuum.toNat

/-- Where no rack is overfull every node has a slot. -/
theorem StartedInRoom.is_slot {dynoc : Dynoc} (h : StartedInRoom dynoc) {slot : Slot}
    (hnode : dynoc.IsNode slot) : dynoc.IsSlot slot := by
  obtain ⟨dc, rack, hdc, hrack, hlt⟩ := hnode
  exact ⟨dc, rack, hdc, hrack, hlt.trans_le (h.count_le hdc (List.mem_of_getElem? hrack))⟩

/-! ## Scripts run and started -/

/-- The client that a setup script and `dynoc_start` make, if no call of the script faults. Keys
hash to the number of their bytes, and no connect succeeds. -/
def launch (calls : List SetupCall) : Option Dynoc :=
  (runFrom setupStep (dynocInit fun _ => ⟨.invalid, none⟩) calls).map fun client =>
    (dynocStart (fun _ bytes => UInt32.ofNat bytes.length) (.insertion Continuum)
      (fun _ => { connect := .null, auth := { reply := none, err := true } }) client).1

/-- Every launched client is started. -/
theorem launch_started {calls : List SetupCall} {dynoc : Dynoc} (h : launch calls = some dynoc) :
    Started dynoc := by
  obtain ⟨client, hrun, rfl⟩ := Option.map_eq_some_iff.mp h
  exact ⟨_, _, _, _, client, ⟨calls, hrun⟩, rfl⟩

/-- A client launched by a script within capacity is started within capacity. -/
theorem launch_in_room {calls : List SetupCall} {dynoc : Dynoc} (h : launch calls = some dynoc)
    (hroom : EachStep setupStep HasRoom (dynocInit fun _ => ⟨.invalid, none⟩) calls) :
    StartedInRoom dynoc := by
  obtain ⟨client, hrun, rfl⟩ := Option.map_eq_some_iff.mp h
  exact ⟨_, _, _, _, calls, client, hrun, hroom, rfl⟩

end DynocClient
