import DynocClient.Select.Lookup
import DynocClient.System.Connected
import DynocClient.Token.Integers

/-!
# Routing from the key to the node

`routed_to_owner` follows a key through the whole library: the numerals parsed by
`dynoc_add_node`, the sort and the renumbering of `dynoc_start`, the pairing of elements and
connections by position, the hash and the search. The connection chosen in a rack is the one
dialled to the node that owns the hash on the ring of the rack's tokens, and in every state that a
run reaches the context it holds was opened by a connect to this node.
-/

namespace DynocClient

open Lib

/-! ## Tokens on the ring -/

/-- The search token stands for the hash of the key. -/
theorem search_token_key (hashFunc : HashFunc) (key : CString) :
    (searchToken hashFunc key).key = ringKey (hashFunc key.bytes).toNat :=
  token_set_int_key tokenInit (hashFunc key.bytes)

/-- The node's token string is a canonical numeral of a 32-bit number. -/
def Node.HasToken (node : Node) (value : Nat) : Prop :=
  node.tokenStr.IsNumeral value ∧ value < 2 ^ 32

/-- The token of a node stands for its value. -/
theorem Node.HasToken.key {node : Node} {value : Nat} (h : node.HasToken value) :
    node.token.key = ringKey value := by
  have hparse := token_parse_set_int h.1 h.2
  have hword : (UInt32.ofNat value).toNat = value := UInt32.toNat_ofNat_of_lt' h.2
  simp only [Node.token, hparse, token_set_int_key, hword]

/-! ## Filling a rack -/

/-- The node, if the call adds one to the racks of the name. -/
def SetupCall.nodeFor (dcType : DcType) (name : CString) : SetupCall → Option Node
  | .addNode node rcName dcType' =>
      if rcName = name ∧ dcType' = dcType then some node else none
  | _ => none

/-- A rack of this size and name to which these nodes have been added. -/
def filledRack (nodeCount : UInt32) (name : CString) (nodes : List Node) : Rack :=
  { name := some name, nodeCount, ncontinuum := UInt32.ofNat nodes.length
    continuum := nodes.mapIdx fun i node => node.element (UInt32.ofNat i) }

/-- As long as there is room, the next node goes to the end. -/
theorem filled_rack_add {nodeCount : UInt32} {name : CString} {nodes : List Node} (node : Node)
    (hroom : nodes.length < nodeCount.toNat) :
    (filledRack nodeCount name nodes).addNode node name =
      filledRack nodeCount name (nodes ++ [node]) := by
  have hbound := nodeCount.toNat_lt
  have hcounted : (filledRack nodeCount name nodes).Counted := by
    show (UInt32.ofNat nodes.length).toNat = (nodes.mapIdx _).length
    rw [UInt32.toNat_ofNat', Nat.mod_eq_of_lt (by omega), List.length_mapIdx]
  have hcontinuum : ((filledRack nodeCount name nodes).addNode node name).continuum =
      (filledRack nodeCount name (nodes ++ [node])).continuum := by
    rw [hcounted.add_node_continuum rfl]
    exact List.mapIdx_concat.symm
  have hncontinuum : ((filledRack nodeCount name nodes).addNode node name).ncontinuum =
      (filledRack nodeCount name (nodes ++ [node])).ncontinuum := by
    rw [Rack.add_node_of_name rfl]
    show UInt32.ofNat nodes.length + 1 = UInt32.ofNat (nodes ++ [node]).length
    rw [List.length_append]
    exact (UInt32.ofNat_add _ _).symm
  rw [Rack.add_node_of_name rfl] at hcontinuum hncontinuum ⊢
  exact Rack.mk.injEq .. |>.mpr ⟨rfl, rfl, hncontinuum, hcontinuum⟩

/-- Nodes within capacity fill a rack in their order. -/
theorem filled_rack_foldl {nodeCount : UInt32} {name : CString} (nodes : List Node)
    (hroom : nodes.length ≤ nodeCount.toNat) :
    nodes.foldl (fun rack node => rack.addNode node name) (initRack nodeCount name) =
      filledRack nodeCount name nodes := by
  induction nodes using List.reverseRecOn with
  | nil => rfl
  | append_singleton nodes node ih =>
      rw [List.length_append] at hroom
      have hlt : nodes.length < nodeCount.toNat := hroom
      rw [List.foldl_append, ih hlt.le]
      exact filled_rack_add node hlt

/-- What a call of the script does to a rack that has its name. -/
theorem setup_step_rack {client next : Client} {call : SetupCall} {dcType : DcType}
    {dc : Datacenter} {r : Nat} {rack : Rack} {name : CString}
    (hdc : client.dynoc.dc dcType = some dc) (hrack : dc.rack[r]? = some rack)
    (hname : rack.name = some name) (hstep : setupStep client call = some next) :
    ∃ dc', next.dynoc.dc dcType = some dc' ∧
      dc'.rack[r]? = some ((call.nodeFor dcType name).elim rack (rack.addNode · name)) := by
  rcases setup_step_cases hstep with ⟨rfl, hcall⟩ | ⟨_, _, other, rfl, hnone, rfl⟩ |
    ⟨nodeCount, rcName, other, found, i, rfl, hfound, hfirst, rfl⟩ |
    ⟨node, rcName, other, found, rfl, hfound, rfl⟩
  · have hnodeFor : call.nodeFor dcType name = none := by
      cases call with
      | addNode node rcName other => exact absurd rfl (hcall node rcName other)
      | datacenterInit | rackInit => rfl
    exact ⟨dc, hdc, by rw [hnodeFor]; exact hrack⟩
  · have hother : dcType ≠ other := by
      rintro rfl
      simp [hdc] at hnone
    exact ⟨dc, by rw [Client.with_dc_other _ _ hother, hdc], hrack⟩
  · by_cases hother : dcType = other
    · subst hother
      obtain rfl : dc = found := Option.some.inj (hdc.symm.trans hfound)
      refine ⟨_, Client.with_dc_same _ _ _, ?_⟩
      -- the rack that gets the name had none
      have hne : i ≠ r := by
        rintro rfl
        obtain ⟨hlt, hisNone, -⟩ := List.findIdx?_eq_some_iff_getElem.mp hfirst
        rw [List.getElem?_eq_getElem hlt] at hrack
        cases hrack
        simp [hname] at hisNone
      show (dc.rack.set i _)[r]? = _
      rw [List.getElem?_set_ne hne]
      exact hrack
    · exact ⟨dc, by rw [← hdc]; exact Client.with_dc_other _ _ hother, hrack⟩
  · by_cases hother : dcType = other
    · subst hother
      obtain rfl : dc = found := Option.some.inj (hdc.symm.trans hfound)
      refine ⟨_, Client.with_dc_same _ _ _, ?_⟩
      show (dc.rack.map _)[r]? = _
      rw [List.getElem?_map, hrack, Option.map_some]
      by_cases hrcName : rcName = name
      · simp [SetupCall.nodeFor, hrcName]
      · have hne : rack.name ≠ some rcName := by
          rw [hname]
          exact fun h => hrcName (Option.some.inj h).symm
        simp [SetupCall.nodeFor, hrcName, Rack.add_node_of_ne hne]
    · have hne : ¬ other = dcType := fun h => hother h.symm
      refine ⟨dc, by rw [Client.with_dc_other _ _ hother, hdc], ?_⟩
      simpa [SetupCall.nodeFor, hne] using hrack

/-- A script fills a rack with the nodes of its own calls, in their order. -/
theorem setup_run_rack {client final : Client} {calls : List SetupCall} {dcType : DcType}
    {dc : Datacenter} {r : Nat} {rack : Rack} {name : CString}
    (hdc : client.dynoc.dc dcType = some dc) (hrack : dc.rack[r]? = some rack)
    (hname : rack.name = some name) (hrun : runFrom setupStep client calls = some final) :
    ∃ dc', final.dynoc.dc dcType = some dc' ∧
      dc'.rack[r]? = some ((calls.filterMap (SetupCall.nodeFor dcType name)).foldl
        (fun rack node => rack.addNode node name) rack) := by
  induction calls generalizing client dc rack with
  | nil =>
      cases hrun
      exact ⟨dc, hdc, hrack⟩
  | cons call calls ih =>
      obtain ⟨next, hstep, hrest⟩ := run_from_cons.mp hrun
      obtain ⟨dc', hdc', hrack'⟩ := setup_step_rack hdc hrack hname hstep
      cases hnode : call.nodeFor dcType name with
      | none =>
          rw [hnode] at hrack'
          obtain ⟨last, hlast, hfilled⟩ := ih hdc' hrack' hname hrest
          exact ⟨last, hlast, by rw [List.filterMap_cons_none hnode]; exact hfilled⟩
      | some node =>
          rw [hnode] at hrack'
          obtain ⟨last, hlast, hfilled⟩ :=
            ih hdc' hrack' (by rw [Option.elim, Rack.add_node_name, hname]) hrest
          exact ⟨last, hlast, by rw [List.filterMap_cons_some hnode]; exact hfilled⟩

/-! ## The rack after `dynoc_start` -/

section Owner

variable (qsort : Qsort Continuum) {nodeCount : UInt32} (name : CString) {nodes : List Node}

/-- A filled rack counts its nodes. -/
theorem filled_rack_count (hroom : nodes.length ≤ nodeCount.toNat) :
    (filledRack nodeCount name nodes).ncontinuum.toNat = nodes.length := by
  have hbound := nodeCount.toNat_lt
  show (UInt32.ofNat nodes.length).toNat = nodes.length
  rw [UInt32.toNat_ofNat', Nat.mod_eq_of_lt (by omega)]

/-- A filled rack has an element for each node it counts. -/
theorem filled_rack_filled (hroom : nodes.length ≤ nodeCount.toNat) :
    (filledRack nodeCount name nodes).Filled := by
  unfold Rack.Filled
  rw [filled_rack_count name hroom]
  exact List.length_mapIdx.ge

/-- After the sort the elements are still those of the nodes. -/
theorem mem_sorted_iff (hroom : nodes.length ≤ nodeCount.toNat) {element : Continuum} :
    element ∈ (filledRack nodeCount name nodes).sorted qsort ↔
      ∃ i, ∃ h : i < nodes.length, nodes[i].element (UInt32.ofNat i) = element := by
  have htake : (filledRack nodeCount name nodes).continuum.take nodes.length =
      (filledRack nodeCount name nodes).continuum :=
    List.take_of_length_le List.length_mapIdx.le
  rw [((filledRack nodeCount name nodes).sorted_perm qsort).mem_iff, filled_rack_count name hroom,
    htake]
  exact List.mem_mapIdx

/-- The token and the endpoint are those of the node. -/
def Continuum.StandsFor (element : Continuum) (node : Node) : Prop :=
  element.token = node.token ∧ element.endpoint = node.endpoint

/-- Every element stands for a node. -/
theorem element_stands_for (hroom : nodes.length ≤ nodeCount.toNat)
    (i : Fin (filledRack nodeCount name nodes).ncontinuum.toNat) :
    ∃ node ∈ nodes, ((filled_rack_filled name hroom).element qsort i).StandsFor node := by
  obtain ⟨k, hk, heq⟩ := (mem_sorted_iff qsort name hroom).mp (List.get_mem
    ((filledRack nodeCount name nodes).sorted qsort)
    (i.cast ((filled_rack_filled name hroom).sorted_length qsort).symm))
  refine ⟨nodes[k], List.getElem_mem hk, ?_, ?_⟩
  · exact congrArg Continuum.token heq.symm
  · exact congrArg Continuum.endpoint heq.symm

/-- Every node has an element that stands for it. -/
theorem node_stands (hroom : nodes.length ≤ nodeCount.toNat) {node : Node} (h : node ∈ nodes) :
    ∃ i, ((filled_rack_filled name hroom).element qsort i).StandsFor node := by
  obtain ⟨k, hk, rfl⟩ := List.getElem_of_mem h
  obtain ⟨i, heq⟩ := List.get_of_mem
    ((mem_sorted_iff qsort name hroom).mpr ⟨k, hk, rfl⟩)
  refine ⟨i.cast ((filled_rack_filled name hroom).sorted_length qsort), ?_, ?_⟩
  · exact congrArg Continuum.token heq
  · exact congrArg Continuum.endpoint heq

variable {value : Node → Nat}

/-- The keys of the elements are those of the nodes' values. -/
theorem range_key_eq (hroom : nodes.length ≤ nodeCount.toNat)
    (hvalue : ∀ node ∈ nodes, node.HasToken (value node)) :
    (Set.range fun i =>
        ((filled_rack_filled name hroom).element qsort i).token.key) =
      Set.image ringKey {v | ∃ node ∈ nodes, value node = v} := by
  ext key
  constructor
  · intro h
    obtain ⟨i, rfl⟩ := h
    obtain ⟨node, hnode, hstands⟩ := element_stands_for qsort name hroom i
    refine ⟨value node, ⟨node, hnode, rfl⟩, ?_⟩
    rw [← (hvalue node hnode).key, ← hstands.1]
  · intro h
    obtain ⟨_, ⟨node, hnode, rfl⟩, rfl⟩ := h
    obtain ⟨i, hstands⟩ := node_stands qsort name hroom hnode
    refine ⟨i, ?_⟩
    rw [← (hvalue node hnode).key, ← hstands.1]

/-- The search finds the element of the node that owns the hash. -/
theorem select_owner (hroom : nodes.length ≤ nodeCount.toNat) (hpos : 0 < nodes.length)
    (hvalue : ∀ node ∈ nodes, node.HasToken (value node)) (hashFunc : HashFunc)
    (key : CString) :
    ∃ index element node, node ∈ nodes ∧
      selectContinuum (sortContinuum qsort (filledRack nodeCount name nodes)).continuum
        (sortContinuum qsort (filledRack nodeCount name nodes)).ncontinuum
        (searchToken hashFunc key) = .ok index ∧
      index.toNat < nodes.length ∧
      (sortContinuum qsort (filledRack nodeCount name nodes)).continuum[index.toNat]? =
        some element ∧
      element.endpoint = node.endpoint ∧
      IsOwner {v | ∃ node ∈ nodes, value node = v} (hashFunc key.bytes).toNat (value node) := by
  have hfilled : (filledRack nodeCount name nodes).Filled := filled_rack_filled name hroom
  have hcount : (filledRack nodeCount name nodes).ncontinuum.toNat = nodes.length :=
    filled_rack_count name hroom
  obtain ⟨i, hselect, howner⟩ := select_continuum_spec (hfilled.get_sorted qsort)
    (searchToken hashFunc key) (by rw [hcount]; exact hpos)
  obtain ⟨node, hnode, hstands⟩ := element_stands_for qsort name hroom i
  have hindex : (hfilled.element qsort i).index.toNat = i.val := hfilled.element_index qsort i
  have hkey : (hfilled.element qsort i).token.key = ringKey (value node) := by
    rw [hstands.1, (hvalue node hnode).key]
  have hring := howner (hfilled.element_monotone qsort)
  rw [range_key_eq qsort name hroom hvalue, hkey, search_token_key,
    is_owner_image ring_key_strict_mono] at hring
  refine ⟨_, hfilled.element qsort i, node, hnode, hselect, ?_, ?_, hstands.2, hring⟩
  · rw [hindex, ← hcount]
    exact i.isLt
  · rw [hindex]
    exact hfilled.get_sorted qsort i

end Owner

/-! ## From the key to the node -/

/-- In its rack a key is served by this connection, and the connection is to this endpoint: no
call for the key returns another one of the rack, `dynoc_start` and every reconnect pass connect
the slot to this endpoint and no other, and from then on the context in the slot is one that was
opened to this endpoint, whatever commands and passes do. -/
structure Serves (started : Dynoc × World) (key : CString) (slot : Slot) (endpoint : Endpoint) :
    Prop where
  offered : ∀ cursor dc, Visited started.1 key cursor →
    nextRack started.1 cursor = some (slot.dcType, dc, slot.rack) →
    ∃ next, selectConnection started.1 key cursor = .ok (some slot, next)
  only : ∀ cursor found next, Visited started.1 key cursor →
    selectConnection started.1 key cursor = .ok (some found, next) →
    found.place = slot.place → found = slot
  dialled : ∀ other, (slot, other) ∈ started.2.connects ↔ other = endpoint
  turn : ∀ dc, started.1.dc slot.dcType = some dc →
    ∀ other, (slot, other) ∈ dc.reconnectTargets slot.dcType ↔ other = endpoint
  redialled : ∀ dc, started.1.dc slot.dcType = some dc → ∀ outcomes world, ∃ dialled,
    (reconnectDatacenter outcomes slot.dcType dc world).connects = world.connects ++ dialled ∧
      ∀ other, (slot, other) ∈ dialled → other = endpoint
  connected : ∀ system, Reachable (systemStep started.1) (.start started.2) system →
    system.world.ConnectedTo slot endpoint

section Serves

variable {started : Dynoc × World} {hashFunc : HashFunc} {dcType : DcType} {dc : Datacenter}
  {r : Nat} {rack : Rack} {key : CString} {index : UInt32} {element : Continuum}

/-- `dynoc_start` dials the connection at a position of a rack to the endpoint of the element. -/
theorem pool_target_iff {j : Nat} {other : Endpoint} (hdc : started.1.dc dcType = some dc)
    (hrack : dc.rack[r]? = some rack) (hcount : j < rack.ncontinuum.toNat)
    (helement : rack.continuum[j]? = some element) :
    (⟨dcType, r, j⟩, other) ∈ started.1.poolTargets dcType ↔ other = element.endpoint := by
  simp [mem_pool_targets, hdc, hrack, hcount, helement, eq_comm]

/-- The connection at a position of a rack serves a key if the search returns the position. -/
theorem serves_of_select (hhash : started.1.hashFunc = some hashFunc)
    (hdc : started.1.dc dcType = some dc) (hrack : dc.rack[r]? = some rack)
    (hselect : selectContinuum rack.continuum rack.ncontinuum (searchToken hashFunc key) =
      .ok index)
    (hcount : index.toNat < rack.ncontinuum.toNat) (hroom : index.toNat < rack.nodeCount.toNat)
    (helement : rack.continuum[index.toNat]? = some element)
    (hconnects : started.2.connects =
      started.1.poolTargets .localDc ++ started.1.poolTargets .remoteDc)
    (hconnected : started.2.ConnectedTo ⟨dcType, r, index.toNat⟩ element.endpoint) :
    Serves started key ⟨dcType, r, index.toNat⟩ element.endpoint := by
  have hpool : ∀ other,
      (⟨dcType, r, index.toNat⟩, other) ∈ started.1.poolTargets dcType ↔
        other = element.endpoint := fun other => pool_target_iff hdc hrack hcount helement
  have hturn : ∀ other, (⟨dcType, r, index.toNat⟩, other) ∈ dc.reconnectTargets dcType ↔
      other = element.endpoint := by
    intro other
    simp [mem_reconnect_targets, hrack, hroom, Rack.endpointAt, helement]
  have hturns : ∀ found, started.1.dc dcType = some found → ∀ other,
      (⟨dcType, r, index.toNat⟩, other) ∈ found.reconnectTargets dcType ↔
        other = element.endpoint := by
    intro found hfound
    obtain rfl : dc = found := Option.some.inj (hdc.symm.trans hfound)
    exact hturn
  refine ⟨?_, ?_, ?_, hturns, ?_, fun system hreach => ?_⟩
  · intro cursor found hvisited hnext
    obtain rfl : dc = found := Option.some.inj (hdc.symm.trans (next_rack_lt hnext).1)
    have hcall := select_connection_eq hhash
      (key_token_eq hashFunc key (visited_scratch hvisited))
    rw [hnext] at hcall
    simp only [offerRack, hrack, hselect, bind, Except.bind, pure, Except.pure] at hcall
    exact ⟨_, hcall⟩
  · intro cursor found next hvisited hcall hplace
    obtain ⟨hashFunc', token, dcType', dc', i, rack', index', hhash', htoken, hnext, hrack',
      hselect', rfl, -⟩ := select_connection_some hcall
    obtain ⟨rfl, rfl⟩ : dcType' = dcType ∧ i = r := Prod.mk.inj hplace
    obtain rfl : hashFunc = hashFunc' := Option.some.inj (hhash.symm.trans hhash')
    rw [key_token_eq hashFunc key (visited_scratch hvisited)] at htoken
    obtain rfl := Except.ok.inj htoken
    obtain rfl : dc = dc' := Option.some.inj (hdc.symm.trans (next_rack_lt hnext).1)
    obtain rfl : rack = rack' := Option.some.inj (hrack.symm.trans hrack')
    rw [hselect] at hselect'
    rw [Except.ok.inj hselect']
  · intro other
    rw [hconnects, List.mem_append, ← hpool]
    cases dcType with
    | localDc => simp [mem_pool_targets]
    | remoteDc => simp [mem_pool_targets]
  · intro found hfound outcomes world
    obtain ⟨dialled, hsub, hpass⟩ :=
      reconnect_all_connects outcomes (found.reconnectTargets dcType) .valid world
    exact ⟨dialled, hpass, fun other hmem => (hturns found hfound other).mp (hsub.subset hmem)⟩
  · exact hconnected.run (fun found hfound other => (hturns found hfound other).mp) hreach

end Serves

/-- In a rack that was made empty and then filled, every key is served by the connection to a node
that owns the key's hash. -/
theorem owner_serves {conn : Slot → RedisConnection} {setup fill : List SetupCall}
    {client filled : Client} (hsetup : runFrom setupStep (dynocInit conn) setup = some client)
    (hfill : runFrom setupStep client fill = some filled)
    {dcType : DcType} {dc : Datacenter} {r : Nat} {nodeCount : UInt32} {name : CString}
    (hdc : client.dynoc.dc dcType = some dc)
    (hrack : dc.rack[r]? = some (initRack nodeCount name))
    {nodes : List Node} (hnodes : fill.filterMap (SetupCall.nodeFor dcType name) = nodes)
    (hpos : 1 ≤ nodes.length) (hroom : nodes.length ≤ nodeCount.toNat)
    {value : Node → Nat} (hvalue : ∀ node ∈ nodes, node.HasToken (value node))
    (hashAlgos : HashType → HashFunc) (qsort : Qsort Continuum) (dials : Slot → Dial)
    (key : CString) :
    ∃ node ∈ nodes, ∃ j < nodeCount.toNat,
      IsOwner {v | ∃ node ∈ nodes, value node = v}
        (hashAlgos filled.dynoc.hashType key.bytes).toNat (value node) ∧
      Serves (dynocStart hashAlgos qsort dials filled) key ⟨dcType, r, j⟩ node.endpoint := by
  have hreach : Reachable setupStep (dynocInit conn) filled := by
    refine ⟨setup ++ fill, ?_⟩
    rw [run_from_append, hsetup]
    exact hfill
  have hhash : (dynocStart hashAlgos qsort dials filled).1.hashFunc =
      some (hashAlgos filled.dynoc.hashType) := by
    rw [dynoc_start_hash_func, getHashFunc, hash_type_reachable hreach]
    rfl
  obtain ⟨dc', hdc', hfilled⟩ := setup_run_rack hdc hrack rfl hfill
  rw [hnodes, filled_rack_foldl nodes hroom] at hfilled
  have hstartDc := dynoc_start_some hashAlgos qsort dials filled dcType hdc'
  have hstartRack : (dc'.start qsort).rack[r]? =
      some (sortContinuum qsort (filledRack nodeCount name nodes)) := by
    show (dc'.rack.map _)[r]? = _
    rw [List.getElem?_map, hfilled]
    rfl
  obtain ⟨index, element, node, hnode, hselect, hlt, helement, hendpoint, howner⟩ :=
    select_owner qsort name hroom hpos hvalue (hashAlgos filled.dynoc.hashType) key
  have hcount : (filledRack nodeCount name nodes).ncontinuum.toNat = nodes.length :=
    filled_rack_count name hroom
  have hsorted : index.toNat <
      (sortContinuum qsort (filledRack nodeCount name nodes)).ncontinuum.toNat := by
    rwa [sort_continuum_ncontinuum, hcount]
  have hslot : index.toNat < nodeCount.toNat := Nat.lt_of_lt_of_le hlt hroom
  refine ⟨node, hnode, index.toNat, hslot, howner, ?_⟩
  rw [← hendpoint]
  refine serves_of_select hhash hstartDc hstartRack hselect hsorted hslot helement
    (dynoc_start_connects hashAlgos qsort dials filled) ?_
  exact dynoc_start_connected (fresh_slots_reachable hreach) hashAlgos qsort dials
    ⟨_, _, hstartDc, hstartRack, hslot⟩
    fun other hother => (pool_target_iff hstartDc hstartRack hsorted helement).mp hother

/-- Fill a rack, from the moment `dynoc_rack_init` has made it, with nodes of distinct numerals,
in any order and between any other calls, and start the client. Every key is served in this
rack by the connection to the one node that owns the key's hash on the ring of the nodes'
values. -/
theorem routed_to_owner {conn : Slot → RedisConnection} {setup fill : List SetupCall}
    {client filled : Client} (hsetup : runFrom setupStep (dynocInit conn) setup = some client)
    (hfill : runFrom setupStep client fill = some filled)
    {dcType : DcType} {dc : Datacenter} {r : Nat} {nodeCount : UInt32} {name : CString}
    (hdc : client.dynoc.dc dcType = some dc)
    (hrack : dc.rack[r]? = some (initRack nodeCount name))
    {nodes : List Node} (hnodes : fill.filterMap (SetupCall.nodeFor dcType name) = nodes)
    (hpos : 1 ≤ nodes.length) (hroom : nodes.length ≤ nodeCount.toNat)
    {value : Node → Nat} (hvalue : ∀ node ∈ nodes, node.HasToken (value node))
    (hdistinct : (nodes.map value).Nodup)
    (hashAlgos : HashType → HashFunc) (qsort : Qsort Continuum) (dials : Slot → Dial)
    (key : CString) :
    ∃ node ∈ nodes, ∃ j < nodeCount.toNat,
      (∀ other ∈ nodes,
        IsOwner {v | ∃ node ∈ nodes, value node = v}
          (hashAlgos filled.dynoc.hashType key.bytes).toNat (value other) ↔ other = node) ∧
      Serves (dynocStart hashAlgos qsort dials filled) key ⟨dcType, r, j⟩ node.endpoint := by
  obtain ⟨node, hnode, j, hj, howner, hserves⟩ := owner_serves hsetup hfill hdc hrack hnodes hpos
    hroom hvalue hashAlgos qsort dials key
  refine ⟨node, hnode, j, hj, fun other hother => ⟨fun h => ?_, ?_⟩, hserves⟩
  · exact List.inj_on_of_nodup_map hdistinct hother hnode (h.unique howner)
  · rintro rfl
    exact howner

/-- A rack of three nodes in no order. -/
def routedNodes : List Node :=
  ["2863311530", "0", "4294967295"].map fun token =>
    ⟨.ofAscii "113.107.149.188", 6501, none, .ofAscii token⟩

/-- The calls that make it. -/
def routedSetup : List SetupCall :=
  [.datacenterInit true 1 (.ofAscii "local_dc") .localDc,
    .rackInit 3 (.ofAscii "rack1") .localDc]

/-- The client with the rack still empty. -/
def emptyRackClient : Client :=
  (runFrom setupStep (dynocInit fun _ => ⟨.invalid, none⟩) routedSetup).get (by decide +kernel)

/-- The calls that fill it. -/
def routedFill : List SetupCall :=
  routedNodes.map fun node => .addNode node (.ofAscii "rack1") .localDc

/-- The client with the nodes in. -/
def routedClient : Client :=
  (runFrom setupStep emptyRackClient routedFill).get (by decide +kernel)

/-- One of three nodes owns the hash of a key, and the client serves the key there. -/
theorem routed_three_nodes :
    ∃ node ∈ routedNodes, ∃ j < (3 : UInt32).toNat,
      (∀ other ∈ routedNodes,
        IsOwner {v | ∃ node ∈ routedNodes, decimalFrom 0 node.tokenStr.bytes = v}
          (1 : UInt32).toNat (decimalFrom 0 other.tokenStr.bytes) ↔ other = node) ∧
      Serves (dynocStart (fun _ _ => 1) (.insertion Continuum) (authDials .data) routedClient)
        (.ofAscii "key") ⟨.localDc, 0, j⟩ node.endpoint := by
  have hsetup : runFrom setupStep (dynocInit fun _ => ⟨.invalid, none⟩) routedSetup =
      some emptyRackClient := (Option.some_get _).symm
  have hfill : runFrom setupStep emptyRackClient routedFill = some routedClient :=
    (Option.some_get _).symm
  have hdc : emptyRackClient.dynoc.dc .localDc =
      some ((emptyRackClient.dynoc.dc .localDc).get (by decide +kernel)) :=
    (Option.some_get _).symm
  have hrack : ((emptyRackClient.dynoc.dc .localDc).get (by decide +kernel)).rack[0]? =
      some (initRack 3 (.ofAscii "rack1")) := by decide +kernel
  have hnodes : routedFill.filterMap (SetupCall.nodeFor .localDc (.ofAscii "rack1")) =
      routedNodes := by decide +kernel
  have hnumeral : ∀ node ∈ routedNodes,
      node.HasToken (decimalFrom 0 node.tokenStr.bytes) := by
    intro node hnode
    refine ⟨⟨?_, ?_, ?_, rfl⟩, ?_⟩ <;> revert node <;> decide +kernel
  exact routed_to_owner hsetup hfill hdc hrack hnodes (by decide) (by decide) hnumeral
    (by decide +kernel) (fun _ _ => 1) (.insertion Continuum) (authDials .data) (.ofAscii "key")

end DynocClient
