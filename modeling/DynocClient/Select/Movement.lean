import DynocClient.Select.Routing

/-!
# Adding a node

Two clients, one with a rack of some nodes and one with a rack of the same nodes and a new one,
send a key to the same node unless the new node takes it, and it takes the keys whose hash lies
in the arc that ends at its token (`key_movement`).
-/

namespace DynocClient

open Lib

/-- The client was set up from the start, and its rack at this place was made empty and filled
with these nodes, in this order and between any other calls. -/
def Client.RackFilled (filled : Client) (dcType : DcType) (r : Nat) (nodes : List Node) : Prop :=
  ∃ (conn : Slot → RedisConnection) (setup fill : List SetupCall) (client : Client)
    (dc : Datacenter) (nodeCount : UInt32) (name : CString),
    runFrom setupStep (dynocInit conn) setup = some client ∧
    runFrom setupStep client fill = some filled ∧
    client.dynoc.dc dcType = some dc ∧
    dc.rack[r]? = some (initRack nodeCount name) ∧
    fill.filterMap (SetupCall.nodeFor dcType name) = nodes ∧
    nodes.length ≤ nodeCount.toNat

/-- The values of the nodes' tokens. -/
def valuesOf (value : Node → Nat) (nodes : List Node) : Set Nat :=
  {v | ∃ node ∈ nodes, value node = v}

/-- A filled rack serves every key at the owner of its hash. -/
theorem Client.RackFilled.serves {filled : Client} {dcType : DcType} {r : Nat}
    {nodes : List Node} (h : filled.RackFilled dcType r nodes) (hpos : 1 ≤ nodes.length)
    {value : Node → Nat} (hvalue : ∀ node ∈ nodes, node.HasToken (value node))
    (hashAlgos : HashType → HashFunc) (qsort : Qsort Continuum) (dials : Slot → Dial)
    (key : CString) :
    ∃ node ∈ nodes, ∃ j,
      IsOwner (valuesOf value nodes) (hashAlgos filled.dynoc.hashType key.bytes).toNat
        (value node) ∧
      Serves (dynocStart hashAlgos qsort dials filled) key ⟨dcType, r, j⟩ node.endpoint := by
  obtain ⟨conn, setup, fill, client, dc, nodeCount, name, hsetup, hfill, hdc, hrack, hnodes,
    hroom⟩ := h
  obtain ⟨node, hnode, j, -, howner, hserves⟩ := owner_serves hsetup hfill hdc hrack hnodes hpos
    hroom hvalue hashAlgos qsort dials key
  exact ⟨node, hnode, j, howner, hserves⟩

section Movement

variable {nodes nodes' : List Node} {new : Node} {value : Node → Nat}

/-- A node added to a rack adds its value. -/
theorem values_insert (hperm : nodes'.Perm (new :: nodes)) :
    valuesOf value nodes' = insert (value new) (valuesOf value nodes) := by
  ext v
  simp only [valuesOf, Set.mem_ofPred_eq, Set.mem_insert_iff, hperm.mem_iff, List.mem_cons]
  constructor
  · intro hcase
    obtain ⟨node, rfl | hnode, rfl⟩ := hcase
    · exact .inl rfl
    · exact .inr ⟨node, hnode, rfl⟩
  · intro hcase
    obtain rfl | ⟨node, hnode, rfl⟩ := hcase
    · exact ⟨new, .inl rfl, rfl⟩
    · exact ⟨node, .inr hnode, rfl⟩

/-- A rack has finitely many values. -/
theorem values_finite (value : Node → Nat) (nodes : List Node) :
    (valuesOf value nodes).Finite := by
  have himage : valuesOf value nodes = Set.image value {node | node ∈ nodes} := rfl
  rw [himage]
  exact (List.finite_toSet nodes).image value

/-- Set up one client with some nodes and another one with the same nodes and a new one, each in
any order, where all tokens are numerals of different 32-bit numbers. A key is served by the same
node in both, or by the new node in the second; and by the new node exactly if its hash lies
after the token before the new one on the ring and up to the new one. The endpoint is then the
new node's; otherwise it stays what it was. -/
theorem key_movement {filled filled' : Client} {dcType dcType' : DcType} {r r' : Nat}
    (h : filled.RackFilled dcType r nodes) (h' : filled'.RackFilled dcType' r' nodes')
    (hperm : nodes'.Perm (new :: nodes)) (hpos : 1 ≤ nodes.length)
    (hvalue : ∀ node ∈ nodes', node.HasToken (value node))
    (hdistinct : (nodes'.map value).Nodup) (hashAlgos : HashType → HashFunc)
    (hhash : filled'.dynoc.hashType = filled.dynoc.hashType) (qsort qsort' : Qsort Continuum)
    (dials dials' : Slot → Dial) (key : CString) :
    ∃ before ∈ nodes, ∃ after ∈ nodes', ∃ pred ∈ nodes, ∃ j j',
      Serves (dynocStart hashAlgos qsort dials filled) key ⟨dcType, r, j⟩ before.endpoint ∧
      Serves (dynocStart hashAlgos qsort' dials' filled') key ⟨dcType', r', j'⟩ after.endpoint ∧
      (after = before ∨ after = new) ∧
      IsPredecessor (valuesOf value nodes) (value new) (value pred) ∧
      (after = new ↔ InArc (value pred) (value new)
        (hashAlgos filled.dynoc.hashType key.bytes).toNat) ∧
      (after.endpoint = new.endpoint ↔ InArc (value pred) (value new)
        (hashAlgos filled.dynoc.hashType key.bytes).toNat ∨ before.endpoint = new.endpoint) := by
  have hsub : ∀ node ∈ nodes, node ∈ nodes' := fun node hnode =>
    hperm.mem_iff.mpr (List.mem_cons_of_mem _ hnode)
  have hnew : new ∈ nodes' := hperm.mem_iff.mpr List.mem_cons_self
  obtain ⟨before, hbefore, j, howner, hserves⟩ :=
    h.serves hpos (fun node hnode => hvalue node (hsub node hnode)) hashAlgos qsort dials key
  obtain ⟨after, hafter, j', howner', hserves'⟩ :=
    h'.serves (List.length_pos_of_mem hnew) hvalue hashAlgos qsort' dials' key
  rw [values_insert hperm, hhash] at howner'
  obtain ⟨_, hpred⟩ := exists_predecessor (values_finite value nodes)
    ⟨value before, before, hbefore, rfl⟩ (value new)
  obtain ⟨pred, hmem, rfl⟩ := hpred.1
  have hinj : ∀ node ∈ nodes', ∀ other ∈ nodes', value node = value other → node = other :=
    fun node hnode other hother heq => List.inj_on_of_nodup_map hdistinct hnode hother heq
  -- who is not the new node was the owner before
  have hstay : after ≠ new → after = before := by
    intro hne
    have hold := howner'.of_insert fun heq => hne (hinj after hafter new hnew heq)
    exact hinj after hafter before (hsub before hbefore) (hold.unique howner)
  have harc : after = new ↔ InArc (value pred) (value new)
      (hashAlgos filled.dynoc.hashType key.bytes).toNat := by
    rw [← is_owner_insert_iff hpred]
    constructor
    · rintro rfl
      exact howner'
    · exact fun hown => hinj after hafter new hnew (howner'.unique hown)
  refine ⟨before, hbefore, after, hafter, pred, hmem, j, j', hserves, hserves', ?_, hpred, harc,
    ?_⟩
  · exact (em (after = new)).symm.imp_left hstay
  · rw [← harc]
    by_cases hcase : after = new
    · simp [hcase]
    · obtain rfl := hstay hcase
      simp [hcase]

end Movement

/-- One more node for the rack of three. -/
def addedNode : Node :=
  ⟨.ofAscii "113.107.149.189", 6501, none, .ofAscii "1431655765"⟩

/-- The second client has a larger rack, filled the other way round. -/
def movedSetup : List SetupCall :=
  [.datacenterInit true 1 (.ofAscii "local_dc") .localDc,
    .rackInit 4 (.ofAscii "rack1") .localDc]

/-- The client with that rack still empty. -/
def movedEmpty : Client :=
  (runFrom setupStep (dynocInit fun _ => ⟨.invalid, none⟩) movedSetup).get (by decide +kernel)

/-- The calls that add the nodes, the new one first and the others the other way round. -/
def movedFill : List SetupCall :=
  (routedNodes ++ [addedNode]).reverse.map fun node =>
    .addNode node (.ofAscii "rack1") .localDc

/-- The client with the nodes in. -/
def movedClient : Client := (runFrom setupStep movedEmpty movedFill).get (by decide +kernel)

/-- The client with three nodes is filled by them. -/
theorem routed_filled : routedClient.RackFilled .localDc 0 routedNodes := by
  refine ⟨fun _ => ⟨.invalid, none⟩, routedSetup, routedFill, emptyRackClient,
    (emptyRackClient.dynoc.dc .localDc).get (by decide +kernel), 3, .ofAscii "rack1",
    (Option.some_get _).symm, (Option.some_get _).symm, (Option.some_get _).symm, ?_, ?_, ?_⟩ <;>
    decide +kernel

/-- The client with four nodes is filled by them, in the reverse order. -/
theorem moved_filled :
    movedClient.RackFilled .localDc 0 (routedNodes ++ [addedNode]).reverse := by
  refine ⟨fun _ => ⟨.invalid, none⟩, movedSetup, movedFill, movedEmpty,
    (movedEmpty.dynoc.dc .localDc).get (by decide +kernel), 4, .ofAscii "rack1",
    (Option.some_get _).symm, (Option.some_get _).symm, (Option.some_get _).symm, ?_, ?_, ?_⟩ <;>
    decide +kernel

/-- A fourth node takes a key over exactly if its hash lies in the arc in front of it. -/
theorem key_movement_four :
    ∃ before ∈ routedNodes, ∃ after ∈ (routedNodes ++ [addedNode]).reverse,
      ∃ pred ∈ routedNodes, ∃ j j',
      Serves (dynocStart (fun _ _ => 7) (.insertion Continuum) (authDials .data) routedClient)
        (.ofAscii "key") ⟨.localDc, 0, j⟩ before.endpoint ∧
      Serves (dynocStart (fun _ _ => 7) (.insertion Continuum) (authDials .data) movedClient)
        (.ofAscii "key") ⟨.localDc, 0, j'⟩ after.endpoint ∧
      (after = addedNode ↔ InArc (decimalFrom 0 pred.tokenStr.bytes) 1431655765 7) := by
  have hnumeral : ∀ node ∈ (routedNodes ++ [addedNode]).reverse,
      node.HasToken (decimalFrom 0 node.tokenStr.bytes) := by
    intro node hnode
    refine ⟨⟨?_, ?_, ?_, rfl⟩, ?_⟩ <;> revert node <;> decide +kernel
  have hperm : (routedNodes ++ [addedNode]).reverse.Perm (addedNode :: routedNodes) :=
    (List.reverse_perm _).trans List.perm_append_comm
  have hvalue : decimalFrom 0 addedNode.tokenStr.bytes = 1431655765 := by decide +kernel
  obtain ⟨before, hbefore, after, hafter, pred, hpred, j, j', hserves, hserves', -, -, harc, -⟩ :=
    key_movement routed_filled moved_filled hperm (by decide) hnumeral (by decide +kernel)
      (fun _ _ => 7) (by decide +kernel) (.insertion Continuum) (.insertion Continuum)
      (authDials .data) (authDials .data) (.ofAscii "key")
  rw [hvalue] at harc
  exact ⟨before, hbefore, after, hafter, pred, hpred, j, j', hserves, hserves', harc⟩

end DynocClient
