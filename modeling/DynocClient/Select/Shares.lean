import DynocClient.Select.HashType

/-!
# Shares of a rack

The nodes of a rack divide the 32-bit words among them, and with these the keys. The share of a
node are the words after the token before its own on the ring and up to it, so the way between the
two tokens is the number of words (`ring_shares`). A node that is added takes its share from one
other node (`new_node_relieves_one`).
-/

namespace DynocClient

open Lib

/-- The words that the node owns among the nodes of a rack. -/
def share (value : Node → Nat) (nodes : List Node) (node : Node) : Set Nat :=
  {word | word < 2 ^ 32 ∧ IsOwner (valuesOf value nodes) word (value node)}

section Shares

variable {value : Node → Nat} {nodes : List Node}

/-- A rack with a node has a value. -/
theorem values_nonempty (hpos : 1 ≤ nodes.length) : (valuesOf value nodes).Nonempty := by
  obtain ⟨node, hnode⟩ := List.exists_mem_of_length_pos hpos
  exact ⟨value node, node, hnode, rfl⟩

/-- Every word lies in the share of one node. -/
theorem share_exists (hpos : 1 ≤ nodes.length) (hdistinct : (nodes.map value).Nodup) {word : Nat}
    (hword : word < 2 ^ 32) :
    ∃ node ∈ nodes, ∀ other ∈ nodes, word ∈ share value nodes other ↔ other = node := by
  obtain ⟨_, ⟨node, hnode, rfl⟩, howner⟩ :=
    exists_owner (values_finite value nodes) (values_nonempty hpos) word
  have hown : IsOwner (valuesOf value nodes) word (value node) := ⟨⟨node, hnode, rfl⟩, howner⟩
  refine ⟨node, hnode, fun other hother => ⟨fun hshare => ?_, ?_⟩⟩
  · exact List.inj_on_of_nodup_map hdistinct hother hnode (hshare.2.unique hown)
  · rintro rfl
    exact ⟨hword, hown⟩

/-- The share of a node is as large as the way to its token from the one before. -/
theorem share_ncard (hpos : 1 ≤ nodes.length) (hbound : ∀ node ∈ nodes, value node < 2 ^ 32)
    {node : Node} (hnode : node ∈ nodes) :
    ∃ before ∈ nodes, IsPredecessor (valuesOf value nodes) (value node) (value before) ∧
      (share value nodes node).ncard = arcLength (2 ^ 32) (value before) (value node) := by
  obtain ⟨_, ⟨before, hbefore, rfl⟩, hplace⟩ :=
    exists_predecessor (values_finite value nodes) (values_nonempty hpos) (value node)
  have hpred : IsPredecessor (valuesOf value nodes) (value node) (value before) :=
    ⟨⟨before, hbefore, rfl⟩, hplace⟩
  refine ⟨before, hbefore, hpred, ?_⟩
  -- the node is there already, so its arc is that of a node that comes anew
  have hring : insert (value node) (valuesOf value nodes) = valuesOf value nodes :=
    Set.insert_eq_of_mem ⟨node, hnode, rfl⟩
  have hshare : share value nodes node =
      {word | word < 2 ^ 32 ∧ InArc (value before) (value node) word} := by
    ext word
    simp only [share, Set.mem_ofPred_eq, ← is_owner_insert_iff hpred, hring]
  rw [hshare, arc_ncard (hbound before hbefore) (hbound node hnode)]

end Shares

section Filled

variable {filled filled' : Client} {calls calls' : List ClientCall} {dcType dcType' : DcType}
  {r r' : Nat} {nodes nodes' : List Node} {value : Node → Nat}

/-- Set up a client by a script that may choose the hash, with a rack of nodes of distinct numerals.
The nodes have shares of the 32-bit words, such that each word is in one share, and every key is
served in this rack by the node whose share its hash is in. The number of words of a share is the
way on the ring from the token before that of the node, all `2 ^ 32` if there is one node. -/
theorem ring_shares (h : filled.RackFilledBy calls dcType r nodes) (hpos : 1 ≤ nodes.length)
    (hvalue : ∀ node ∈ nodes, node.HasToken (value node)) (hdistinct : (nodes.map value).Nodup)
    (platform : Platform) (qsort : Qsort Continuum) (dials : Slot → Dial) :
    (∀ key : CString, ∃ node ∈ nodes, ∃ j,
      (hashAlgos platform filled.dynoc.hashType key.bytes).toNat ∈ share value nodes node ∧
      Serves (dynocStart (hashAlgos platform) qsort dials filled) key ⟨dcType, r, j⟩
        node.endpoint) ∧
    (∀ word < 2 ^ 32, ∃ node ∈ nodes, ∀ other ∈ nodes,
      word ∈ share value nodes other ↔ other = node) ∧
    ∀ node ∈ nodes, ∃ before ∈ nodes,
      IsPredecessor (valuesOf value nodes) (value node) (value before) ∧
      (share value nodes node).ncard = arcLength (2 ^ 32) (value before) (value node) := by
  refine ⟨fun key => ?_, fun word hword => share_exists hpos hdistinct hword, ?_⟩
  · obtain ⟨node, hnode, j, howner, hserves⟩ := h.serves hpos hvalue platform qsort dials key
    exact ⟨node, hnode, j, ⟨UInt32.toNat_lt _, howner⟩, hserves⟩
  · exact fun node hnode => share_ncard hpos (fun other hother => (hvalue other hother).2) hnode

end Filled

/-- The three nodes share the ring, and each key is served where its hash falls. -/
theorem named_ring_shares :
    (∀ key : CString, ∃ node ∈ routedNodes, ∃ j,
      (hashAlgos signedPlatform namedClient.dynoc.hashType key.bytes).toNat ∈
        share (fun node => decimalFrom 0 node.tokenStr.bytes) routedNodes node ∧
      Serves (dynocStart (hashAlgos signedPlatform) (.insertion Continuum) (authDials .data)
        namedClient) key ⟨.localDc, 0, j⟩ node.endpoint) ∧
    ∀ node ∈ routedNodes, ∃ before ∈ routedNodes,
      (share (fun node => decimalFrom 0 node.tokenStr.bytes) routedNodes node).ncard =
        arcLength (2 ^ 32) (decimalFrom 0 before.tokenStr.bytes)
          (decimalFrom 0 node.tokenStr.bytes) := by
  obtain ⟨hkeys, -, hsizes⟩ := ring_shares named_filled (by decide) routed_nodes_have_tokens
    (by decide +kernel) signedPlatform (.insertion Continuum) (authDials .data)
  refine ⟨hkeys, fun node hnode => ?_⟩
  obtain ⟨before, hbefore, -, hsize⟩ := hsizes node hnode
  exact ⟨before, hbefore, hsize⟩

section Added

variable {filled filled' : Client} {calls calls' : List ClientCall} {dcType dcType' : DcType}
  {r r' : Nat} {nodes nodes' : List Node} {value : Node → Nat}

/-- Set up one client with some nodes and another one with the same nodes and a new one, in any
order and both with the hash of the same last name. There is one node, that of the words equal to
the new token, such that every key stays with its node or moves from this one to the new one. -/
theorem new_node_relieves_one {new : Node} (h : filled.RackFilledBy calls dcType r nodes)
    (h' : filled'.RackFilledBy calls' dcType' r' nodes') (hperm : nodes'.Perm (new :: nodes))
    (hname : lastHashName calls' = lastHashName calls) (hpos : 1 ≤ nodes.length)
    (hvalue : ∀ node ∈ nodes', node.HasToken (value node)) (hdistinct : (nodes'.map value).Nodup)
    (platform : Platform) (qsort qsort' : Qsort Continuum) (dials dials' : Slot → Dial) :
    ∃ giver ∈ nodes, value new ∈ share value nodes giver ∧
      ∀ key : CString, ∃ node ∈ nodes, ∃ node' ∈ nodes', ∃ j j',
        Serves (dynocStart (hashAlgos platform) qsort dials filled) key ⟨dcType, r, j⟩
          node.endpoint ∧
        Serves (dynocStart (hashAlgos platform) qsort' dials' filled') key ⟨dcType', r', j'⟩
          node'.endpoint ∧
        (node' = node ∨ node = giver ∧ node' = new) := by
  have hsub : ∀ node ∈ nodes, node ∈ nodes' := fun node hnode =>
    hperm.mem_iff.mpr (List.mem_cons_of_mem _ hnode)
  have hnew : new ∈ nodes' := hperm.mem_iff.mpr List.mem_cons_self
  have hinj : ∀ node ∈ nodes', ∀ other ∈ nodes', value node = value other → node = other :=
    fun node hnode other hother heq => List.inj_on_of_nodup_map hdistinct hnode hother heq
  obtain ⟨_, ⟨giver, hgiver, rfl⟩, hplace⟩ :=
    exists_owner (values_finite value nodes) (values_nonempty hpos) (value new)
  have hgives : IsOwner (valuesOf value nodes) (value new) (value giver) :=
    ⟨⟨giver, hgiver, rfl⟩, hplace⟩
  refine ⟨giver, hgiver, ⟨(hvalue new hnew).2, hgives⟩, fun key => ?_⟩
  obtain ⟨node, hnode, j, howner, hserves⟩ := h.serves hpos
    (fun node hnode => hvalue node (hsub node hnode)) platform qsort dials key
  obtain ⟨node', hnode', j', howner', hserves'⟩ := h'.serves (List.length_pos_of_mem hnew) hvalue
    platform qsort' dials' key
  rw [values_insert hperm, h.chosen.unique hname h'.chosen] at howner'
  refine ⟨node, hnode, node', hnode', j, j', hserves, hserves', ?_⟩
  by_cases hmoves : node' = new
  · -- what the new node takes was the giver's
    subst hmoves
    have hrelieved := howner'.relieved howner
    exact .inr ⟨hinj node (hsub node hnode) giver (hsub giver hgiver) (hrelieved.unique hgives),
      rfl⟩
  · have hstays := howner'.of_insert fun heq => hmoves (hinj node' hnode' new hnew heq)
    exact .inl (hinj node' hnode' node (hsub node hnode) (hstays.unique howner))

end Added

/-- The script of a second client, with a rack of four nodes. -/
def grownSetup : List ClientCall := movedSetup.map ClientCall.setup

/-- The calls that add the four nodes. -/
def grownFill : List ClientCall :=
  .hashTypeInit (some (.ofAscii "crc32a")) :: movedFill.map ClientCall.setup

/-- The grown client before its nodes. -/
def grownEmpty : Client :=
  (runFrom clientStep (dynocInit fun _ => ⟨.invalid, none⟩) grownSetup).get (by decide +kernel)

/-- The grown client with its nodes. -/
def grownClient : Client := (runFrom clientStep grownEmpty grownFill).get (by decide +kernel)

/-- Its first rack is filled by the four nodes. -/
theorem grown_filled :
    grownClient.RackFilledBy (grownSetup ++ grownFill) .localDc 0
      (routedNodes ++ [addedNode]).reverse := by
  refine ⟨fun _ => ⟨.invalid, none⟩, grownSetup, grownFill, grownEmpty,
    (grownEmpty.dynoc.dc .localDc).get (by decide +kernel), 4, .ofAscii "rack1", rfl,
    (Option.some_get _).symm, (Option.some_get _).symm, (Option.some_get _).symm, ?_, ?_, ?_⟩ <;>
    decide +kernel

/-- Of the three nodes one gives keys to the fourth. -/
theorem grown_rack_relieves_one :
    ∃ giver ∈ routedNodes, ∀ key : CString, ∃ node ∈ routedNodes,
      ∃ node' ∈ (routedNodes ++ [addedNode]).reverse, ∃ j j',
        Serves (dynocStart (hashAlgos signedPlatform) (.insertion Continuum) (authDials .data)
          namedClient) key ⟨.localDc, 0, j⟩ node.endpoint ∧
        Serves (dynocStart (hashAlgos signedPlatform) (.insertion Continuum) (authDials .data)
          grownClient) key ⟨.localDc, 0, j'⟩ node'.endpoint ∧
        (node' = node ∨ node = giver ∧ node' = addedNode) := by
  have hnumeral : ∀ node ∈ (routedNodes ++ [addedNode]).reverse,
      node.HasToken (decimalFrom 0 node.tokenStr.bytes) := by
    intro node hnode
    refine ⟨⟨?_, ?_, ?_, rfl⟩, ?_⟩ <;> revert node <;> decide +kernel
  have hperm : (routedNodes ++ [addedNode]).reverse.Perm (addedNode :: routedNodes) :=
    (List.reverse_perm _).trans List.perm_append_comm
  obtain ⟨giver, hgiver, -, hkeys⟩ := new_node_relieves_one named_filled grown_filled hperm
    (by decide +kernel) (by decide) hnumeral (by decide +kernel) signedPlatform
    (.insertion Continuum) (.insertion Continuum) (authDials .data) (authDials .data)
  exact ⟨giver, hgiver, hkeys⟩

end DynocClient
