import DynocClient.Setup.Basic
import DynocClient.Token.Parse

/-!
# What the setup calls do

One description of each call of a setup script. `setup_step_cases` lists everything a step of a
script can do, and `Client.AllRacks.step` is the rule for properties of single racks that every
invariant of the topology is an instance of.
-/

namespace DynocClient

open Lib

/-! ## The stored node -/

/-- The token that `continuum_init` makes of the node's token string. -/
def Node.token (node : Node) : Token :=
  match tokenParse node.tokenStr node.tokenStr.strlen (tokenSize tokenInit 1 one_le_mag) with
  | .ok token => token
  | .error _ => tokenInit

/-- The endpoint that `continuum_init` stores for the node. -/
def Node.endpoint (node : Node) : Endpoint :=
  { host := some node.ip, port := node.port, pass := node.pass }

/-- The element that `continuum_init` makes of the node. -/
def Node.element (node : Node) (index : UInt32) : Continuum :=
  { index, endpoint := node.endpoint, token := node.token }

/-- `continuum_init` makes the element of its node. -/
theorem continuum_init_eq (node : Node) (index : UInt32) :
    continuumInit node index = .ok (node.element index) := by
  obtain ⟨signum, word, h⟩ :=
    token_parse_total node.tokenStr (tokenSize tokenInit 1 one_le_mag)
  simp only [continuumInit, Node.element, Node.token, Node.endpoint, h, bind, Except.bind, pure,
    Except.pure]

/-- The rack after `dynoc_add_node` has come by it. -/
def Rack.addNode (node : Node) (rcName : CString) (rack : Rack) : Rack :=
  if rack.name = some rcName then
    { rack with
      continuum := writeContinuum rack.continuum rack.ncontinuum.toNat
        (node.element rack.ncontinuum)
      ncontinuum := rack.ncontinuum + 1 }
  else rack

/-- The loop of `dynoc_add_node` turns to every rack. -/
theorem add_node_loop_eq (node : Node) (rcName : CString) (racks : List Rack) :
    addNodeLoop node rcName racks = .ok (racks.map (Rack.addNode node rcName)) := by
  induction racks with
  | nil => rfl
  | cons rack racks ih =>
      simp only [addNodeLoop, addNodeToRack, continuum_init_eq, ih, bind, Except.bind, pure,
        Except.pure, List.map_cons, Rack.addNode]
      split <;> rfl

/-- An added node leaves the name of the rack. -/
@[simp] theorem Rack.add_node_name (node : Node) (rcName : CString) (rack : Rack) :
    (rack.addNode node rcName).name = rack.name := by
  unfold Rack.addNode
  split <;> rfl

/-- An added node leaves `node_count`. -/
@[simp] theorem Rack.add_node_node_count (node : Node) (rcName : CString) (rack : Rack) :
    (rack.addNode node rcName).nodeCount = rack.nodeCount := by
  unfold Rack.addNode
  split <;> rfl

/-- A node goes to the racks of its name. -/
theorem Rack.add_node_of_name {node : Node} {rcName : CString} {rack : Rack}
    (h : rack.name = some rcName) :
    rack.addNode node rcName =
      { rack with
        continuum := writeContinuum rack.continuum rack.ncontinuum.toNat
          (node.element rack.ncontinuum)
        ncontinuum := rack.ncontinuum + 1 } :=
  if_pos h

/-- A rack of another name is left as it is. -/
theorem Rack.add_node_of_ne {node : Node} {rcName : CString} {rack : Rack}
    (h : rack.name ≠ some rcName) : rack.addNode node rcName = rack :=
  if_neg h

/-- Writing at the end of what has been written appends. -/
theorem write_continuum_length (continuum : List Continuum) (element : Continuum) :
    writeContinuum continuum continuum.length element = continuum ++ [element] :=
  if_neg (Nat.lt_irrefl _)

/-! ## Datacenters -/

/-- A datacenter put in its place is found there. -/
@[simp] theorem Client.with_dc_same (client : Client) (dcType : DcType) (dc : Datacenter) :
    (client.withDc dcType dc).dynoc.dc dcType = some dc := by
  cases dcType <;> rfl

/-- The other datacenter is left as it is. -/
theorem Client.with_dc_other (client : Client) {dcType other : DcType} (dc : Datacenter)
    (h : other ≠ dcType) : (client.withDc dcType dc).dynoc.dc other = client.dynoc.dc other := by
  cases dcType <;> cases other <;> first | rfl | exact absurd rfl h

/-- Everything a step of a setup script can do. -/
theorem setup_step_cases {client next : Client} {call : SetupCall}
    (h : setupStep client call = some next) :
    (next = client ∧ ∀ node rcName dcType, call ≠ .addNode node rcName dcType) ∨
    (∃ rackCount name dcType, call = .datacenterInit true rackCount name dcType ∧
      client.dynoc.dc dcType = none ∧
      next = client.withDc dcType (newDatacenter rackCount name dcType)) ∨
    (∃ nodeCount name dcType dc i, call = .rackInit nodeCount name dcType ∧
      client.dynoc.dc dcType = some dc ∧
      dc.rack.findIdx? (fun rack => rack.name.isNone) = some i ∧
      next = { client.withDc dcType { dc with rack := dc.rack.set i (initRack nodeCount name) }
        with conn := initSlots client.conn dcType i nodeCount }) ∨
    (∃ node rcName dcType dc, call = .addNode node rcName dcType ∧
      client.dynoc.dc dcType = some dc ∧
      next = client.withDc dcType
        { dc with rack := dc.rack.map (Rack.addNode node rcName) }) := by
  cases call with
  | datacenterInit allocated rackCount name dcType =>
      simp only [setupStep, SetupCall.exec, dynocDatacenterInit, pure, Except.pure] at h
      cases hdc : client.dynoc.dc dcType with
      | some dc =>
          simp only [hdc, Option.some.injEq] at h
          exact .inl ⟨h.symm, by simp⟩
      | none =>
          cases allocated with
          | false =>
              simp only [hdc, Bool.false_eq_true, if_false, Option.some.injEq] at h
              exact .inl ⟨h.symm, by simp⟩
          | true =>
              simp only [hdc, if_true, Option.some.injEq] at h
              exact .inr (.inl ⟨rackCount, name, dcType, rfl, hdc, h.symm⟩)
  | rackInit nodeCount name dcType =>
      simp only [setupStep, SetupCall.exec, dynocRackInit, pure, Except.pure] at h
      cases hdc : client.dynoc.dc dcType with
      | none => simp [hdc, throw, throwThe, MonadExceptOf.throw] at h
      | some dc =>
          cases hfind : dc.rack.findIdx? (fun rack => rack.name.isNone) with
          | none =>
              simp only [hdc, hfind, Option.some.injEq] at h
              exact .inl ⟨h.symm, by simp⟩
          | some i =>
              simp only [hdc, hfind, Option.some.injEq] at h
              exact .inr (.inr (.inl ⟨nodeCount, name, dcType, dc, i, rfl, hdc, hfind, h.symm⟩))
  | addNode node rcName dcType =>
      simp only [setupStep, SetupCall.exec, dynocAddNode, add_node_loop_eq, bind, Except.bind,
        pure, Except.pure] at h
      cases hdc : client.dynoc.dc dcType with
      | none => simp [hdc, throw, throwThe, MonadExceptOf.throw] at h
      | some dc =>
          simp only [hdc, Option.some.injEq] at h
          exact .inr (.inr (.inr ⟨node, rcName, dcType, dc, rfl, hdc, h.symm⟩))

/-- `dynoc_add_node` on a datacenter that exists. -/
theorem setup_step_add_node {client : Client} {node : Node} {rcName : CString}
    {dcType : DcType} {dc : Datacenter} (h : client.dynoc.dc dcType = some dc) :
    setupStep client (.addNode node rcName dcType) =
      some (client.withDc dcType { dc with rack := dc.rack.map (Rack.addNode node rcName) }) := by
  simp [setupStep, SetupCall.exec, dynocAddNode, h, add_node_loop_eq, bind, Except.bind, pure,
    Except.pure]

/-! ## Properties of single racks -/

/-- Every rack of the client has the property. -/
def Client.AllRacks (P : Rack → Prop) (client : Client) : Prop :=
  ∀ dcType dc, client.dynoc.dc dcType = some dc → ∀ rack ∈ dc.rack, P rack

/-- A new client has no rack. -/
theorem all_racks_init (P : Rack → Prop) (conn : Slot → RedisConnection) :
    (dynocInit conn).AllRacks P := by
  intro dcType dc hdc
  cases dcType <;> cases hdc

/-- Storing a datacenter whose racks have the property. -/
theorem Client.AllRacks.with_dc {P : Rack → Prop} {client : Client} (h : client.AllRacks P)
    {dcType : DcType} {dc : Datacenter} (hracks : ∀ rack ∈ dc.rack, P rack) :
    (client.withDc dcType dc).AllRacks P := by
  intro other dc' hdc'
  by_cases hother : other = dcType
  · subst hother
    rw [Client.with_dc_same] at hdc'
    cases hdc'
    exact hracks
  · rw [Client.with_dc_other _ _ hother] at hdc'
    exact h other dc' hdc'

/-- What holds of a zeroed rack and of a new one, and is kept where a node is added, is kept by
every step of a setup script. -/
theorem Client.AllRacks.step {P : Rack → Prop} {client next : Client} {call : SetupCall}
    (h : client.AllRacks P) (hstep : setupStep client call = some next)
    (hzero : P zeroRack) (hinit : ∀ nodeCount name, P (initRack nodeCount name))
    (hadd : ∀ node rcName dcType dc, call = .addNode node rcName dcType →
      client.dynoc.dc dcType = some dc → ∀ rack ∈ dc.rack, P rack → rack.name = some rcName →
        P (rack.addNode node rcName)) :
    next.AllRacks P := by
  rcases setup_step_cases hstep with ⟨rfl, -⟩ | ⟨rackCount, name, dcType, -, -, rfl⟩ |
    ⟨nodeCount, name, dcType, dc, i, -, hdc, -, rfl⟩ | ⟨node, rcName, dcType, dc, hcall, hdc, rfl⟩
  · exact h
  · refine h.with_dc (fun rack hrack => ?_)
    rw [List.eq_of_mem_replicate hrack]
    exact hzero
  · refine h.with_dc (fun rack hrack => ?_)
    rcases List.mem_or_eq_of_mem_set hrack with hold | rfl
    · exact h dcType dc hdc rack hold
    · exact hinit nodeCount name
  · refine h.with_dc (fun rack hrack => ?_)
    obtain ⟨old, hold, rfl⟩ := List.mem_map.mp hrack
    by_cases hname : old.name = some rcName
    · exact hadd node rcName dcType dc hcall hdc old hold (h dcType dc hdc old hold) hname
    · rw [Rack.add_node_of_ne hname]
      exact h dcType dc hdc old hold

end DynocClient
