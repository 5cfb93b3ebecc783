import DynocClient.Setup.Capacity
import Mathlib.Data.List.Perm.Basic

/-!
# Which calls of a setup script take effect

`dynoc_rack_init` and `dynoc_add_node` return 0 whatever they find. `accounted_iff_placed` says
when that is the truth: the racks and nodes of a client are the ones its script asked for, each
exactly once, if and only if every `dynoc_rack_init` call finds a rack without a name and every
`dynoc_add_node` call finds exactly one rack of its name.
-/

namespace DynocClient

open Lib

/-! ## What is asked for and what is there -/

/-- What the racks of a datacenter hold together. -/
def Client.collect {β : Type} (client : Client) (dcType : DcType) (f : Rack → List β) : List β :=
  match client.dynoc.dc dcType with
  | none => []
  | some dc => dc.rack.flatMap f

/-- The name and the node count of a rack that has a name. -/
def Rack.declared (rack : Rack) : List (CString × UInt32) :=
  match rack.name with
  | none => []
  | some name => [(name, rack.nodeCount)]

/-- The endpoints and tokens stored in a rack, with the rack's name. -/
def Rack.stored (rack : Rack) : List (Option CString × Endpoint × Token) :=
  rack.continuum.map fun element => (rack.name, element.endpoint, element.token)

/-- The rack a `dynoc_rack_init` call on the datacenter asks for. -/
def SetupCall.asksRack (dcType : DcType) : SetupCall → Option (CString × UInt32)
  | .rackInit nodeCount name target => if target = dcType then some (name, nodeCount) else none
  | _ => none

/-- The node a `dynoc_add_node` call on the datacenter asks for: its own ip, port, password and
token, in a rack of the given name. -/
def SetupCall.asksNode (dcType : DcType) : SetupCall → Option (Option CString × Endpoint × Token)
  | .addNode node rcName target =>
      if target = dcType then some (some rcName, node.endpoint, node.token) else none
  | _ => none

/-- A client together with the calls that made it. -/
structure Script where
  calls : List SetupCall
  client : Client

/-- Make one more call. -/
def scriptStep (script : Script) (call : SetupCall) : Option Script :=
  (setupStep script.client call).map fun next => ⟨script.calls ++ [call], next⟩

/-- Every `dynoc_rack_init` call has one rack of its own with its name and node count, every
`dynoc_add_node` call has its node stored exactly once, in one rack of its name, and the racks
hold no other node. -/
def Script.Accounted (script : Script) : Prop :=
  ∀ dcType,
    (script.client.collect dcType Rack.declared).Perm
      (script.calls.filterMap (SetupCall.asksRack dcType)) ∧
    (script.client.collect dcType Rack.stored).Perm
      (script.calls.filterMap (SetupCall.asksNode dcType))

/-- The value the call returns. -/
def SetupCall.returns (client : Client) (call : SetupCall) : Option Int :=
  match call.exec client with
  | .ok (_, code) => some code
  | .error _ => none

/-- The call returns 0, and it finds room in the racks it writes to. -/
def Succeeds (client : Client) (call : SetupCall) : Prop :=
  call.returns client = some 0 ∧ HasRoom client call

instance (client : Client) (call : SetupCall) : Decidable (Succeeds client call) :=
  inferInstanceAs (Decidable (_ ∧ _))

/-- A `dynoc_rack_init` call finds a rack without a name, and a `dynoc_add_node` call finds
exactly one rack of its name. -/
def Placed (client : Client) : SetupCall → Prop
  | .datacenterInit .. => True
  | .rackInit _ _ dcType =>
      ∀ dc ∈ client.dynoc.dc dcType, ∃ rack ∈ dc.rack, rack.name = none
  | .addNode _ rcName dcType =>
      ∀ dc ∈ client.dynoc.dc dcType, dc.rack.countP (fun rack => rack.name = some rcName) = 1

instance (client : Client) : (call : SetupCall) → Decidable (Placed client call)
  | .datacenterInit .. => isTrue trivial
  | .rackInit _ _ dcType =>
      inferInstanceAs (Decidable (∀ dc ∈ client.dynoc.dc dcType,
        ∃ rack ∈ dc.rack, rack.name = none))
  | .addNode _ rcName dcType =>
      inferInstanceAs (Decidable (∀ dc ∈ client.dynoc.dc dcType,
        dc.rack.countP (fun rack => rack.name = some rcName) = 1))

/-! ## What a call changes -/

/-- What is collected from a datacenter replaced is that of the new one. -/
theorem collect_with_dc_same {β : Type} (client : Client) (dcType : DcType) (dc : Datacenter)
    (f : Rack → List β) : (client.withDc dcType dc).collect dcType f = dc.rack.flatMap f := by
  simp [Client.collect]

/-- What is collected from the other datacenter stays. -/
theorem collect_with_dc_other {β : Type} (client : Client) {dcType other : DcType}
    (dc : Datacenter) (f : Rack → List β) (h : other ≠ dcType) :
    (client.withDc dcType dc).collect other f = client.collect other f := by
  simp [Client.collect, Client.with_dc_other _ _ h]

/-- What is collected from a datacenter is that of its racks. -/
theorem collect_of_dc {β : Type} {client : Client} {dcType : DcType} {dc : Datacenter}
    (f : Rack → List β) (h : client.dynoc.dc dcType = some dc) :
    client.collect dcType f = dc.rack.flatMap f := by
  simp [Client.collect, h]

/-- Adding a node to every rack of the name adds one entry for each of them. -/
theorem stored_map_add_node (node : Node) (rcName : CString) (racks : List Rack)
    (hcount : ∀ rack ∈ racks, rack.Counted) :
    ((racks.map (Rack.addNode node rcName)).flatMap Rack.stored).Perm
      (List.replicate (racks.countP fun rack => rack.name = some rcName)
        (some rcName, node.endpoint, node.token) ++ racks.flatMap Rack.stored) := by
  induction racks with
  | nil => exact .refl _
  | cons rack racks ih =>
      have hrest := ih fun other hmem => hcount other (List.mem_cons_of_mem _ hmem)
      refine List.perm_iff_count.mpr fun entry => ?_
      have hentry := hrest.count_eq entry
      simp only [List.map_cons, List.flatMap_cons, List.count_append] at hentry ⊢
      by_cases hname : rack.name = some rcName
      · have hstored : (rack.addNode node rcName).stored =
            rack.stored ++ [(some rcName, node.endpoint, node.token)] := by
          rw [Rack.stored, (hcount rack List.mem_cons_self).add_node_continuum hname]
          simp [Rack.stored, Node.element, hname]
        rw [hstored, List.countP_cons_of_pos (by simpa using hname), List.replicate_succ]
        simp only [List.count_append, List.count_cons, List.count_nil, hentry]
        omega
      · rw [Rack.add_node_of_ne hname, List.countP_cons_of_neg (by simpa using hname), hentry]
        omega

/-- Naming a rack that had no name, and so no entries, declares one more rack. -/
theorem declared_set {racks : List Rack} {i : Nat}
    (hfind : racks.findIdx? (fun rack => rack.name.isNone) = some i) (nodeCount : UInt32)
    (name : CString) :
    ((racks.set i (initRack nodeCount name)).flatMap Rack.declared).Perm
      ((name, nodeCount) :: racks.flatMap Rack.declared) := by
  obtain ⟨hi, hname, -⟩ := List.findIdx?_eq_some_iff_getElem.mp hfind
  have hold : racks[i].declared = [] := by
    simp only [Rack.declared, Option.isNone_iff_eq_none.mp hname]
  have hsplit : racks = racks.take i ++ racks[i] :: racks.drop (i + 1) := by
    rw [← List.drop_eq_getElem_cons, List.take_append_drop]
  rw [List.set_eq_take_append_cons_drop, if_pos hi]
  conv_rhs => rw [hsplit]
  simp only [List.flatMap_append, List.flatMap_cons, hold, List.nil_append]
  exact List.perm_middle

/-- Giving the next rack its name stores nothing and drops nothing. -/
theorem stored_set {racks : List Rack} {i : Nat}
    (hfind : racks.findIdx? (fun rack => rack.name.isNone) = some i)
    (hempty : ∀ rack ∈ racks, rack.name = none → rack.continuum = []) (nodeCount : UInt32)
    (name : CString) :
    (racks.set i (initRack nodeCount name)).flatMap Rack.stored =
      racks.flatMap Rack.stored := by
  obtain ⟨hi, hname, -⟩ := List.findIdx?_eq_some_iff_getElem.mp hfind
  have hold : racks[i].stored = [] := by
    simp [Rack.stored, hempty _ (List.getElem_mem hi) (Option.isNone_iff_eq_none.mp hname)]
  have hsplit : racks = racks.take i ++ racks[i] :: racks.drop (i + 1) := by
    rw [← List.drop_eq_getElem_cons, List.take_append_drop]
  rw [List.set_eq_take_append_cons_drop, if_pos hi]
  conv_rhs => rw [hsplit]
  simp only [List.flatMap_append, List.flatMap_cons, hold]
  rfl

/-- Adding a node declares no rack. -/
theorem declared_map_add_node (node : Node) (rcName : CString) (racks : List Rack) :
    (racks.map (Rack.addNode node rcName)).flatMap Rack.declared =
      racks.flatMap Rack.declared := by
  rw [List.flatMap_map]
  congr 1
  funext rack
  simp [Rack.declared]

/-- A datacenter that has just been made holds nothing. -/
theorem collect_new_datacenter {β : Type} (rackCount : UInt32) (name : CString)
    (dcType : DcType) (f : Rack → List β) (h : f zeroRack = []) :
    (newDatacenter rackCount name dcType).rack.flatMap f = [] := by
  simp [newDatacenter, h]

/-! ## The exact condition -/

/-- What accounting rests on in a rack: its count, and that it is empty until it has a name. -/
def Rack.Tidy (rack : Rack) : Prop :=
  rack.Counted ∧ (rack.name = none → rack.continuum = [])

/-- A call within capacity keeps the racks tidy. -/
theorem tidy_step {client next : Client} {call : SetupCall}
    (h : client.AllRacks Rack.Tidy) (hroom : HasRoom client call)
    (hstep : setupStep client call = some next) : next.AllRacks Rack.Tidy := by
  refine h.step hstep ⟨Rack.counted_zero, fun _ => rfl⟩
    (fun nodeCount name => ⟨Rack.counted_init nodeCount name, fun _ => rfl⟩) ?_
  rintro node rcName dcType dc rfl hdc rack hrack htidy hname
  refine ⟨htidy.1.add_node hname (hroom dc hdc rack hrack hname), fun hnone => ?_⟩
  rw [Rack.add_node_name, hname] at hnone
  cases hnone

/-- A call that succeeds leaves a client behind. -/
theorem Succeeds.step {client : Client} {call : SetupCall} (h : Succeeds client call) :
    ∃ next, setupStep client call = some next := by
  have hreturns := h.1
  unfold SetupCall.returns at hreturns
  unfold setupStep
  cases hexec : call.exec client with
  | ok result => exact ⟨result.1, rfl⟩
  | error fault => simp [hexec] at hreturns

/-- A successful call on a datacenter finds it initialised. -/
theorem Succeeds.rack_init_dc {client : Client} {nodeCount : UInt32} {name : CString}
    {dcType : DcType} (h : Succeeds client (.rackInit nodeCount name dcType)) :
    ∃ dc, client.dynoc.dc dcType = some dc := by
  obtain ⟨next, hnext⟩ := h.step
  cases hdc : client.dynoc.dc dcType with
  | some dc => exact ⟨dc, rfl⟩
  | none =>
      simp [setupStep, SetupCall.exec, dynocRackInit, hdc, throw, throwThe,
        MonadExceptOf.throw] at hnext

/-- A node is added to a datacenter that is there. -/
theorem Succeeds.add_node_dc {client : Client} {node : Node} {rcName : CString}
    {dcType : DcType} (h : Succeeds client (.addNode node rcName dcType)) :
    ∃ dc, client.dynoc.dc dcType = some dc := by
  obtain ⟨next, hnext⟩ := h.step
  cases hdc : client.dynoc.dc dcType with
  | some dc => exact ⟨dc, rfl⟩
  | none =>
      simp [setupStep, SetupCall.exec, dynocAddNode, hdc, throw, throwThe,
        MonadExceptOf.throw] at hnext

/-- `dynoc_rack_init` on a datacenter that exists. -/
theorem setup_step_rack_init {client : Client} {nodeCount : UInt32} {name : CString}
    {dcType : DcType} {dc : Datacenter} (h : client.dynoc.dc dcType = some dc) :
    setupStep client (.rackInit nodeCount name dcType) =
      match dc.rack.findIdx? fun rack => rack.name.isNone with
      | none => some client
      | some i =>
          some { client.withDc dcType { dc with rack := dc.rack.set i (initRack nodeCount name) }
            with conn := initSlots client.conn dcType i nodeCount } := by
  simp only [setupStep, SetupCall.exec, dynocRackInit, h, pure, Except.pure]
  cases dc.rack.findIdx? fun rack => rack.name.isNone <;> rfl

/-- `dynoc_datacenter_init` changes nothing that a rack holds. -/
theorem collect_datacenter_init {β : Type} {client next : Client} {allocated : Bool}
    {rackCount : UInt32} {name : CString} {target : DcType}
    (hstep : setupStep client (.datacenterInit allocated rackCount name target) = some next)
    (dcType : DcType) (f : Rack → List β) (hf : f zeroRack = []) :
    next.collect dcType f = client.collect dcType f := by
  rcases setup_step_cases hstep with ⟨rfl, -⟩ | ⟨_, _, _, hcall, hdc, rfl⟩ |
    ⟨_, _, _, _, _, hcall, -⟩ | ⟨_, _, _, _, hcall, -⟩
  · rfl
  · cases hcall
    by_cases htarget : dcType = target
    · subst htarget
      rw [collect_with_dc_same, collect_new_datacenter _ _ _ _ hf]
      simp [Client.collect, hdc]
    · exact collect_with_dc_other _ _ _ htarget
  · cases hcall
  · cases hcall

/-- A `dynoc_rack_init` call that finds a rack declares it, and stores nothing. -/
theorem collect_rack_init {client : Client} (htidy : client.AllRacks Rack.Tidy)
    {nodeCount : UInt32} {name : CString} {target : DcType} {dc : Datacenter} {i : Nat}
    (hdc : client.dynoc.dc target = some dc)
    (hfind : dc.rack.findIdx? (fun rack => rack.name.isNone) = some i) (dcType : DcType) :
    let next := client.withDc target { dc with rack := dc.rack.set i (initRack nodeCount name) }
    (next.collect dcType Rack.declared).Perm
      (((SetupCall.rackInit nodeCount name target).asksRack dcType).toList ++
        client.collect dcType Rack.declared) ∧
    next.collect dcType Rack.stored = client.collect dcType Rack.stored := by
  intro next
  by_cases htarget : dcType = target
  · subst htarget
    have hempty : ∀ rack ∈ dc.rack, rack.name = none → rack.continuum = [] :=
      fun rack hrack => (htidy dcType dc hdc rack hrack).2
    simp only [next, collect_with_dc_same, collect_of_dc _ hdc, SetupCall.asksRack, if_true]
    exact ⟨declared_set hfind nodeCount name, stored_set hfind hempty nodeCount name⟩
  · simp [next, collect_with_dc_other _ _ _ htarget, SetupCall.asksRack, Ne.symm htarget]

/-- A `dynoc_add_node` call stores its node once for every rack of the name. -/
theorem collect_add_node {client : Client} (htidy : client.AllRacks Rack.Tidy)
    {target : DcType} {dc : Datacenter} (hdc : client.dynoc.dc target = some dc) (node : Node)
    (rcName : CString) (dcType : DcType) :
    let next := client.withDc target { dc with rack := dc.rack.map (Rack.addNode node rcName) }
    next.collect dcType Rack.declared = client.collect dcType Rack.declared ∧
    (next.collect dcType Rack.stored).Perm
      ((List.replicate (dc.rack.countP fun rack => rack.name = some rcName)
        ((SetupCall.addNode node rcName target).asksNode dcType).toList).flatten ++
        client.collect dcType Rack.stored) := by
  intro next
  by_cases htarget : dcType = target
  · subst htarget
    have hcount : ∀ rack ∈ dc.rack, rack.Counted :=
      fun rack hrack => (htidy dcType dc hdc rack hrack).1
    simp only [next, collect_with_dc_same, collect_of_dc _ hdc, SetupCall.asksNode, if_true,
      Option.toList_some, List.flatten_replicate_singleton]
    exact ⟨declared_map_add_node node rcName dc.rack, stored_map_add_node node rcName _ hcount⟩
  · simp [next, collect_with_dc_other _ _ _ htarget, SetupCall.asksNode, Ne.symm htarget]

/-- One more call asks for what it asks for. -/
theorem asked_append {β : Type} (f : SetupCall → Option β) (calls : List SetupCall)
    (call : SetupCall) :
    ((calls ++ [call]).filterMap f).Perm ((f call).toList ++ calls.filterMap f) := by
  rw [List.filterMap_append]
  refine List.perm_append_comm.trans ?_
  cases h : f call <;> simp [h]

/-- An account stays right if the client gains what the next call asks for. -/
theorem Script.Accounted.extend {script : Script} (hacc : script.Accounted) {call : SetupCall}
    {next : Client}
    (h : ∀ dcType,
      (next.collect dcType Rack.declared).Perm
        ((call.asksRack dcType).toList ++ script.client.collect dcType Rack.declared) ∧
      (next.collect dcType Rack.stored).Perm
        ((call.asksNode dcType).toList ++ script.client.collect dcType Rack.stored)) :
    Script.Accounted ⟨script.calls ++ [call], next⟩ := fun dcType =>
  ⟨((h dcType).1.trans ((hacc dcType).1.append_left _)).trans (asked_append _ _ _).symm,
    ((h dcType).2.trans ((hacc dcType).2.append_left _)).trans (asked_append _ _ _).symm⟩

section Exact

variable {script : Script}

/-- A `dynoc_datacenter_init` call keeps the account. -/
theorem accounted_datacenter_init (hacc : script.Accounted) {allocated : Bool}
    {rackCount : UInt32} {name : CString} {dcType : DcType} {next : Script}
    (hnext : scriptStep script (.datacenterInit allocated rackCount name dcType) = some next) :
    next.Accounted := by
  obtain ⟨client, hstep, rfl⟩ := Option.map_eq_some_iff.mp hnext
  refine hacc.extend fun other => ?_
  rw [collect_datacenter_init hstep other _ rfl, collect_datacenter_init hstep other _ rfl]
  exact ⟨.refl _, .refl _⟩

/-- After a `dynoc_rack_init` call the racks are accounted for if and only if the call found one
without a name. -/
theorem accounted_rack_init_iff (htidy : script.client.AllRacks Rack.Tidy)
    (hacc : script.Accounted) {nodeCount : UInt32} {name : CString} {dcType : DcType}
    (hok : Succeeds script.client (.rackInit nodeCount name dcType)) :
    Placed script.client (.rackInit nodeCount name dcType) ↔
      ∀ next, scriptStep script (.rackInit nodeCount name dcType) = some next →
        next.Accounted := by
  obtain ⟨dc, hdc⟩ := hok.rack_init_dc
  have hplaced : Placed script.client (.rackInit nodeCount name dcType) ↔
      ∃ rack ∈ dc.rack, rack.name = none := by
    simp [Placed, hdc]
  rw [hplaced]
  simp only [scriptStep, setup_step_rack_init hdc]
  cases hfind : dc.rack.findIdx? fun rack => rack.name.isNone with
  | none =>
      -- every rack has a name: the call is accepted and nothing is declared for it
      have hnone : ¬ ∃ rack ∈ dc.rack, rack.name = none := by
        intro hcase
        obtain ⟨rack, hrack, hname⟩ := hcase
        have := List.findIdx?_eq_none_iff.mp hfind rack hrack
        simp [hname] at this
      refine iff_of_false hnone fun h => ?_
      have hafter := ((h _ rfl dcType).1.trans (asked_append _ _ _)).length_eq
      have hbefore := (hacc dcType).1.length_eq
      simp only [SetupCall.asksRack, if_true, Option.toList_some, List.length_append,
        List.length_singleton] at hafter
      omega
  | some i =>
      obtain ⟨hi, hname, -⟩ := List.findIdx?_eq_some_iff_getElem.mp hfind
      refine iff_of_true ⟨_, List.getElem_mem hi, Option.isNone_iff_eq_none.mp hname⟩ ?_
      intro next hnext
      cases hnext
      refine hacc.extend fun other => ?_
      obtain ⟨hdeclared, hstored⟩ := collect_rack_init htidy hdc hfind other
      exact ⟨hdeclared, .of_eq hstored⟩

/-- After a `dynoc_add_node` call the nodes are accounted for if and only if the call found
exactly one rack of its name. -/
theorem accounted_add_node_iff (htidy : script.client.AllRacks Rack.Tidy)
    (hacc : script.Accounted) {node : Node} {rcName : CString} {dcType : DcType}
    (hok : Succeeds script.client (.addNode node rcName dcType)) :
    Placed script.client (.addNode node rcName dcType) ↔
      ∀ next, scriptStep script (.addNode node rcName dcType) = some next →
        next.Accounted := by
  obtain ⟨dc, hdc⟩ := hok.add_node_dc
  have hplaced : Placed script.client (.addNode node rcName dcType) ↔
      dc.rack.countP (fun rack => rack.name = some rcName) = 1 := by
    simp [Placed, hdc]
  rw [hplaced]
  simp only [scriptStep, setup_step_add_node hdc, Option.map_some]
  constructor
  · intro hone next hnext
    cases hnext
    refine hacc.extend fun other => ?_
    obtain ⟨hdeclared, hstored⟩ := collect_add_node htidy hdc node rcName other
    rw [hone, List.replicate_one, List.flatten_singleton] at hstored
    exact ⟨.of_eq hdeclared, hstored⟩
  · intro h
    obtain ⟨-, hafter⟩ := h _ rfl dcType
    have hasked := (hafter.trans (asked_append _ _ _)).length_eq
    have hstored := (collect_add_node htidy hdc node rcName dcType).2.length_eq
    have hbefore := (hacc dcType).2.length_eq
    simp only [SetupCall.asksNode, if_true, Option.toList_some, List.length_append,
      List.length_singleton, List.flatten_replicate_singleton, List.length_replicate]
      at hasked hstored
    omega

end Exact

/-- A client before its setup script. -/
def emptyScript (conn : Slot → RedisConnection) : Script := ⟨[], dynocInit conn⟩

/-- The account of the empty script is right. -/
theorem accounted_empty (conn : Slot → RedisConnection) : (emptyScript conn).Accounted := by
  intro dcType
  cases dcType <;> exact ⟨.refl _, .refl _⟩

/-- In every setup script whose calls all return 0 and find room: the racks and nodes are the
ones asked for in every state if and only if every `dynoc_rack_init` call finds a rack without a
name and every `dynoc_add_node` call finds exactly one rack of its name. -/
theorem accounted_iff_placed (conn : Slot → RedisConnection) (calls : List SetupCall)
    (hok : EachStep scriptStep (fun script => Succeeds script.client) (emptyScript conn) calls) :
    Throughout scriptStep Script.Accounted (emptyScript conn) calls ↔
      EachStep scriptStep (fun script => Placed script.client) (emptyScript conn) calls := by
  refine throughout_iff_each_step (I := fun script => script.client.AllRacks Rack.Tidy)
    ?_ ?_ (all_racks_init _ _) (accounted_empty conn) hok
  · intro script call next htidy hsucceeds _ hnext
    obtain ⟨client, hstep, rfl⟩ := Option.map_eq_some_iff.mp hnext
    exact tidy_step htidy hsucceeds.2 hstep
  · intro script call htidy hacc hsucceeds
    cases call with
    | datacenterInit =>
        exact iff_of_true trivial fun next hnext => accounted_datacenter_init hacc hnext
    | rackInit => exact accounted_rack_init_iff htidy hacc hsucceeds
    | addNode => exact accounted_add_node_iff htidy hacc hsucceeds

/-- The script of `example.c` up to `dynoc_start`, with the node added to a rack of this name. -/
def exampleScript (rcName : CString) : List SetupCall :=
  let node : Node := ⟨.ofAscii "10.211.55.19", 8102, some (.ofAscii "hello"),
    .ofAscii "437425602"⟩
  [.datacenterInit true 1 (.ofAscii "wuxi-datacenter") .localDc,
    .rackInit 1 (.ofAscii "rack1") .localDc, .addNode node rcName .localDc]

/-- The account of the example is right at every call. -/
theorem accounted_example_script :
    Throughout scriptStep Script.Accounted (emptyScript fun _ => ⟨.invalid, none⟩)
      (exampleScript (.ofAscii "rack1")) :=
  (accounted_iff_placed _ _ (by decide +kernel)).mpr (by decide +kernel)

/-- A node for a rack that no `dynoc_rack_init` call named is lost, although every call
returns 0. -/
theorem misnamed_node_lost :
    EachStep scriptStep (fun script => Succeeds script.client)
      (emptyScript fun _ => ⟨.invalid, none⟩) (exampleScript (.ofAscii "rack2")) ∧
    ¬ Throughout scriptStep Script.Accounted (emptyScript fun _ => ⟨.invalid, none⟩)
      (exampleScript (.ofAscii "rack2")) := by
  refine ⟨by decide +kernel, fun h => ?_⟩
  have hview : (runFrom scriptStep (emptyScript fun _ => ⟨.invalid, none⟩)
      (exampleScript (.ofAscii "rack2"))).map (fun script =>
        ((script.client.collect .localDc Rack.stored).length,
          (script.calls.filterMap (SetupCall.asksNode .localDc)).length)) = some (0, 1) := by
    decide +kernel
  obtain ⟨script, hrun, hlengths⟩ := Option.map_eq_some_iff.mp hview
  have hstored := ((h.last hrun) .localDc).2.length_eq
  rw [Prod.mk.injEq] at hlengths
  omega

end DynocClient
