import DynocClient.Lib.Teardown
import DynocClient.Setup.Capacity

/-!
# The memory that setup allocates

`dynoc_datacenter_init`, `dynoc_rack_init` and `dynoc_add_node` allocate blocks and store their
addresses in the structures. Here a block is a handle of a ledger and a `Pointer` a field of the
structures that holds one. `holds_setup` says what a setup script that finds room for its nodes
leaves: every block is held by exactly one field, and each of these fields belongs to something
that the script made.
-/

namespace DynocClient

open Lib

/-- A field that holds the address of a block. -/
inductive Pointer where
  /-- `local_dc` or `remote_dc`, its `name` and its `rack`. -/
  | dc (dcType : DcType)
  | dcName (dcType : DcType)
  | dcRack (dcType : DcType)
  /-- `name`, `continuum` and `redis_conn_pool` of `rack[i]`. -/
  | rackName (dcType : DcType) (i : Nat)
  | rackContinuum (dcType : DcType) (i : Nat)
  | rackPool (dcType : DcType) (i : Nat)
  /-- `token`, `endpoint.host` and `endpoint.pass` of `continuum[j]`. -/
  | token (dcType : DcType) (i j : Nat)
  | host (dcType : DcType) (i j : Nat)
  | pass (dcType : DcType) (i j : Nat)
  deriving DecidableEq

/-- The fields, each with the block it points to or `NULL`, and the blocks. -/
structure Heap where
  held : Pointer → Option Nat
  blocks : Ledger

namespace Heap

/-- Nothing allocated. -/
def empty : Heap := { held := fun _ => none, blocks := .empty }

/-- `malloc`, `calloc` or `strdup`, with the field that gets the address. -/
def alloc (heap : Heap) (pointer : Pointer) : Heap :=
  { held := Function.update heap.held pointer (some heap.blocks.issued)
    blocks := heap.blocks.acquire }

/-- `free` of what a field holds. The field keeps the address. -/
def free (heap : Heap) (pointer : Pointer) : Heap :=
  { heap with blocks := Ledger.giveBackOne heap.held heap.blocks pointer }

/-- The allocations of `continuum_init` for `continuum[j]` of `rack[i]`. -/
def continuumInit (heap : Heap) (node : Node) (dcType : DcType) (i j : Nat) : Heap :=
  let heap := (heap.alloc (.token dcType i j)).alloc (.host dcType i j)
  match node.pass with
  | some _ => heap.alloc (.pass dcType i j)
  | none => heap

/-- The allocations of `dynoc_add_node`, from `rack[i]` on. -/
def addNode (heap : Heap) (node : Node) (rcName : CString) (dcType : DcType) :
    Nat → List Rack → Heap
  | _, [] => heap
  | i, rack :: racks =>
      let heap :=
        if rack.name = some rcName then heap.continuumInit node dcType i rack.ncontinuum.toNat
        else heap
      heap.addNode node rcName dcType (i + 1) racks

/-- The allocations of a setup call. -/
def setupCall (heap : Heap) (client : Client) : SetupCall → Heap
  | .datacenterInit allocated _ _ dcType =>
      match client.dynoc.dc dcType with
      | some _ => heap
      | none =>
          if allocated then
            ((heap.alloc (.dc dcType)).alloc (.dcName dcType)).alloc (.dcRack dcType)
          else heap
  | .rackInit _ _ dcType =>
      match client.dynoc.dc dcType with
      | none => heap
      | some dc =>
          match dc.rack.findIdx? fun rack => rack.name.isNone with
          | none => heap
          | some i =>
              ((heap.alloc (.rackName dcType i)).alloc (.rackContinuum dcType i)).alloc
                (.rackPool dcType i)
  | .addNode node rcName dcType =>
      match client.dynoc.dc dcType with
      | none => heap
      | some dc => heap.addNode node rcName dcType 0 dc.rack

end Heap

/-- A client together with the memory that it has allocated. -/
structure Allocation where
  client : Client
  heap : Heap

/-- A setup call with its allocations. -/
def allocationStep (allocation : Allocation) (call : SetupCall) : Option Allocation :=
  (setupStep allocation.client call).map fun next =>
    { client := next, heap := allocation.heap.setupCall allocation.client call }

/-- The datacenter that a field is in. -/
def Pointer.dcType : Pointer → DcType
  | .dc dcType | .dcName dcType | .dcRack dcType => dcType
  | .rackName dcType _ | .rackContinuum dcType _ | .rackPool dcType _ => dcType
  | .token dcType _ _ | .host dcType _ _ | .pass dcType _ _ => dcType

/-- The field belongs to something that was made in the datacenter. -/
def Datacenter.Has (dc : Datacenter) : Pointer → Prop
  | .dc _ | .dcName _ | .dcRack _ => True
  | .rackName _ i | .rackContinuum _ i | .rackPool _ i =>
      ∃ rack, dc.rack[i]? = some rack ∧ rack.name ≠ none
  | .token _ i j | .host _ i j | .pass _ i j =>
      ∃ rack, dc.rack[i]? = some rack ∧ rack.name ≠ none ∧ j < rack.ncontinuum.toNat

/-- The field belongs to something that was made. -/
def Dynoc.Has (dynoc : Dynoc) (pointer : Pointer) : Prop :=
  ∃ dc, dynoc.dc pointer.dcType = some dc ∧ dc.Has pointer

/-- The field is not the optional `pass`. -/
def Pointer.Required : Pointer → Prop
  | .pass _ _ _ => False
  | _ => True

/-- Every block is held by one field, and the fields that hold one are these, `pass` only where a
node has one. -/
structure Heap.Holds (heap : Heap) (fields : Pointer → Prop) : Prop where
  owned : Ledger.Owned (fun _ => True) heap.held heap.blocks
  kept : Ledger.Kept (fun _ => True) heap.held heap.blocks
  within : ∀ {pointer}, heap.held pointer ≠ none → fields pointer
  required : ∀ {pointer : Pointer}, pointer.Required → fields pointer →
    heap.held pointer ≠ none

namespace Heap.Holds

variable {heap : Heap} {fields more : Pointer → Prop}

/-- The fields that hold blocks can be named in another way. -/
theorem congr (h : heap.Holds fields) (heq : ∀ pointer, more pointer ↔ fields pointer) :
    heap.Holds more where
  owned := h.owned
  kept := h.kept
  within := fun hheld => (heq _).mpr (h.within hheld)
  required := fun hrequired hmore => h.required hrequired ((heq _).mp hmore)

/-- An allocation adds its field to those that hold blocks. -/
theorem alloc (h : heap.Holds fields) (pointer : Pointer) (hnew : ¬ fields pointer) :
    (heap.alloc pointer).Holds fun other => fields other ∨ other = pointer where
  owned := h.owned.acquire pointer
  kept := (h.owned.kept_acquire_iff h.kept trivial).mpr
    (by_contra fun hheld => hnew (h.within hheld))
  within := by
    intro other hheld
    by_cases hother : other = pointer
    · exact .inr hother
    · refine .inl (h.within ?_)
      simpa [Heap.alloc, Function.update_of_ne hother] using hheld
  required := by
    intro other hrequired hfields
    by_cases hother : other = pointer
    · subst hother
      simp [Heap.alloc]
    · have hbefore := h.required hrequired (hfields.resolve_right hother)
      simpa [Heap.alloc, Function.update_of_ne hother] using hbefore

/-- The three blocks of a new datacenter or rack. -/
theorem alloc_three (h : heap.Holds fields) {first second third : Pointer}
    (hfirst : ¬ fields first) (hsecond : ¬ fields second) (hthird : ¬ fields third)
    (hdistinct : second ≠ first ∧ third ≠ first ∧ third ≠ second) :
    (((heap.alloc first).alloc second).alloc third).Holds fun pointer =>
      ((fields pointer ∨ pointer = first) ∨ pointer = second) ∨ pointer = third := by
  obtain ⟨hne, hne', hne''⟩ := hdistinct
  refine ((h.alloc first hfirst).alloc second ?_).alloc third ?_
  · rintro (hfields | heq)
    · exact hsecond hfields
    · exact hne heq
  · rintro ((hfields | heq) | heq)
    · exact hthird hfields
    · exact hne' heq
    · exact hne'' heq

/-- An optional field may stay `NULL`. -/
theorem skip (h : heap.Holds fields) (pointer : Pointer) (hoptional : ¬ pointer.Required) :
    heap.Holds fun other => fields other ∨ other = pointer where
  owned := h.owned
  kept := h.kept
  within := fun hheld => .inl (h.within hheld)
  required := by
    rintro other hrequired (hfields | rfl)
    · exact h.required hrequired hfields
    · exact absurd hrequired hoptional

end Heap.Holds

/-- A field of `continuum[j]`. -/
def Pointer.OfElement (dcType : DcType) (i j : Nat) (pointer : Pointer) : Prop :=
  pointer = .token dcType i j ∨ pointer = .host dcType i j ∨ pointer = .pass dcType i j

/-- `continuum_init` allocates the blocks of its element. -/
theorem Heap.Holds.continuum_init {heap : Heap} {fields : Pointer → Prop} (node : Node)
    {dcType : DcType} {i j : Nat} (h : heap.Holds fields)
    (hnew : ∀ pointer, pointer.OfElement dcType i j → ¬ fields pointer) :
    (heap.continuumInit node dcType i j).Holds fun pointer =>
      fields pointer ∨ pointer.OfElement dcType i j := by
  have htoken := h.alloc (.token dcType i j) (hnew _ (.inl rfl))
  have hhost := htoken.alloc (.host dcType i j) (by
    rintro (hfields | heq)
    · exact hnew _ (.inr (.inl rfl)) hfields
    · cases heq)
  have hpass : (heap.continuumInit node dcType i j).Holds fun pointer =>
      ((fields pointer ∨ pointer = .token dcType i j) ∨ pointer = .host dcType i j) ∨
        pointer = .pass dcType i j := by
    unfold Heap.continuumInit
    cases node.pass with
    -- without a password the field stays `NULL`
    | none => exact hhost.skip _ id
    | some pass =>
        refine hhost.alloc _ ?_
        rintro ((hfields | heq) | heq)
        · exact hnew _ (.inr (.inr rfl)) hfields
        · cases heq
        · cases heq
  refine hpass.congr fun pointer => ?_
  unfold Pointer.OfElement
  tauto

/-- A block of an element tells which element it is of. -/
theorem Pointer.OfElement.index {pointer : Pointer} {dcType other : DcType} {i j k l : Nat}
    (h : pointer.OfElement dcType i j) (hother : pointer.OfElement other k l) :
    dcType = other ∧ i = k ∧ j = l := by
  rcases h with rfl | rfl | rfl
  all_goals
    rcases hother with heq | heq | heq <;> cases heq
    exact ⟨rfl, rfl, rfl⟩

/-- The fields of the elements that `dynoc_add_node` fills, from `rack[i]` on. -/
def Pointer.OfNode (rcName : CString) (dcType : DcType) (i : Nat) (racks : List Rack)
    (pointer : Pointer) : Prop :=
  ∃ k rack, racks[k]? = some rack ∧ rack.name = some rcName ∧
    pointer.OfElement dcType (i + k) rack.ncontinuum.toNat

/-- A rack of a list is the first or one of the others. -/
theorem exists_rack_cons {P : Nat → Rack → Prop} {i : Nat} {rack : Rack} {racks : List Rack} :
    (∃ (k : Nat) (found : Rack), (rack :: racks)[k]? = some found ∧ P (i + k) found) ↔
      P i rack ∨ ∃ (k : Nat) (found : Rack), racks[k]? = some found ∧ P (i + 1 + k) found := by
  constructor
  · rintro ⟨_ | k, found, hfound, h⟩
    · obtain rfl := Option.some.inj hfound
      exact .inl h
    · refine .inr ⟨k, found, hfound, ?_⟩
      rwa [show i + 1 + k = i + (k + 1) by omega]
  · rintro (h | ⟨k, found, hfound, h⟩)
    · exact ⟨0, rack, rfl, h⟩
    · refine ⟨k + 1, found, hfound, ?_⟩
      rwa [show i + (k + 1) = i + 1 + k by omega]

/-- The blocks of an added node are those in the first rack, if it has the name, and those in the
others. -/
theorem of_node_cons {rcName : CString} {dcType : DcType} {i : Nat} {rack : Rack}
    {racks : List Rack} {pointer : Pointer} :
    pointer.OfNode rcName dcType i (rack :: racks) ↔
      (rack.name = some rcName ∧ pointer.OfElement dcType i rack.ncontinuum.toNat) ∨
        pointer.OfNode rcName dcType (i + 1) racks :=
  exists_rack_cons (P := fun i rack =>
    rack.name = some rcName ∧ pointer.OfElement dcType i rack.ncontinuum.toNat)

/-- `dynoc_add_node` allocates an element in every rack of its name. -/
theorem Heap.Holds.add_node {heap : Heap} {fields : Pointer → Prop} (node : Node)
    {rcName : CString} {dcType : DcType} {i : Nat} {racks : List Rack} (h : heap.Holds fields)
    (hnew : ∀ pointer, pointer.OfNode rcName dcType i racks → ¬ fields pointer) :
    (heap.addNode node rcName dcType i racks).Holds fun pointer =>
      fields pointer ∨ pointer.OfNode rcName dcType i racks := by
  induction racks generalizing heap fields i with
  | nil => exact h.congr fun pointer => by simp [Pointer.OfNode]
  | cons rack racks ih =>
      have hfirst : (if rack.name = some rcName then
          heap.continuumInit node dcType i rack.ncontinuum.toNat else heap).Holds fun pointer =>
            fields pointer ∨
              (rack.name = some rcName ∧ pointer.OfElement dcType i rack.ncontinuum.toNat) := by
        split
        · rename_i hname
          have hinit := h.continuum_init node fun pointer hpointer =>
            hnew pointer (of_node_cons.mpr (.inl ⟨hname, hpointer⟩))
          exact hinit.congr fun pointer => by simp [hname]
        · rename_i hname
          exact h.congr fun pointer => by simp [hname]
      have hrest := ih hfirst (by
        rintro pointer hpointer (hfields | ⟨-, hfields⟩)
        · exact hnew pointer (of_node_cons.mpr (.inr hpointer)) hfields
        -- the racks behind this one have other indices
        · obtain ⟨k, found, -, -, hfound⟩ := hpointer
          have hindex := (hfields.index hfound).2.1
          omega)
      refine hrest.congr fun pointer => ?_
      rw [of_node_cons, or_assoc]

/-! ## What the calls make -/

section Has

variable {client : Client} {dcType : DcType} {dc : Datacenter} {pointer : Pointer}

/-- The blocks of a client with a datacenter replaced are those of the new one and of the other. -/
theorem has_with_dc :
    (client.withDc dcType dc).dynoc.Has pointer ↔
      if pointer.dcType = dcType then dc.Has pointer else client.dynoc.Has pointer := by
  unfold Dynoc.Has
  split
  · rename_i heq
    rw [heq, Client.with_dc_same]
    simp
  · rename_i hne
    rw [Client.with_dc_other _ _ hne]

/-- The blocks of a client in a datacenter are those of the datacenter. -/
theorem has_of_dc (hdc : client.dynoc.dc dcType = some dc) (hpointer : pointer.dcType = dcType) :
    client.dynoc.Has pointer ↔ dc.Has pointer := by
  unfold Dynoc.Has
  rw [hpointer, hdc]
  simp

/-- Nothing was made in a datacenter that does not exist. -/
theorem not_has_of_none (hdc : client.dynoc.dc dcType = none) (hpointer : pointer.dcType = dcType) :
    ¬ client.dynoc.Has pointer := by
  rintro ⟨dc, hsome, -⟩
  rw [hpointer, hdc] at hsome
  cases hsome

/-- A new datacenter. -/
theorem has_datacenter_init (hdc : client.dynoc.dc dcType = none) (rackCount : UInt32)
    (name : CString) :
    (client.withDc dcType (newDatacenter rackCount name dcType)).dynoc.Has pointer ↔
      ((client.dynoc.Has pointer ∨ pointer = .dc dcType) ∨ pointer = .dcName dcType) ∨
        pointer = .dcRack dcType := by
  have hzero : ∀ (i : Nat) (rack : Rack),
      (newDatacenter rackCount name dcType).rack[i]? = some rack → rack.name = none := by
    intro i rack hrack
    rw [List.eq_of_mem_replicate (List.mem_of_getElem? hrack)]
    rfl
  rw [has_with_dc]
  split
  · rename_i hpointer
    have hbefore := not_has_of_none hdc hpointer
    cases pointer
    all_goals
      obtain rfl := hpointer
      simp only [Datacenter.Has, hbefore, Pointer.dcType, reduceCtorEq, or_false, or_true,
        iff_false, not_exists, not_and, not_not]
    all_goals
      intro rack hrack
      first
        | exact hzero _ rack hrack
        | exact fun hname => absurd (hzero _ rack hrack) hname
  · rename_i hpointer
    constructor
    · exact fun hhas => .inl (.inl (.inl hhas))
    · rintro (((hhas | rfl) | rfl) | rfl)
      · exact hhas
      all_goals exact absurd rfl hpointer

/-- More that is made in a datacenter is more that is made. -/
theorem has_of_more {dc' : Datacenter} {more : Pointer → Prop}
    (hdc : client.dynoc.dc dcType = some dc)
    (hhas : ∀ pointer : Pointer, pointer.dcType = dcType →
      (dc'.Has pointer ↔ dc.Has pointer ∨ more pointer))
    (hmore : ∀ pointer, more pointer → pointer.dcType = dcType) :
    (client.withDc dcType dc').dynoc.Has pointer ↔ client.dynoc.Has pointer ∨ more pointer := by
  rw [has_with_dc]
  split
  · rename_i hpointer
    rw [has_of_dc hdc hpointer]
    exact hhas pointer hpointer
  · rename_i hpointer
    exact ⟨.inl, fun h => h.resolve_right fun hm => hpointer (hmore pointer hm)⟩

/-- A field of a rack. -/
def Pointer.OfRack (dcType : DcType) (i : Nat) (pointer : Pointer) : Prop :=
  (pointer = .rackName dcType i ∨ pointer = .rackContinuum dcType i) ∨
    pointer = .rackPool dcType i

/-- A rack that gets a name. -/
theorem has_rack_init {i : Nat} {old : Rack} (hold : dc.rack[i]? = some old)
    (hname : old.name = none) (nodeCount : UInt32) (name : CString)
    (hpointer : pointer.dcType = dcType) :
    ({ dc with rack := dc.rack.set i (initRack nodeCount name) } : Datacenter).Has pointer ↔
      dc.Has pointer ∨ pointer.OfRack dcType i := by
  have hlt : i < dc.rack.length := (List.getElem?_eq_some_iff.mp hold).choose
  have hset : ∀ k, (dc.rack.set i (initRack nodeCount name))[k]? =
      if i = k then some (initRack nodeCount name) else dc.rack[k]? := by
    intro k
    rw [List.getElem?_set, if_pos hlt]
  cases pointer with
  | dc | dcName | dcRack => simp [Datacenter.Has]
  | rackName _ k | rackContinuum _ k | rackPool _ k =>
      obtain rfl := hpointer
      simp only [Datacenter.Has, hset, Pointer.OfRack, reduceCtorEq, Pointer.rackName.injEq,
        Pointer.rackContinuum.injEq, Pointer.rackPool.injEq, Pointer.dcType, or_false, false_or,
        true_and]
      by_cases hk : i = k
      · subst hk
        simp [initRack]
      · simp [hk, Ne.symm hk]
  | token _ k j | host _ k j | pass _ k j =>
      simp only [Datacenter.Has, hset, Pointer.OfRack, reduceCtorEq, or_false]
      by_cases hk : i = k
      · subst hk
        simp [initRack, hold, hname]
      · simp [hk]

/-- A node that finds room. -/
theorem has_add_node (node : Node) {rcName : CString}
    (hroom : ∀ rack ∈ dc.rack, rack.name = some rcName → rack.ncontinuum < rack.nodeCount)
    (hpointer : pointer.dcType = dcType) :
    ({ dc with rack := dc.rack.map (Rack.addNode node rcName) } : Datacenter).Has pointer ↔
      dc.Has pointer ∨ pointer.OfNode rcName dcType 0 dc.rack := by
  -- there is room, so the counter does not wrap around
  have hcount : ∀ rack ∈ dc.rack, ∀ j, j < (rack.addNode node rcName).ncontinuum.toNat ↔
      j < rack.ncontinuum.toNat ∨ (rack.name = some rcName ∧ j = rack.ncontinuum.toNat) := by
    intro rack hrack j
    by_cases hname : rack.name = some rcName
    · rw [Rack.add_node_of_name hname, to_nat_succ_of_lt (hroom rack hrack hname)]
      simp only [hname, true_and]
      omega
    · rw [Rack.add_node_of_ne hname]
      simp [hname]
  cases pointer with
  | dc | dcName | dcRack => simp [Datacenter.Has]
  | rackName _ k | rackContinuum _ k | rackPool _ k =>
      simp [Datacenter.Has, Pointer.OfNode, Pointer.OfElement]
  | token _ k j | host _ k j | pass _ k j =>
      obtain rfl := hpointer
      simp only [Datacenter.Has, List.getElem?_map, Option.map_eq_some_iff, Pointer.OfNode,
        Pointer.OfElement, reduceCtorEq, Pointer.token.injEq, Pointer.host.injEq,
        Pointer.pass.injEq, Pointer.dcType, Nat.zero_add, or_false, false_or, true_and]
      constructor
      · rintro ⟨_, ⟨rack, hrack, rfl⟩, hnamed, hlt⟩
        rw [Rack.add_node_name] at hnamed
        rcases (hcount rack (List.mem_of_getElem? hrack) j).mp hlt with hlt | ⟨hname, rfl⟩
        · exact .inl ⟨rack, hrack, hnamed, hlt⟩
        · exact .inr ⟨k, rack, hrack, hname, rfl, rfl⟩
      · rintro (⟨rack, hrack, hnamed, hlt⟩ | ⟨_, rack, hrack, hname, rfl, rfl⟩)
        · exact ⟨_, ⟨rack, hrack, rfl⟩, by rwa [Rack.add_node_name],
            (hcount rack (List.mem_of_getElem? hrack) j).mpr (.inl hlt)⟩
        · exact ⟨_, ⟨rack, hrack, rfl⟩, by simp [hname],
            (hcount rack (List.mem_of_getElem? hrack) _).mpr (.inr ⟨hname, rfl⟩)⟩

/-- A block of a rack tells its datacenter. -/
theorem Pointer.OfRack.dc_type {i : Nat} (h : pointer.OfRack dcType i) :
    pointer.dcType = dcType := by
  rcases h with (rfl | rfl) | rfl <;> rfl

/-- A block of an added node tells its datacenter. -/
theorem Pointer.OfNode.dc_type {rcName : CString} {i : Nat} {racks : List Rack}
    (h : pointer.OfNode rcName dcType i racks) : pointer.dcType = dcType := by
  obtain ⟨k, rack, -, -, hpointer⟩ := h
  rcases hpointer with rfl | rfl | rfl <;> rfl

/-- Nothing was made in a rack without a name. -/
theorem not_has_of_rack {i : Nat} {rack : Rack} (hdc : client.dynoc.dc dcType = some dc)
    (hrack : dc.rack[i]? = some rack) (hname : rack.name = none)
    (hpointer : pointer.OfRack dcType i) : ¬ client.dynoc.Has pointer := by
  rw [has_of_dc hdc hpointer.dc_type]
  intro hhas
  obtain ⟨found, hfound, hnamed⟩ : ∃ found, dc.rack[i]? = some found ∧ found.name ≠ none := by
    rcases hpointer with (rfl | rfl) | rfl <;> exact hhas
  obtain rfl := Option.some.inj (hrack.symm.trans hfound)
  exact hnamed hname

/-- The next element of a rack has not been filled. -/
theorem not_has_of_node {rcName : CString} (hdc : client.dynoc.dc dcType = some dc)
    (hpointer : pointer.OfNode rcName dcType 0 dc.rack) : ¬ client.dynoc.Has pointer := by
  rw [has_of_dc hdc hpointer.dc_type]
  intro hhas
  obtain ⟨k, rack, hrack, -, helement⟩ := hpointer
  rw [Nat.zero_add] at helement
  obtain ⟨found, hfound, -, hlt⟩ : ∃ found, dc.rack[k]? = some found ∧ found.name ≠ none ∧
      rack.ncontinuum.toNat < found.ncontinuum.toNat := by
    rcases helement with rfl | rfl | rfl <;> exact hhas
  obtain rfl := Option.some.inj (hrack.symm.trans hfound)
  exact Nat.lt_irrefl _ hlt

end Has

/-! ## What the calls allocate -/

section Step

variable {client next : Client} {heap : Heap} {dcType : DcType}
  (h : heap.Holds client.dynoc.Has)
include h

/-- `dynoc_datacenter_init` allocates what the client then has. -/
theorem holds_datacenter_init {allocated : Bool} {rackCount : UInt32} {name : CString}
    (hstep : setupStep client (.datacenterInit allocated rackCount name dcType) = some next) :
    (heap.setupCall client (.datacenterInit allocated rackCount name dcType)).Holds
      next.dynoc.Has := by
  simp only [setupStep, SetupCall.exec, dynocDatacenterInit, pure, Except.pure] at hstep
  cases hdc : client.dynoc.dc dcType with
  | some dc =>
      obtain rfl : client = next := by simpa [hdc] using hstep
      simpa [Heap.setupCall, hdc] using h
  | none =>
      cases allocated with
      | false =>
          obtain rfl : client = next := by simpa [hdc] using hstep
          simpa [Heap.setupCall, hdc] using h
      | true =>
          obtain rfl : client.withDc dcType (newDatacenter rackCount name dcType) = next := by
            simpa [hdc] using hstep
          have hnew : ∀ pointer : Pointer, pointer.dcType = dcType →
              ¬ client.dynoc.Has pointer := fun pointer => not_has_of_none hdc
          have hmade := h.alloc_three (hnew (.dc dcType) rfl) (hnew (.dcName dcType) rfl)
            (hnew (.dcRack dcType) rfl) (by simp)
          simp only [Heap.setupCall, hdc, if_true]
          exact hmade.congr fun pointer => has_datacenter_init hdc rackCount name

/-- `dynoc_rack_init` allocates what the client then has. -/
theorem holds_rack_init {nodeCount : UInt32} {name : CString}
    (hstep : setupStep client (.rackInit nodeCount name dcType) = some next) :
    (heap.setupCall client (.rackInit nodeCount name dcType)).Holds next.dynoc.Has := by
  simp only [setupStep, SetupCall.exec, dynocRackInit, pure, Except.pure] at hstep
  cases hdc : client.dynoc.dc dcType with
  | none => simp [hdc, throw, throwThe, MonadExceptOf.throw] at hstep
  | some dc =>
      cases hfind : dc.rack.findIdx? (fun rack => rack.name.isNone) with
      | none =>
          obtain rfl : client = next := by simpa [hdc, hfind] using hstep
          simpa [Heap.setupCall, hdc, hfind] using h
      | some i =>
          simp only [hdc, hfind, Option.some.injEq] at hstep
          obtain rfl := hstep
          obtain ⟨hlt, hname, -⟩ := List.findIdx?_eq_some_iff_getElem.mp hfind
          have hold : dc.rack[i]? = some dc.rack[i] := List.getElem?_eq_getElem hlt
          have hnone : dc.rack[i].name = none := Option.isNone_iff_eq_none.mp hname
          have hnew : ∀ pointer : Pointer, pointer.OfRack dcType i → ¬ client.dynoc.Has pointer :=
            fun pointer => not_has_of_rack hdc hold hnone
          have hmade := h.alloc_three (hnew _ (.inl (.inl rfl))) (hnew _ (.inl (.inr rfl)))
            (hnew _ (.inr rfl)) (by simp)
          simp only [Heap.setupCall, hdc, hfind]
          refine hmade.congr fun pointer => (has_of_more hdc
            (fun pointer => has_rack_init hold hnone nodeCount name)
            (fun pointer => Pointer.OfRack.dc_type)).trans ?_
          unfold Pointer.OfRack
          tauto

/-- `dynoc_add_node` within capacity allocates what the client then has. -/
theorem holds_add_node {node : Node} {rcName : CString}
    (hroom : HasRoom client (.addNode node rcName dcType))
    (hstep : setupStep client (.addNode node rcName dcType) = some next) :
    (heap.setupCall client (.addNode node rcName dcType)).Holds next.dynoc.Has := by
  cases hdc : client.dynoc.dc dcType with
  | none =>
      simp [setupStep, SetupCall.exec, dynocAddNode, hdc, throw, throwThe,
        MonadExceptOf.throw] at hstep
  | some dc =>
      rw [setup_step_add_node hdc] at hstep
      obtain rfl := Option.some.inj hstep
      simp only [Heap.setupCall, hdc]
      refine (h.add_node node fun pointer => not_has_of_node hdc).congr fun pointer => ?_
      exact has_of_more hdc (fun pointer => has_add_node node (hroom dc hdc))
        (fun pointer => Pointer.OfNode.dc_type)

/-- A setup call that finds room for its nodes keeps every block held by one field. -/
theorem holds_setup_step {call : SetupCall} (hroom : HasRoom client call)
    (hstep : setupStep client call = some next) :
    (heap.setupCall client call).Holds next.dynoc.Has := by
  cases call with
  | datacenterInit => exact holds_datacenter_init h hstep
  | rackInit => exact holds_rack_init h hstep
  | addNode => exact holds_add_node h hroom hstep

end Step

/-- Before the first call nothing is allocated. -/
theorem holds_init (conn : Slot → RedisConnection) :
    Heap.empty.Holds (dynocInit conn).dynoc.Has where
  owned := Ledger.owned_empty fun _ _ => rfl
  kept := Ledger.kept_empty
  within := fun hheld => absurd rfl hheld
  required := by
    rintro pointer - ⟨dc, hdc, -⟩
    cases hdcType : pointer.dcType <;> simp [hdcType, dynocInit, Dynoc.dc] at hdc

/-- A setup script that finds room for its nodes leaves every block held by one field, and each
field that has one belongs to something it made. -/
theorem holds_setup {conn : Slot → RedisConnection} {calls : List SetupCall}
    {client : Client} {heap : Heap}
    (hrun : runFrom allocationStep ⟨dynocInit conn, .empty⟩ calls = some ⟨client, heap⟩)
    (hroom : EachStep setupStep HasRoom (dynocInit conn) calls) :
    runFrom setupStep (dynocInit conn) calls = some client ∧ heap.Holds client.dynoc.Has := by
  have hgeneral : ∀ (calls : List SetupCall) (start : Allocation),
      start.heap.Holds start.client.dynoc.Has →
      EachStep setupStep HasRoom start.client calls →
      runFrom allocationStep start calls = some ⟨client, heap⟩ →
      runFrom setupStep start.client calls = some client ∧ heap.Holds client.dynoc.Has := by
    intro calls
    induction calls with
    | nil =>
        intro start hstart _ hrun
        cases hrun
        exact ⟨rfl, hstart⟩
    | cons call rest ih =>
        intro start hstart hroom hrun
        obtain ⟨next, hstep, hrest⟩ := run_from_cons.mp hrun
        obtain ⟨after, hafter, rfl⟩ := Option.map_eq_some_iff.mp hstep
        obtain ⟨hsetup, hholds⟩ := ih _ (holds_setup_step hstart hroom.1 hafter)
          (hroom.2 after hafter) hrest
        exact ⟨run_from_cons.mpr ⟨after, hafter, hsetup⟩, hholds⟩
  exact hgeneral calls _ (holds_init conn) hroom hrun

end DynocClient
