import DynocClient.Setup.Memory
import DynocClient.System.Leaks
import Mathlib.Logic.Equiv.Defs

/-!
# `dynoc_destroy`

`dynoc_destroy` frees what the setup calls allocated and closes the contexts of the slots. After a
setup script that finds room for its nodes it frees every block once and nothing else
(`destroy_frees_all`). It closes no context twice, and closes all of them if and only if none was
lost before (`destroy_closes_iff`).

The sort of `dynoc_start` moves the elements of a rack with the addresses in them; `ElementMoves`
is any way to do that. `pthread_cancel` ends the reconnect thread and is not part of the model.
-/

namespace DynocClient

open Lib

/-! ## The sort of `dynoc_start` -/

/-- The elements of every rack, as a sort moves them: the new `continuum[j]` is the old
`continuum[perm j]`. -/
structure ElementMoves (dynoc : Dynoc) where
  perm : DcType → Nat → Equiv.Perm Nat
  keeps : ∀ {dcType dc i rack}, dynoc.dc dcType = some dc → dc.rack[i]? = some rack → ∀ j,
    perm dcType i j < rack.ncontinuum.toNat ↔ j < rack.ncontinuum.toNat

/-- Where the address in a field comes from. -/
def Pointer.origin (perm : DcType → Nat → Equiv.Perm Nat) : Pointer → Pointer
  | .token dcType i j => .token dcType i (perm dcType i j)
  | .host dcType i j => .host dcType i (perm dcType i j)
  | .pass dcType i j => .pass dcType i (perm dcType i j)
  | pointer => pointer

/-- The fields after the sort. -/
def Heap.moved (heap : Heap) (perm : DcType → Nat → Equiv.Perm Nat) : Heap :=
  { heap with held := fun pointer => heap.held (pointer.origin perm) }

/-! ## The functions -/

/-- What `dynoc_destroy` works on: the memory, the connections, and the mutexes it has destroyed. -/
structure Teardown where
  heap : Heap
  world : World
  mutexes : List Slot

/-- `free` of what a field holds. -/
def Teardown.free (state : Teardown) (pointer : Pointer) : Teardown :=
  { state with heap := state.heap.free pointer }

/-- `continuum_destroy` on `continuum[j]` of `rack[i]`. -/
def continuumDestroy (dcType : DcType) (i : Nat) (state : Teardown) (j : Nat) : Teardown :=
  ((state.free (.host dcType i j)).free (.pass dcType i j)).free (.token dcType i j)

/-- The loop body of `rack_destroy` over `redis_conn_pool`. -/
def connectionDestroy (state : Teardown) (slot : Slot) : Teardown :=
  match (state.world.conn slot).ctx with
  -- without a context the mutex is not destroyed either
  | none => state
  | some ctx => { state with
      world := state.world.redisFree slot (some ctx)
      mutexes := state.mutexes ++ [slot] }

/-- The slots of `redis_conn_pool` of `rack[i]`. -/
def Rack.poolSlots (dcType : DcType) (i : Nat) (rack : Rack) : List Slot :=
  (List.range rack.nodeCount.toNat).map fun j => ⟨dcType, i, j⟩

/-- `rack_destroy` on `rack[i]`. -/
def rackDestroy (dcType : DcType) (i : Nat) (rack : Rack) (state : Teardown) : Teardown :=
  let state := state.free (.rackName dcType i)
  let state :=
    match state.heap.held (.rackContinuum dcType i) with
    | none => state
    | some _ =>
        ((List.range rack.ncontinuum.toNat).foldl (continuumDestroy dcType i) state).free
          (.rackContinuum dcType i)
  match state.heap.held (.rackPool dcType i) with
  | none => state
  | some _ =>
      ((rack.poolSlots dcType i).foldl connectionDestroy state).free (.rackPool dcType i)

/-- The loop of `datacenter_destroy`, from `rack[i]` on. -/
def racksDestroy (dcType : DcType) : Nat → List Rack → Teardown → Teardown
  | _, [], state => state
  | i, rack :: racks, state =>
      racksDestroy dcType (i + 1) racks (rackDestroy dcType i rack state)

/-- `datacenter_destroy`, and the `free` of the datacenter after it. -/
def datacenterDestroy (dynoc : Dynoc) (dcType : DcType) (state : Teardown) : Teardown :=
  match dynoc.dc dcType with
  | none => state
  | some dc =>
      let state := racksDestroy dcType 0 dc.rack (state.free (.dcName dcType))
      (state.free (.dcRack dcType)).free (.dc dcType)

/-- `dynoc_destroy`. -/
def dynocDestroy (dynoc : Dynoc) (state : Teardown) : Teardown :=
  datacenterDestroy dynoc .remoteDc (datacenterDestroy dynoc .localDc state)

/-! ## What they give back -/

/-- The blocks in these fields are freed and the contexts of these slots closed, in this order. -/
structure GivesBack (before after : Teardown) (pointers : List Pointer) (slots : List Slot) :
    Prop where
  held : after.heap.held = before.heap.held
  blocks : after.heap.blocks = Ledger.giveBack before.heap.held before.heap.blocks pointers
  conn : after.world.conn = before.world.conn
  ctxs : after.world.ctxs = Ledger.giveBack before.world.ctx before.world.ctxs slots
  mutexes : after.mutexes =
    before.mutexes ++ slots.filter fun slot => (before.world.ctx slot).isSome

section GivesBack

variable {first second third : Teardown} {pointers more : List Pointer} {slots others : List Slot}

/-- Doing nothing gives back nothing. -/
theorem gives_back_refl (state : Teardown) : GivesBack state state [] [] :=
  ⟨rfl, rfl, rfl, rfl, by simp⟩

/-- What two stretches give back together is the one list after the other. -/
theorem GivesBack.trans (h : GivesBack first second pointers slots)
    (hmore : GivesBack second third more others) :
    GivesBack first third (pointers ++ more) (slots ++ others) where
  held := hmore.held.trans h.held
  blocks := by rw [hmore.blocks, h.held, h.blocks, Ledger.give_back_append]
  conn := hmore.conn.trans h.conn
  ctxs := by
    have hctx : second.world.ctx = first.world.ctx := by
      funext slot
      simp only [World.ctx, h.conn]
    rw [hmore.ctxs, hctx, h.ctxs, Ledger.give_back_append]
  mutexes := by
    have hctx : second.world.ctx = first.world.ctx := by
      funext slot
      simp only [World.ctx, h.conn]
    rw [hmore.mutexes, hctx, h.mutexes, List.filter_append, List.append_assoc]

/-- `free` gives back the one pointer it is given. -/
theorem gives_back_free (state : Teardown) (pointer : Pointer) :
    GivesBack state (state.free pointer) [pointer] [] :=
  ⟨rfl, rfl, rfl, rfl, by simp [Teardown.free]⟩

/-- `redis_connection_destroy` gives back no block, and closes and destroys the one slot. -/
theorem gives_back_connection (state : Teardown) (slot : Slot) :
    GivesBack state (connectionDestroy state slot) [] [slot] := by
  unfold connectionDestroy
  cases hctx : (state.world.conn slot).ctx with
  | none =>
      refine ⟨rfl, rfl, rfl, ?_, ?_⟩
      · simp [Ledger.giveBack, Ledger.giveBackOne, World.ctx, hctx]
      · simp [World.ctx, hctx]
  | some ctx =>
      refine ⟨rfl, rfl, by simp, ?_, ?_⟩
      · simp [Ledger.giveBack, Ledger.giveBackOne, World.ctx, hctx]
      · simp [World.ctx, hctx]

end GivesBack

/-- Of these fields every one that is not `NULL` is freed once, and of these slots every one that
has a context is closed once; nothing else is. -/
def Clears (before after : Teardown) (fields : Pointer → Prop) (slots : Slot → Prop) : Prop :=
  ∃ pointers closed, GivesBack before after pointers closed ∧
    (pointers.Nodup ∧ (∀ pointer ∈ pointers, fields pointer) ∧
      ∀ pointer, fields pointer → before.heap.held pointer ≠ none → pointer ∈ pointers) ∧
    closed.Nodup ∧ (∀ slot ∈ closed, slots slot) ∧
      ∀ slot, slots slot → before.world.ctx slot ≠ none → slot ∈ closed

section Clears

variable {first second third : Teardown} {fields others : Pointer → Prop}
  {slots more : Slot → Prop}

/-- Clearing leaves every field of the structs as it was. -/
theorem Clears.held (h : Clears first second fields slots) :
    second.heap.held = first.heap.held := by
  obtain ⟨pointers, closed, hgives, -⟩ := h
  exact hgives.held

/-- One part after the other, if they have nothing in common. -/
theorem Clears.trans (h : Clears first second fields slots)
    (hmore : Clears second third others more)
    (hdisjoint : ∀ pointer, fields pointer → ¬ others pointer)
    (hapart : ∀ slot, slots slot → ¬ more slot) :
    Clears first third (fun pointer => fields pointer ∨ others pointer)
      (fun slot => slots slot ∨ more slot) := by
  obtain ⟨pointers, closed, hgives, ⟨hnodup, hmem, hall⟩, hnodupSlots, hmemSlots, hallSlots⟩ := h
  obtain ⟨pointers', closed', hgives', ⟨hnodup', hmem', hall'⟩, hnodupSlots', hmemSlots',
    hallSlots'⟩ := hmore
  have hctx : second.world.ctx = first.world.ctx := by
    funext slot
    simp only [World.ctx, hgives.conn]
  refine ⟨pointers ++ pointers', closed ++ closed', hgives.trans hgives', ⟨?_, ?_, ?_⟩, ?_, ?_, ?_⟩
  · refine List.nodup_append.mpr ⟨hnodup, hnodup', ?_⟩
    rintro pointer hpointer _ hpointer' rfl
    exact hdisjoint pointer (hmem pointer hpointer) (hmem' pointer hpointer')
  · intro pointer hpointer
    exact (List.mem_append.mp hpointer).imp (hmem pointer) (hmem' pointer)
  · rintro pointer (hfields | hothers) hheld
    · exact List.mem_append_left _ (hall pointer hfields hheld)
    · exact List.mem_append_right _ (hall' pointer hothers (hgives.held ▸ hheld))
  · refine List.nodup_append.mpr ⟨hnodupSlots, hnodupSlots', ?_⟩
    rintro slot hslot _ hslot' rfl
    exact hapart slot (hmemSlots slot hslot) (hmemSlots' slot hslot')
  · intro slot hslot
    exact (List.mem_append.mp hslot).imp (hmemSlots slot) (hmemSlots' slot)
  · rintro slot (hslot | hslot) hheld
    · exact List.mem_append_left _ (hallSlots slot hslot hheld)
    · exact List.mem_append_right _ (hallSlots' slot hslot (hctx ▸ hheld))

/-- What is cleared can be named in another way. -/
theorem Clears.congr {fields' : Pointer → Prop} {slots' : Slot → Prop}
    (h : Clears first second fields slots) (hfields : ∀ pointer, fields' pointer ↔ fields pointer)
    (hslots : ∀ slot, slots' slot ↔ slots slot) : Clears first second fields' slots' := by
  obtain ⟨pointers, closed, hgives, ⟨hnodup, hmem, hall⟩, hnodupSlots, hmemSlots, hallSlots⟩ := h
  exact ⟨pointers, closed, hgives,
    ⟨hnodup, fun pointer hpointer => (hfields pointer).mpr (hmem pointer hpointer),
      fun pointer hpointer => hall pointer ((hfields pointer).mp hpointer)⟩,
    hnodupSlots, fun slot hslot => (hslots slot).mpr (hmemSlots slot hslot),
    fun slot hslot => hallSlots slot ((hslots slot).mp hslot)⟩

/-- Nothing has to be done for fields that are `NULL` and slots without a context. -/
theorem clears_nothing (state : Teardown) (hfields : ∀ pointer, fields pointer →
    state.heap.held pointer = none) (hslots : ∀ slot, slots slot → state.world.ctx slot = none) :
    Clears state state fields slots :=
  ⟨[], [], gives_back_refl state,
    ⟨List.nodup_nil, by simp,
      fun pointer hpointer hheld => absurd (hfields pointer hpointer) hheld⟩,
    List.nodup_nil, by simp, fun slot hslot hheld => absurd (hslots slot hslot) hheld⟩

/-- `free` clears the block of its pointer. -/
theorem clears_free (state : Teardown) (pointer : Pointer) :
    Clears state (state.free pointer) (fun other => other = pointer) (fun _ => False) :=
  ⟨[pointer], [], gives_back_free state pointer,
    ⟨List.nodup_singleton _, by simp, by simp⟩, List.nodup_nil, by simp, by simp⟩

/-- `redis_connection_destroy` clears its slot. -/
theorem clears_connection (state : Teardown) (slot : Slot) :
    Clears state (connectionDestroy state slot) (fun _ => False) (fun other => other = slot) :=
  ⟨[], [slot], gives_back_connection state slot,
    ⟨List.nodup_nil, by simp, by simp⟩, List.nodup_singleton _, by simp, by simp⟩

/-- A loop clears what its turns clear, if no two of them have anything in common. -/
theorem clears_foldl {α : Type} {body : Teardown → α → Teardown} {fields : α → Pointer → Prop}
    {slots : α → Slot → Prop}
    (hbody : ∀ state item, Clears state (body state item) (fields item) (slots item))
    {items : List α} (hnodup : items.Nodup)
    (hdisjoint : ∀ item other pointer, fields item pointer → fields other pointer → item = other)
    (hapart : ∀ item other slot, slots item slot → slots other slot → item = other)
    (state : Teardown) :
    Clears state (items.foldl body state) (fun pointer => ∃ item ∈ items, fields item pointer)
      (fun slot => ∃ item ∈ items, slots item slot) := by
  induction items generalizing state with
  | nil => exact clears_nothing state (by simp) (by simp)
  | cons item rest ih =>
      obtain ⟨hnot, hrest⟩ := List.nodup_cons.mp hnodup
      refine ((hbody state item).trans (ih hrest (body state item)) ?_ ?_).congr ?_ ?_
      -- a turn has nothing in common with the later ones
      · rintro pointer hitem ⟨other, hother, hpointer⟩
        exact hnot (hdisjoint item other pointer hitem hpointer ▸ hother)
      · rintro slot hitem ⟨other, hother, hslot⟩
        exact hnot (hapart item other slot hitem hslot ▸ hother)
      · exact fun pointer => by simp
      · exact fun slot => by simp

/-- `continuum_destroy` clears the blocks of its element. -/
theorem clears_element (dcType : DcType) (i : Nat) (state : Teardown) (j : Nat) :
    Clears state (continuumDestroy dcType i state j) (Pointer.OfElement dcType i j)
      (fun _ => False) := by
  refine (((clears_free state _).trans (clears_free _ _) ?_ ?_).trans (clears_free _ _)
    ?_ ?_).congr ?_ ?_
  · rintro pointer rfl
    simp
  · simp
  · rintro pointer (rfl | rfl) <;> simp
  · simp
  · intro pointer
    unfold Pointer.OfElement
    tauto
  · simp

/-- The loop of `rack_destroy` clears the blocks of the elements below its bound. -/
theorem clears_elements (dcType : DcType) (i n : Nat) (state : Teardown) :
    Clears state ((List.range n).foldl (continuumDestroy dcType i) state)
      (fun pointer => ∃ j < n, pointer.OfElement dcType i j) (fun _ => False) := by
  refine (clears_foldl (clears_element dcType i) List.nodup_range ?_ ?_ state).congr ?_ ?_
  · exact fun j k pointer hj hk => (hj.index hk).2.2
  · exact fun j k slot hj => hj.elim
  · exact fun pointer => by simp
  · exact fun slot => by simp

/-- The connection loop of `rack_destroy` clears the slots of the pool. -/
theorem clears_pool (dcType : DcType) (i : Nat) (rack : Rack) (state : Teardown) :
    Clears state ((rack.poolSlots dcType i).foldl connectionDestroy state) (fun _ => False)
      (fun slot => slot ∈ rack.poolSlots dcType i) := by
  have hnodup : (rack.poolSlots dcType i).Nodup :=
    List.nodup_range.map fun j k h => by simpa using h
  refine (clears_foldl clears_connection hnodup ?_ ?_ state).congr ?_ ?_
  · exact fun slot other pointer h => h.elim
  · rintro slot other found rfl rfl
    rfl
  · exact fun pointer => by simp
  · exact fun slot => by simp

/-- The arrays of a rack are there if something is in them. -/
structure ArraysHeld (held : Pointer → Option Nat) (dcType : DcType) (i : Nat) (rack : Rack) :
    Prop where
  continuum : held (.rackContinuum dcType i) = none →
    ∀ pointer, (∃ j < rack.ncontinuum.toNat, pointer.OfElement dcType i j) → held pointer = none
  pool : held (.rackPool dcType i) = none → rack.nodeCount = 0

/-- The fields of a rack and of its elements. -/
def Pointer.InRack (dcType : DcType) (i : Nat) (rack : Rack) (pointer : Pointer) : Prop :=
  pointer.OfRack dcType i ∨ ∃ j < rack.ncontinuum.toNat, pointer.OfElement dcType i j

variable {dcType : DcType} {i : Nat} {rack : Rack} {state : Teardown}

/-- The blocks of an element are none of a rack itself. -/
theorem Pointer.OfElement.ne_rack {pointer : Pointer} {j : Nat}
    (h : pointer.OfElement dcType i j) (k : Nat) :
    pointer ≠ .rackName dcType k ∧ pointer ≠ .rackContinuum dcType k ∧
      pointer ≠ .rackPool dcType k := by
  rcases h with rfl | rfl | rfl <;> simp

/-- The first part of `rack_destroy` clears the elements below `ncontinuum` and their array. -/
theorem clears_continuum (h : ArraysHeld state.heap.held dcType i rack) :
    Clears state
      (match state.heap.held (.rackContinuum dcType i) with
        | none => state
        | some _ =>
            ((List.range rack.ncontinuum.toNat).foldl (continuumDestroy dcType i) state).free
              (.rackContinuum dcType i))
      (fun pointer => (∃ j < rack.ncontinuum.toNat, pointer.OfElement dcType i j) ∨
        pointer = .rackContinuum dcType i) (fun _ => False) := by
  cases hheld : state.heap.held (.rackContinuum dcType i) with
  | none =>
      refine clears_nothing state ?_ (by simp)
      rintro pointer (hpointer | rfl)
      · exact h.continuum hheld pointer hpointer
      · exact hheld
  | some block =>
      refine ((clears_elements dcType i _ state).trans (clears_free _ _) ?_ ?_).congr ?_ ?_
      · rintro pointer ⟨j, -, hpointer⟩
        exact (hpointer.ne_rack i).2.1
      · simp
      · simp
      · simp

/-- The second part of `rack_destroy` clears the slots below `node_count` and the array of the
pool. -/
theorem clears_rack_pool (h : ArraysHeld state.heap.held dcType i rack) :
    Clears state
      (match state.heap.held (.rackPool dcType i) with
        | none => state
        | some _ =>
            ((rack.poolSlots dcType i).foldl connectionDestroy state).free (.rackPool dcType i))
      (fun pointer => pointer = .rackPool dcType i)
      (fun slot => slot ∈ rack.poolSlots dcType i) := by
  cases hheld : state.heap.held (.rackPool dcType i) with
  | none =>
      refine clears_nothing state ?_ ?_
      · rintro pointer rfl
        exact hheld
      · simp [Rack.poolSlots, h.pool hheld]
  | some block =>
      exact ((clears_pool dcType i rack state).trans (clears_free _ _) (by simp) (by simp)).congr
        (by simp) (by simp)

/-- `rack_destroy` clears the rack. -/
theorem clears_rack (h : ArraysHeld state.heap.held dcType i rack) :
    Clears state (rackDestroy dcType i rack state) (Pointer.InRack dcType i rack)
      (fun slot => slot ∈ rack.poolSlots dcType i) := by
  have hname := clears_free state (.rackName dcType i)
  have hfree : ArraysHeld (state.free (.rackName dcType i)).heap.held dcType i rack := h
  have hcontinuum := clears_continuum hfree
  have hheld := hcontinuum.held
  have hpool := clears_rack_pool (hheld ▸ h)
  -- the name, the elements with their array, the slots with theirs
  refine ((hname.trans hcontinuum ?_ ?_).trans hpool ?_ ?_).congr ?_ ?_
  · rintro pointer rfl (⟨j, -, hpointer⟩ | heq)
    · exact (hpointer.ne_rack i).1 rfl
    · cases heq
  · simp
  · rintro pointer (rfl | ⟨j, -, hpointer⟩ | rfl) heq
    · cases heq
    · exact (hpointer.ne_rack i).2.2 heq
    · cases heq
  · simp
  · intro pointer
    unfold Pointer.InRack Pointer.OfRack
    generalize (∃ j < rack.ncontinuum.toNat, pointer.OfElement dcType i j) = element
    tauto
  · simp

/-- The rack that a field is in, if it is in one. -/
def Pointer.rackIndex : Pointer → Option Nat
  | .dc _ | .dcName _ | .dcRack _ => none
  | .rackName _ i | .rackContinuum _ i | .rackPool _ i => some i
  | .token _ i _ | .host _ i _ | .pass _ i _ => some i

/-- A block of a rack tells its rack and datacenter. -/
theorem Pointer.InRack.rack_index {pointer : Pointer} (h : pointer.InRack dcType i rack) :
    pointer.rackIndex = some i ∧ pointer.dcType = dcType := by
  rcases h with ((rfl | rfl) | rfl) | ⟨j, -, rfl | rfl | rfl⟩ <;> exact ⟨rfl, rfl⟩

/-- The pool of a rack has a slot for each node below `node_count`. -/
theorem mem_pool_slots {slot : Slot} :
    slot ∈ rack.poolSlots dcType i ↔
      slot.dcType = dcType ∧ slot.rack = i ∧ slot.node < rack.nodeCount.toNat := by
  unfold Rack.poolSlots
  simp only [List.mem_map, List.mem_range]
  constructor
  · rintro ⟨j, hlt, rfl⟩
    exact ⟨rfl, rfl, hlt⟩
  · rintro ⟨rfl, rfl, hlt⟩
    exact ⟨slot.node, hlt, rfl⟩

/-- The loop of `datacenter_destroy` clears the racks. -/
theorem clears_racks {racks : List Rack}
    (h : ∀ k rack, racks[k]? = some rack → ArraysHeld state.heap.held dcType (i + k) rack) :
    Clears state (racksDestroy dcType i racks state)
      (fun pointer => ∃ (k : Nat) (rack : Rack), racks[k]? = some rack ∧
        pointer.InRack dcType (i + k) rack)
      (fun slot => ∃ (k : Nat) (rack : Rack), racks[k]? = some rack ∧
        slot ∈ rack.poolSlots dcType (i + k)) := by
  induction racks generalizing i state with
  | nil => exact clears_nothing state (by simp) (by simp)
  | cons rack rest ih =>
      have hfirst : Clears state (rackDestroy dcType i rack state) (Pointer.InRack dcType i rack)
          (fun slot => slot ∈ rack.poolSlots dcType i) := clears_rack (h 0 rack rfl)
      have harrays : ∀ k found, rest[k]? = some found →
          ArraysHeld (rackDestroy dcType i rack state).heap.held dcType (i + 1 + k) found := by
        intro k found hfound
        rw [hfirst.held, show i + 1 + k = i + (k + 1) by omega]
        exact h (k + 1) found hfound
      refine (hfirst.trans (ih harrays) ?_ ?_).congr ?_ ?_
      · rintro pointer hpointer ⟨k, found, -, hother⟩
        have hindex := hpointer.rack_index.1.symm.trans hother.rack_index.1
        simp only [Option.some.injEq] at hindex
        omega
      · rintro slot hslot ⟨k, found, -, hother⟩
        have hindex := (mem_pool_slots.mp hslot).2.1.symm.trans (mem_pool_slots.mp hother).2.1
        omega
      · exact fun pointer =>
          exists_rack_cons (P := fun i rack => pointer.InRack dcType i rack)
      · exact fun slot => exists_rack_cons (P := fun i rack => slot ∈ rack.poolSlots dcType i)

end Clears

/-! ## The whole client -/

/-- The fields of a datacenter and of all that is in it. -/
def Dynoc.InDc (dynoc : Dynoc) (dcType : DcType) (pointer : Pointer) : Prop :=
  ∃ dc, dynoc.dc dcType = some dc ∧
    (((pointer = .dcName dcType ∨ ∃ (k : Nat) (rack : Rack), dc.rack[k]? = some rack ∧
      pointer.InRack dcType k rack) ∨ pointer = .dcRack dcType) ∨ pointer = .dc dcType)

section Dynoc

variable {dynoc : Dynoc} {dcType : DcType} {state : Teardown}

/-- A block of a datacenter tells which of the two it is. -/
theorem Dynoc.InDc.dc_type {pointer : Pointer} (h : dynoc.InDc dcType pointer) :
    pointer.dcType = dcType := by
  obtain ⟨dc, -, ((rfl | ⟨k, rack, -, hpointer⟩) | rfl) | rfl⟩ := h
  · rfl
  · exact hpointer.rack_index.2
  · rfl
  · rfl

/-- The arrays of every rack are there if something is in them. -/
def Dynoc.ArraysHeld (dynoc : Dynoc) (held : Pointer → Option Nat) : Prop :=
  ∀ dcType dc, dynoc.dc dcType = some dc → ∀ k rack, dc.rack[k]? = some rack →
    DynocClient.ArraysHeld held dcType k rack

/-- `datacenter_destroy` clears the blocks and the slots of its datacenter. -/
theorem clears_datacenter (h : dynoc.ArraysHeld state.heap.held) :
    Clears state (datacenterDestroy dynoc dcType state) (dynoc.InDc dcType)
      (fun slot => slot.dcType = dcType ∧ dynoc.IsSlot slot) := by
  unfold datacenterDestroy
  cases hdc : dynoc.dc dcType with
  | none =>
      refine clears_nothing state ?_ ?_
      · rintro pointer ⟨dc, hsome, -⟩
        rw [hdc] at hsome
        cases hsome
      · rintro slot ⟨rfl, dc, rack, hsome, -⟩
        rw [hdc] at hsome
        cases hsome
  | some dc =>
      have harrays : ∀ k rack, dc.rack[k]? = some rack →
          DynocClient.ArraysHeld (state.free (.dcName dcType)).heap.held dcType (0 + k) rack := by
        intro k rack hrack
        rw [Nat.zero_add]
        exact h dcType dc hdc k rack hrack
      -- the name, the racks, their array, the datacenter
      refine ((((clears_free state (.dcName dcType)).trans (clears_racks harrays) ?_ ?_).trans
        (clears_free _ (.dcRack dcType)) ?_ ?_).trans (clears_free _ (.dc dcType)) ?_ ?_).congr
        ?_ ?_
      · rintro pointer rfl ⟨k, rack, -, hpointer⟩
        cases hpointer.rack_index.1
      · simp
      · rintro pointer (rfl | ⟨k, rack, -, hpointer⟩) heq
        · cases heq
        · rw [heq] at hpointer
          cases hpointer.rack_index.1
      · simp
      · rintro pointer ((rfl | ⟨k, rack, -, hpointer⟩) | rfl) heq
        · cases heq
        · rw [heq] at hpointer
          cases hpointer.rack_index.1
        · cases heq
      · simp
      · intro pointer
        unfold Dynoc.InDc
        simp [hdc]
      · intro slot
        unfold Dynoc.IsSlot
        simp only [mem_pool_slots, false_or, or_false, Nat.zero_add]
        constructor
        · rintro ⟨rfl, found, rack, hfound, hrack, hlt⟩
          obtain rfl := Option.some.inj (hdc.symm.trans hfound)
          exact ⟨slot.rack, rack, hrack, rfl, rfl, hlt⟩
        · rintro ⟨k, rack, hrack, rfl, rfl, hlt⟩
          exact ⟨rfl, dc, rack, hdc, hrack, hlt⟩

/-- `dynoc_destroy` clears the client. -/
theorem clears_dynoc (h : dynoc.ArraysHeld state.heap.held) :
    Clears state (dynocDestroy dynoc state) (fun pointer => ∃ dcType, dynoc.InDc dcType pointer)
      dynoc.IsSlot := by
  have hlocal : Clears state (datacenterDestroy dynoc .localDc state) _ _ := clears_datacenter h
  have hremote : Clears _ (dynocDestroy dynoc state) (dynoc.InDc .remoteDc) _ :=
    clears_datacenter (hlocal.held ▸ h)
  refine (hlocal.trans hremote ?_ ?_).congr ?_ ?_
  · intro pointer hin hin'
    cases hin.dc_type.symm.trans hin'.dc_type
  · rintro slot ⟨hdcType, -⟩ ⟨hdcType', -⟩
    cases hdcType.symm.trans hdcType'
  · intro pointer
    constructor
    · rintro ⟨dcType, hin⟩
      cases dcType with
      | localDc => exact .inl hin
      | remoteDc => exact .inr hin
    · rintro (hin | hin) <;> exact ⟨_, hin⟩
  · intro slot
    cases hdcType : slot.dcType <;> simp

end Dynoc

/-! ## From setup to `dynoc_start` -/

section Start

variable {dynoc : Dynoc} {pointer : Pointer}

/-- What was made is part of the client. -/
theorem Dynoc.Has.in_dc (h : dynoc.Has pointer) : dynoc.InDc pointer.dcType pointer := by
  obtain ⟨dc, hdc, hhas⟩ := h
  refine ⟨dc, hdc, ?_⟩
  cases pointer with
  | dc => exact .inr rfl
  | dcName => exact .inl (.inl (.inl rfl))
  | dcRack => exact .inl (.inr rfl)
  | rackName _ i =>
      obtain ⟨rack, hrack, -⟩ := hhas
      exact .inl (.inl (.inr ⟨i, rack, hrack, .inl (.inl (.inl rfl))⟩))
  | rackContinuum _ i =>
      obtain ⟨rack, hrack, -⟩ := hhas
      exact .inl (.inl (.inr ⟨i, rack, hrack, .inl (.inl (.inr rfl))⟩))
  | rackPool _ i =>
      obtain ⟨rack, hrack, -⟩ := hhas
      exact .inl (.inl (.inr ⟨i, rack, hrack, .inl (.inr rfl)⟩))
  | token _ i j =>
      obtain ⟨rack, hrack, -, hlt⟩ := hhas
      exact .inl (.inl (.inr ⟨i, rack, hrack, .inr ⟨j, hlt, .inl rfl⟩⟩))
  | host _ i j =>
      obtain ⟨rack, hrack, -, hlt⟩ := hhas
      exact .inl (.inl (.inr ⟨i, rack, hrack, .inr ⟨j, hlt, .inr (.inl rfl)⟩⟩))
  | pass _ i j =>
      obtain ⟨rack, hrack, -, hlt⟩ := hhas
      exact .inl (.inl (.inr ⟨i, rack, hrack, .inr ⟨j, hlt, .inr (.inr rfl)⟩⟩))

/-- Sorting moves the blocks of elements about and loses none. -/
theorem origin_bijective (perm : DcType → Nat → Equiv.Perm Nat) :
    Function.Bijective (Pointer.origin perm) := by
  refine Function.bijective_iff_has_inverse.mpr
    ⟨Pointer.origin fun dcType i => (perm dcType i).symm, ?_, ?_⟩
  all_goals
    intro pointer
    cases pointer <;> simp [Pointer.origin]

/-- Sorting moves a block that must exist to one that must exist. -/
theorem required_origin (perm : DcType → Nat → Equiv.Perm Nat) :
    (pointer.origin perm).Required ↔ pointer.Required := by
  cases pointer <;> rfl

/-- A sort makes nothing and takes nothing away. -/
theorem ElementMoves.has_origin (moves : ElementMoves dynoc) :
    dynoc.Has (pointer.origin moves.perm) ↔ dynoc.Has pointer := by
  have hdcType : (pointer.origin moves.perm).dcType = pointer.dcType := by
    cases pointer <;> rfl
  unfold Dynoc.Has
  rw [hdcType]
  refine exists_congr fun dc => and_congr_right fun hdc => ?_
  cases pointer with
  | dc | dcName | dcRack | rackName | rackContinuum | rackPool => exact Iff.rfl
  | token _ i j | host _ i j | pass _ i j =>
      refine exists_congr fun rack => and_congr_right fun hrack => and_congr_right fun _ => ?_
      exact moves.keeps hdc hrack j

/-- The blocks that a client has are there also after the elements have moved. -/
theorem Heap.Holds.moved {heap : Heap} (h : heap.Holds dynoc.Has) (moves : ElementMoves dynoc) :
    (heap.moved moves.perm).Holds dynoc.Has where
  owned := h.owned.comp (origin_bijective moves.perm).injective
  kept := Ledger.Kept.comp h.kept (origin_bijective moves.perm).surjective
  within := fun hheld => moves.has_origin.mp (h.within hheld)
  required := fun hrequired hhas =>
    h.required ((required_origin moves.perm).mpr hrequired) (moves.has_origin.mpr hhas)

/-- `dynoc_start` neither makes a datacenter, rack or node nor takes one away. -/
theorem dynoc_start_has (hashAlgos : HashType → HashFunc) (qsort : Qsort Continuum)
    (dials : Slot → Dial) (client : Client) :
    (dynocStart hashAlgos qsort dials client).1.Has pointer ↔ client.dynoc.Has pointer := by
  unfold Dynoc.Has
  rw [dynoc_start_dc]
  cases client.dynoc.dc pointer.dcType with
  | none => simp
  | some dc =>
      simp only [Option.map_some, Option.some.injEq, exists_eq_left']
      cases pointer <;> simp [Datacenter.Has, Datacenter.start, sortContinuum]

/-- A rack has no slots until it has a name. -/
def Rack.Bare (rack : Rack) : Prop := rack.name = none → rack.nodeCount = 0

/-- No setup call gives nodes to a rack without a name. -/
theorem bare_step {client next : Client} {call : SetupCall} (h : client.AllRacks Rack.Bare)
    (hstep : setupStep client call = some next) : next.AllRacks Rack.Bare := by
  refine h.step hstep (fun _ => rfl) (fun nodeCount name hnone => nomatch hnone) ?_
  intro node rcName dcType dc _ _ rack _ _ hname hnone
  rw [Rack.add_node_name, hname] at hnone
  cases hnone

/-- Where every block is held, the arrays of a rack are there if something is in them. -/
theorem Heap.Holds.arrays_held {heap : Heap} (h : heap.Holds dynoc.Has)
    (hbare : ∀ dcType dc, dynoc.dc dcType = some dc → ∀ rack ∈ dc.rack, rack.Bare) :
    dynoc.ArraysHeld heap.held := by
  intro dcType dc hdc i rack hrack
  -- a rack with a name has both arrays
  have hunnamed : ∀ {array}, array = .rackContinuum dcType i ∨ array = .rackPool dcType i →
      heap.held array = none → rack.name = none := by
    intro array harray hnull
    by_contra hname
    rcases harray with rfl | rfl
    · have hhas : dynoc.Has (.rackContinuum dcType i) := ⟨dc, hdc, rack, hrack, hname⟩
      exact absurd hnull (h.required trivial hhas)
    · have hhas : dynoc.Has (.rackPool dcType i) := ⟨dc, hdc, rack, hrack, hname⟩
      exact absurd hnull (h.required trivial hhas)
  constructor
  · rintro hnull pointer ⟨j, -, hpointer⟩
    by_contra hheld
    obtain ⟨dc', hdc', hhas⟩ := h.within hheld
    have hsame : dynoc.dc dcType = some dc' ∧
        ∃ found, dc'.rack[i]? = some found ∧ found.name ≠ none := by
      rcases hpointer with rfl | rfl | rfl
      all_goals
        obtain ⟨found, hfound, hnamed, -⟩ := hhas
        exact ⟨hdc', found, hfound, hnamed⟩
    obtain ⟨hdc', found, hfound, hnamed⟩ := hsame
    obtain rfl := Option.some.inj (hdc.symm.trans hdc')
    obtain rfl := Option.some.inj (hrack.symm.trans hfound)
    exact hnamed (hunnamed (.inl rfl) hnull)
  · exact fun hnull => hbare dcType dc hdc rack (List.mem_of_getElem? hrack)
      (hunnamed (.inr rfl) hnull)

end Start

/-! ## A client from setup to destruction -/

/-- The client, its connections and its memory are what `dynoc_start` leaves after a setup script
that adds no more nodes to a rack than it has room for. -/
def LaunchedWith (dynoc : Dynoc) (world : World) (heap : Heap) : Prop :=
  ∃ hashAlgos qsort dials conn calls client allocated,
    runFrom allocationStep ⟨dynocInit conn, .empty⟩ calls = some ⟨client, allocated⟩ ∧
    EachStep setupStep HasRoom (dynocInit conn) calls ∧
    (dynoc, world) = dynocStart hashAlgos qsort dials client ∧
    ∃ moves : ElementMoves dynoc, heap = allocated.moved moves.perm

section LaunchedWith

variable {dynoc : Dynoc} {world : World} {heap : Heap} (h : LaunchedWith dynoc world heap)
include h

/-- A client launched with its heap is launched within capacity. -/
theorem LaunchedWith.in_room : LaunchedInRoom dynoc world := by
  obtain ⟨hashAlgos, qsort, dials, conn, calls, client, allocated, hrun, hroom, heq, -⟩ := h
  exact ⟨hashAlgos, qsort, dials, conn, calls, client, (holds_setup hrun hroom).1, hroom, heq⟩

/-- The heap of a launched client holds the blocks that the client has. -/
theorem LaunchedWith.holds : heap.Holds dynoc.Has := by
  obtain ⟨hashAlgos, qsort, dials, conn, calls, client, allocated, hrun, hroom, heq, moves, rfl⟩ :=
    h
  refine Heap.Holds.moved ((holds_setup hrun hroom).2.congr fun pointer => ?_) moves
  have hdynoc : dynoc = (dynocStart hashAlgos qsort dials client).1 := congrArg Prod.fst heq
  rw [hdynoc]
  exact dynoc_start_has hashAlgos qsort dials client

/-- In a launched client every rack has its arrays. -/
theorem LaunchedWith.arrays_held : dynoc.ArraysHeld heap.held := by
  refine h.holds.arrays_held ?_
  obtain ⟨hashAlgos, qsort, dials, conn, calls, client, allocated, hrun, hroom, heq, -⟩ := h
  have hreach : Reachable setupStep (dynocInit conn) client :=
    ⟨calls, (holds_setup hrun hroom).1⟩
  have hbare : client.AllRacks Rack.Bare := hreach.invariant (all_racks_init _ _)
    fun _ _ _ hbefore hstep => bare_step hbefore hstep
  have hdynoc : dynoc = (dynocStart hashAlgos qsort dials client).1 := congrArg Prod.fst heq
  intro dcType dc hdc rack hrack
  rw [hdynoc, dynoc_start_dc] at hdc
  obtain ⟨built, hbuilt, rfl⟩ := Option.map_eq_some_iff.mp hdc
  obtain ⟨before, hbefore, rfl⟩ := List.mem_map.mp hrack
  exact hbare dcType built hbuilt before hbefore

end LaunchedWith

/-- A sort that finds the elements in order moves nothing. -/
def ElementMoves.none (dynoc : Dynoc) : ElementMoves dynoc where
  perm := fun _ _ => Equiv.refl Nat
  keeps := fun _ _ _ => Iff.rfl

/-- Where nothing is sorted, no block moves. -/
theorem moved_none (dynoc : Dynoc) (heap : Heap) :
    heap.moved (ElementMoves.none dynoc).perm = heap := by
  have horigin : Pointer.origin (ElementMoves.none dynoc).perm = id := by
    funext pointer
    cases pointer <;> rfl
  unfold Heap.moved
  rw [horigin]
  rfl

/-- A script that boots within capacity launches a client with the heap it allocates. -/
theorem boot_with {dials : Slot → Dial} {calls : List SetupCall} {started : Dynoc × World}
    {allocation : Allocation} (h : boot dials calls = some started)
    (hrun : runFrom allocationStep ⟨dynocInit fun _ => ⟨.invalid, none⟩, .empty⟩ calls =
      some allocation)
    (hroom : EachStep setupStep HasRoom (dynocInit fun _ => ⟨.invalid, none⟩) calls) :
    LaunchedWith started.1 started.2 allocation.heap := by
  obtain ⟨client, hclient, rfl⟩ := Option.map_eq_some_iff.mp h
  obtain rfl := Option.some.inj (hclient.symm.trans (holds_setup hrun hroom).1)
  exact ⟨_, _, _, _, calls, _, _, hrun, hroom, rfl, .none _, (moved_none _ _).symm⟩

/-- What `dynoc_destroy` is given. -/
def Teardown.begin (heap : Heap) (world : World) : Teardown := ⟨heap, world, []⟩

/-- `dynoc_destroy` frees every block that the setup calls allocated, each once, whatever the sort
of `dynoc_start` has made of the elements and whatever has happened to the connections. -/
theorem destroy_frees_all {dynoc : Dynoc} {world : World} {heap : Heap}
    (hlaunch : LaunchedWith dynoc world heap) (later : World) :
    (dynocDestroy dynoc (.begin heap later)).heap.blocks.Settled [] := by
  have hholds := hlaunch.holds
  have hclears : Clears (.begin heap later) (dynocDestroy dynoc (.begin heap later)) _ _ :=
    clears_dynoc hlaunch.arrays_held
  -- every block is held by one field, and every field that is not `NULL` is freed once
  obtain ⟨pointers, closed, hgives, ⟨hnodup, -, hall⟩, -⟩ := hclears
  rw [hgives.blocks]
  refine hholds.owned.settled_give_back hholds.kept (fun _ _ => trivial) hnodup ?_
  exact fun pointer _ hheld => hall pointer ⟨_, (hholds.within hheld).in_dc⟩ hheld

/-- The client and the memory of the script with one locked node. -/
def lockedAllocation : Allocation :=
  (runFrom allocationStep ⟨dynocInit fun _ => ⟨.invalid, none⟩, .empty⟩ lockedScript).get
    (by decide +kernel)

/-- The client with one slot is launched with the heap of its script. -/
theorem locked_client_with (reply : ReplyType) :
    LaunchedWith (lockedClient reply).1 (lockedClient reply).2 lockedAllocation.heap :=
  boot_with (Option.some_get _).symm (Option.some_get _).symm (by decide +kernel)

/-- Nine blocks are allocated for that client, and `dynoc_destroy` frees all nine. -/
theorem locked_blocks_freed :
    lockedAllocation.heap.blocks.issued = 9 ∧
      (dynocDestroy (lockedClient .error).1 (.begin lockedAllocation.heap
        (lockedClient .error).2)).heap.blocks.Settled [] :=
  ⟨by decide +kernel, destroy_frees_all (locked_client_with .error) _⟩

end DynocClient
