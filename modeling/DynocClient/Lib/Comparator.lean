import Mathlib.Data.List.Sort
import Mathlib.Tactic.Common

/-!
# Comparators and sorting routines

A comparator returns a negative number, zero or a positive number, as the ones given to `qsort`
do. `Qsort` is a sorting routine with its contract: a sorted permutation, promised only for a
consistent comparator and without stability. A comparator `OrderedBy` a key in a linear order
is consistent.
-/

namespace DynocClient.Lib

variable {α κ : Type*}

/-- The comparator is a total preorder. -/
structure Consistent (cmp : α → α → Int) : Prop where
  swap : ∀ a b, cmp a b < 0 ↔ 0 < cmp b a
  trans : ∀ a b c, cmp a b ≤ 0 → cmp b c ≤ 0 → cmp a c ≤ 0

/-- The comparator compares the keys. -/
structure OrderedBy [LinearOrder κ] (cmp : α → α → Int) (key : α → κ) : Prop where
  neg_iff : ∀ a b, cmp a b < 0 ↔ key a < key b
  pos_iff : ∀ a b, 0 < cmp a b ↔ key b < key a

/-- A sorting routine in the manner of `qsort`. -/
structure Qsort (α : Type*) where
  sort : (α → α → Int) → List α → List α
  perm : ∀ {cmp}, Consistent cmp → ∀ elements, (sort cmp elements).Perm elements
  sorted : ∀ {cmp}, Consistent cmp → ∀ elements,
    (sort cmp elements).Pairwise fun a b => cmp a b ≤ 0

namespace OrderedBy

variable [LinearOrder κ] {cmp : α → α → Int} {key : α → κ}

/-- The comparator is at most 0 where the keys do not fall. -/
theorem le_iff (h : OrderedBy cmp key) (a b : α) : cmp a b ≤ 0 ↔ key a ≤ key b := by
  rw [← Int.not_lt, h.pos_iff, not_lt]

/-- The comparator is at least 0 where the keys do not rise. -/
theorem ge_iff (h : OrderedBy cmp key) (a b : α) : 0 ≤ cmp a b ↔ key b ≤ key a := by
  rw [← Int.not_lt, h.neg_iff, not_lt]

/-- The comparator is 0 where the keys are equal. -/
theorem eq_iff (h : OrderedBy cmp key) (a b : α) : cmp a b = 0 ↔ key a = key b := by
  rw [le_antisymm_iff, h.le_iff, h.ge_iff, ← le_antisymm_iff]

/-- The comparator of a field compares the keys of the field. -/
theorem on {β : Type*} (h : OrderedBy cmp key) (field : β → α) :
    OrderedBy (fun a b => cmp (field a) (field b)) fun a => key (field a) where
  neg_iff a b := h.neg_iff (field a) (field b)
  pos_iff a b := h.pos_iff (field a) (field b)

/-- A comparator of keys is consistent. -/
theorem consistent (h : OrderedBy cmp key) : Consistent cmp where
  swap a b := by rw [h.neg_iff, h.pos_iff]
  trans a b c hab hbc := by
    rw [h.le_iff] at *
    exact hab.trans hbc

end OrderedBy

namespace Qsort

/-- Insertion sort meets the contract. -/
def insertion (α : Type*) : Qsort α where
  sort cmp elements := elements.insertionSort fun a b => cmp a b ≤ 0
  perm _ elements := List.perm_insertionSort _ elements
  sorted := by
    intro cmp h elements
    have : Std.Total fun a b => cmp a b ≤ 0 := ⟨fun a b => by
      rcases Int.lt_or_le 0 (cmp a b) with hpos | hle
      · exact .inr ((h.swap b a).mpr hpos).le
      · exact .inl hle⟩
    have : IsTrans α fun a b => cmp a b ≤ 0 := ⟨h.trans⟩
    exact List.pairwise_insertionSort _ elements

end Qsort

end DynocClient.Lib
