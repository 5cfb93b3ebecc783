import Mathlib.Data.Set.Card
import Mathlib.Data.Set.Finite.Lemmas
import Mathlib.Data.Set.Image
import Mathlib.Order.Fin.Basic
import Mathlib.Order.Interval.Finset.Nat
import Mathlib.Tactic.Common

/-!
# Owners on a ring

Points of a linear order lie on a ring. The owner of a point is the first position at or after
it, and past the last position the ring starts again with the first. Who owns a point depends
on the set of positions only.

`is_owner_insert_iff` says which points a new position takes, and `IsOwner.of_insert` that all
others keep their owner; it takes them from one position (`IsOwner.relieved`). `is_owner_first` and
`is_owner_wrap` are the two ways to find the owner in a sorted sequence. `arc_ncard` counts the
points of an arc.
-/

namespace DynocClient.Lib

variable {κ κ' : Type*} [LinearOrder κ] [LinearOrder κ']

/-- The position is the least one at or after the point, or the least of all if there is none at
or after the point. -/
def IsOwner (ring : Set κ) (point owner : κ) : Prop :=
  owner ∈ ring ∧
    (point ≤ owner ∧ (∀ position ∈ ring, point ≤ position → owner ≤ position) ∨
      (∀ position ∈ ring, position < point) ∧ ∀ position ∈ ring, owner ≤ position)

/-- A point has one owner. -/
theorem IsOwner.unique {ring : Set κ} {point owner other : κ} (h : IsOwner ring point owner)
    (h' : IsOwner ring point other) : owner = other := by
  obtain ⟨hmem, ⟨hge, hleast⟩ | ⟨hbelow, hleast⟩⟩ := h
  · obtain ⟨hmem', ⟨hge', hleast'⟩ | ⟨hbelow', -⟩⟩ := h'
    · exact le_antisymm (hleast other hmem' hge') (hleast' owner hmem hge)
    · exact absurd hge (not_le.mpr (hbelow' owner hmem))
  · obtain ⟨hmem', ⟨hge', -⟩ | ⟨-, hleast'⟩⟩ := h'
    · exact absurd hge' (not_le.mpr (hbelow other hmem'))
    · exact le_antisymm (hleast other hmem') (hleast' owner hmem)

/-- A strictly monotone relabelling of the order keeps owners. -/
theorem is_owner_image {place : κ → κ'} (h : StrictMono place) {ring : Set κ} {point owner : κ} :
    IsOwner (Set.image place ring) (place point) (place owner) ↔ IsOwner ring point owner := by
  simp only [IsOwner, Set.forall_mem_image, h.le_iff_le, h.lt_iff_lt,
    h.injective.mem_set_image]

/-- Every point has an owner. -/
theorem exists_owner {ring : Set κ} (hfinite : ring.Finite) (hnonempty : ring.Nonempty)
    (point : κ) : ∃ owner, IsOwner ring point owner := by
  by_cases habove : ∃ position ∈ ring, point ≤ position
  · obtain ⟨position, hmem, hle⟩ := habove
    obtain ⟨owner, howner, hleast⟩ := Set.exists_min_image {p ∈ ring | point ≤ p} id
      (hfinite.subset fun p hp => hp.1) ⟨position, hmem, hle⟩
    exact ⟨owner, howner.1, .inl ⟨howner.2, fun p hp hp' => hleast p ⟨hp, hp'⟩⟩⟩
  · obtain ⟨owner, howner, hleast⟩ := Set.exists_min_image ring id hfinite hnonempty
    refine ⟨owner, howner, .inr ⟨fun p hp => not_le.mp fun hle => habove ⟨p, hp, hle⟩, ?_⟩⟩
    exact hleast

/-! ## A new position -/

/-- The position is the greatest one before this one, or the greatest of all if there is none
before it. -/
def IsPredecessor (ring : Set κ) (own pred : κ) : Prop :=
  pred ∈ ring ∧
    (pred < own ∧ (∀ position ∈ ring, position < own → position ≤ pred) ∨
      (∀ position ∈ ring, own ≤ position) ∧ ∀ position ∈ ring, position ≤ pred)

/-- The point lies after the predecessor and up to the position itself, on the way around the
ring. -/
def InArc (pred own point : κ) : Prop :=
  if pred < own then pred < point ∧ point ≤ own else pred < point ∨ point ≤ own

/-- In a finite ring every point has a predecessor. -/
theorem exists_predecessor {ring : Set κ} (hfinite : ring.Finite) (hnonempty : ring.Nonempty)
    (own : κ) : ∃ pred, IsPredecessor ring own pred := by
  by_cases hbelow : ∃ position ∈ ring, position < own
  · obtain ⟨position, hmem, hlt⟩ := hbelow
    obtain ⟨pred, hpred, hgreatest⟩ := Set.exists_max_image {p ∈ ring | p < own} id
      (hfinite.subset fun p hp => hp.1) ⟨position, hmem, hlt⟩
    exact ⟨pred, hpred.1, .inl ⟨hpred.2, fun p hp hp' => hgreatest p ⟨hp, hp'⟩⟩⟩
  · obtain ⟨pred, hpred, hgreatest⟩ := Set.exists_max_image ring id hfinite hnonempty
    refine ⟨pred, hpred, .inr ⟨fun p hp => not_lt.mp fun hlt => hbelow ⟨p, hp, hlt⟩, ?_⟩⟩
    exact hgreatest

/-- A new position takes points from their owners and gives none to another position. -/
theorem IsOwner.of_insert {ring : Set κ} {own point owner : κ}
    (h : IsOwner (insert own ring) point owner) (hne : owner ≠ own) :
    IsOwner ring point owner := by
  obtain ⟨hmem, hcases⟩ := h
  refine ⟨Set.mem_of_mem_insert_of_ne hmem hne, ?_⟩
  rcases hcases with ⟨hge, hleast⟩ | ⟨hbelow, hleast⟩
  · exact .inl ⟨hge, fun p hp => hleast p (Set.mem_insert_of_mem _ hp)⟩
  · exact .inr ⟨fun p hp => hbelow p (Set.mem_insert_of_mem _ hp),
      fun p hp => hleast p (Set.mem_insert_of_mem _ hp)⟩

/-- The points that a new position owns are those after its predecessor up to itself. -/
theorem is_owner_insert_iff {ring : Set κ} {own pred point : κ}
    (hpred : IsPredecessor ring own pred) :
    IsOwner (insert own ring) point own ↔ InArc pred own point := by
  obtain ⟨hmem, hplace⟩ := hpred
  have hown : own ∈ insert own ring := Set.mem_insert own ring
  have hpred' : pred ∈ insert own ring := Set.mem_insert_of_mem own hmem
  constructor
  · rintro ⟨-, ⟨hge, hleast⟩ | ⟨hbelow, hleast⟩⟩
    · by_cases hlt : pred < own
      · rw [InArc, if_pos hlt]
        refine ⟨not_le.mp fun hle => ?_, hge⟩
        exact absurd hlt (not_lt.mpr (hleast pred hpred' hle))
      · rw [InArc, if_neg hlt]
        exact .inr hge
    · rw [InArc, if_neg (not_lt.mpr (hleast pred hpred'))]
      exact .inl (hbelow pred hpred')
  · intro harc
    refine ⟨hown, ?_⟩
    rcases hplace with ⟨hlt, hgreatest⟩ | ⟨habove, hgreatest⟩
    · rw [InArc, if_pos hlt] at harc
      refine .inl ⟨harc.2, fun p hp hpoint => ?_⟩
      rcases hp with rfl | hp
      · exact le_refl _
      · by_contra hlt'
        have hle : p ≤ pred := hgreatest p hp (not_le.mp hlt')
        exact absurd (hpoint.trans hle) (not_le.mpr harc.1)
    · rw [InArc, if_neg (not_lt.mpr (habove pred hmem))] at harc
      have hleast : ∀ p ∈ insert own ring, own ≤ p := by
        rintro p (rfl | hp)
        · exact le_refl _
        · exact habove p hp
      rcases le_or_gt point own with hle | hgt
      · exact .inl ⟨hle, fun p hp _ => hleast p hp⟩
      · have hpoint : pred < point := harc.resolve_right (not_le.mpr hgt)
        refine .inr ⟨?_, hleast⟩
        rintro p (rfl | hp)
        · exact hgt
        · exact lt_of_le_of_lt (hgreatest p hp) hpoint

/-- The points that a new position takes had one owner, which owns the position itself. -/
theorem IsOwner.relieved {ring : Set κ} {own point owner : κ}
    (hown : IsOwner (insert own ring) point own) (h : IsOwner ring point owner) :
    IsOwner ring own owner := by
  obtain ⟨hmem, hcases⟩ := h
  refine ⟨hmem, ?_⟩
  have hmem' : owner ∈ insert own ring := Set.mem_insert_of_mem own hmem
  obtain ⟨-, ⟨hge, hleast⟩ | ⟨hbelow, hleast⟩⟩ := hown
  · rcases hcases with ⟨hge', hleast'⟩ | ⟨hbelow', hleast'⟩
    · exact .inl ⟨hleast owner hmem' hge', fun p hp hle => hleast' p hp (hge.trans hle)⟩
    · exact .inr ⟨fun p hp => (hbelow' p hp).trans_le hge, hleast'⟩
  · -- the point lies past the last position, so the owner is the first one
    rcases hcases with ⟨hge', -⟩ | ⟨-, hleast'⟩
    · exact absurd hge' (not_le.mpr (hbelow owner hmem'))
    · exact .inl ⟨hleast owner hmem', fun p hp _ => hleast' p hp⟩

/-! ## The length of an arc -/

/-- The way from one position to the next on a ring of `size` points. A position that is its own
predecessor has the whole ring before it. -/
def arcLength (size pred own : Nat) : Nat :=
  if pred < own then own - pred else size - pred + own

/-- An arc has as many points as its length says. -/
theorem arc_ncard {size pred own : Nat} (hpred : pred < size) (hown : own < size) :
    Set.ncard {point | point < size ∧ InArc pred own point} = arcLength size pred own := by
  by_cases hlt : pred < own
  · have harc : {point | point < size ∧ InArc pred own point} = ↑(Finset.Ioc pred own) := by
      ext point
      simp only [InArc, if_pos hlt, Set.mem_ofPred_eq, Finset.coe_Ioc, Set.mem_Ioc]
      omega
    rw [harc, Set.ncard_coe_finset, Nat.card_Ioc, arcLength, if_pos hlt]
  · have harc : {point | point < size ∧ InArc pred own point} =
        ↑(Finset.Ioo pred size ∪ Finset.Iic own) := by
      ext point
      simp only [InArc, if_neg hlt, Set.mem_ofPred_eq, Finset.coe_union, Finset.coe_Ioo,
        Finset.coe_Iic, Set.mem_union, Set.mem_Ioo, Set.mem_Iic]
      omega
    have hdisjoint : Disjoint (Finset.Ioo pred size) (Finset.Iic own) := by
      rw [Finset.disjoint_left]
      intro point hafter hbefore
      have hgt := (Finset.mem_Ioo.mp hafter).1
      have hle := Finset.mem_Iic.mp hbefore
      omega
    rw [harc, Set.ncard_coe_finset, Finset.card_union_of_disjoint hdisjoint, Nat.card_Ioo,
      Nat.card_Iic, arcLength, if_neg hlt]
    omega

/-! ## Sorted sequences -/

variable {n : Nat} {position : Fin n → κ} {point : κ}

/-- In a sorted sequence the first position not below the point is its owner. -/
theorem is_owner_first (hsorted : Monotone position) {i : Fin n} (hge : point ≤ position i)
    (hbelow : ∀ j < i, position j < point) :
    IsOwner (Set.range position) point (position i) := by
  refine ⟨⟨i, rfl⟩, .inl ⟨hge, ?_⟩⟩
  rintro _ ⟨j, rfl⟩ hpoint
  have hij : i ≤ j := by
    by_contra hlt
    exact absurd hpoint (not_le.mpr (hbelow j (not_le.mp hlt)))
  exact hsorted hij

/-- A position equal to the point is its owner. -/
theorem is_owner_eq (position : Fin n → κ) {i : Fin n} (heq : position i = point) :
    IsOwner (Set.range position) point (position i) := by
  refine ⟨⟨i, rfl⟩, .inl ⟨heq.ge, fun other _ hpoint => ?_⟩⟩
  rw [heq]
  exact hpoint

/-- In a sorted sequence that ends below the point the first position is its owner. -/
theorem is_owner_wrap (hsorted : Monotone position) {first last : Fin n}
    (hfirst : ∀ j, first ≤ j) (hlast : ∀ j, j ≤ last) (hbelow : position last < point) :
    IsOwner (Set.range position) point (position first) := by
  refine ⟨⟨first, rfl⟩, .inr ⟨?_, ?_⟩⟩
  · intro value hcase
    obtain ⟨j, rfl⟩ := hcase
    exact lt_of_le_of_lt (hsorted (hlast j)) hbelow
  · intro value hcase
    obtain ⟨j, rfl⟩ := hcase
    exact hsorted (hfirst j)

end DynocClient.Lib
