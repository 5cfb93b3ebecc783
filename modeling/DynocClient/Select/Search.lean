import DynocClient.Lib.Ring
import DynocClient.Select.Calls
import DynocClient.Token.Order

/-!
# The search in a rack

`select_continuum` reads only elements that the rack holds and returns the index of one of them.
If the elements are sorted by token, it is the one that owns the token on the ring
(`select_continuum_spec`).
-/

namespace DynocClient

open Lib

section Search

variable {continuum : List Continuum} {n : UInt32} {element : Fin n.toNat → Continuum}

/-- A read below the count gives the element. -/
theorem read_continuum_eq (hget : ∀ i, continuum[i.val]? = some (element i)) (i : Fin n.toNat) :
    readContinuum continuum n i.val = .ok (element i) := by
  have hrange : (0 : Int) ≤ i.val ∧ (i.val : Int) < n.toNat := by omega
  unfold readContinuum
  rw [if_pos hrange, Int.toNat_natCast, hget]
  rfl

/-- From two positions that enclose the owner, the loop finds it. -/
theorem select_loop_spec (hget : ∀ i, continuum[i.val]? = some (element i)) (token : Token)
    (left right : Fin n.toNat) (hle : left ≤ right) :
    ∃ i, selectLoop continuum n token left.val right.val = .ok (element i).index ∧
      (Monotone (fun i => (element i).token.key) →
        (∀ j < left, (element j).token.key < token.key) →
        token.key ≤ (element right).token.key →
        IsOwner (Set.range fun i => (element i).token.key) token.key
          (element i).token.key) := by
  rw [selectLoop]
  by_cases hlt : left < right
  · have hint : (left.val : Int) < right.val := by omega
    -- the position in the middle, at or after `left` and before `right`
    obtain ⟨middle, hmiddle, hmr⟩ : ∃ middle : Fin n.toNat,
        (left.val : Int) + ((right.val : Int) - left.val) / 2 = middle.val ∧
          middle < right := by
      refine ⟨⟨left.val + (right.val - left.val) / 2, by omega⟩, ?_, ?_⟩
      · show _ = ((left.val + (right.val - left.val) / 2 : Nat) : Int)
        omega
      · show left.val + (right.val - left.val) / 2 < right.val
        omega
    have hlm : left ≤ middle := by
      show left.val ≤ middle.val
      omega
    simp only [hint, if_true, hmiddle, read_continuum_eq hget]
    by_cases heq : tokenCmp (element middle).token token = 0
    · simp only [heq, if_true]
      refine ⟨middle, rfl, fun _ _ _ => ?_⟩
      exact is_owner_eq (fun i => (element i).token.key)
        ((token_cmp_ordered_by.eq_iff _ _).mp heq)
    · by_cases hneg : tokenCmp (element middle).token token < 0
      · -- the owner comes after the middle
        have hnext : middle.val + 1 < n.toNat := by omega
        obtain ⟨i, hi, howner⟩ := select_loop_spec hget token ⟨middle.val + 1, hnext⟩ right
          (show middle.val + 1 ≤ right.val by omega)
        simp only [heq, if_false, hneg, if_true]
        refine ⟨i, hi, fun hsorted _ hright => howner hsorted (fun j hj => ?_) hright⟩
        have hjm : j ≤ middle := Nat.lt_succ_iff.mp hj
        exact lt_of_le_of_lt (hsorted hjm) ((token_cmp_ordered_by.neg_iff _ _).mp hneg)
      · -- the owner is the middle or comes before it
        obtain ⟨i, hi, howner⟩ := select_loop_spec hget token left middle hlm
        simp only [heq, if_false, hneg]
        refine ⟨i, hi, fun hsorted hleft _ => howner hsorted hleft ?_⟩
        exact (token_cmp_ordered_by.ge_iff _ _).mp (Int.not_lt.mp hneg)
  · have hint : ¬ (left.val : Int) < right.val := by omega
    simp only [hint, if_false, read_continuum_eq hget, bind, Except.bind, pure, Except.pure]
    refine ⟨right, rfl, fun hsorted hleft hright => ?_⟩
    refine is_owner_first hsorted hright (fun j hj => hleft j ?_)
    exact lt_of_lt_of_le hj (not_lt.mp hlt)
termination_by right.val - left.val

/-- The search returns the index of an element, and on sorted elements that of the owner. -/
theorem select_continuum_spec (hget : ∀ i, continuum[i.val]? = some (element i)) (token : Token)
    (hpos : 0 < n.toNat) :
    ∃ i, selectContinuum continuum n token = .ok (element i).index ∧
      (Monotone (fun i => (element i).token.key) →
        IsOwner (Set.range fun i => (element i).token.key) token.key
          (element i).token.key) := by
  let first : Fin n.toNat := ⟨0, hpos⟩
  let last : Fin n.toNat := ⟨n.toNat - 1, by omega⟩
  have hfirst : readContinuum continuum n 0 = .ok (element first) :=
    read_continuum_eq hget first
  have hcast : (n.toNat : Int) - 1 = (last.val : Int) := by
    show (n.toNat : Int) - 1 = ((n.toNat - 1 : Nat) : Int)
    omega
  have hlast : readContinuum continuum n last.val = .ok (element last) :=
    read_continuum_eq hget last
  simp only [selectContinuum, hcast, hfirst, hlast, bind, Except.bind, pure, Except.pure]
  by_cases hbelow : tokenCmp (element last).token token < 0
  · -- past the last token the ring starts again
    simp only [hbelow, if_true]
    refine ⟨first, rfl, fun hsorted => ?_⟩
    exact is_owner_wrap hsorted (fun j => Nat.zero_le _)
      (fun j => Nat.le_sub_one_of_lt j.isLt) ((token_cmp_ordered_by.neg_iff _ _).mp hbelow)
  · simp only [hbelow, if_false]
    by_cases hge : 0 ≤ tokenCmp (element first).token token
    · simp only [hge, if_true]
      refine ⟨first, rfl, fun hsorted => ?_⟩
      exact is_owner_first hsorted ((token_cmp_ordered_by.ge_iff _ _).mp hge)
        (fun j hj => absurd hj (Nat.not_lt_zero _))
    · simp only [hge, if_false]
      obtain ⟨i, hi, howner⟩ := select_loop_spec hget token first last (Nat.zero_le _)
      refine ⟨i, hi, fun hsorted => howner hsorted (fun j hj => ?_) ?_⟩
      · exact absurd hj (Nat.not_lt_zero _)
      · exact (token_cmp_ordered_by.ge_iff _ _).mp (Int.not_lt.mp hbelow)

/-- A rack without elements has nothing before its first position to read. -/
theorem select_continuum_empty (continuum : List Continuum) (token : Token) :
    selectContinuum continuum 0 token = .error .continuumAccess := rfl

end Search

/-! ## Racks as `dynoc_start` leaves them -/

/-- The rack holds its elements, each with its position as index. -/
def Rack.Indexed (rack : Rack) : Prop :=
  ∃ element : Fin rack.ncontinuum.toNat → Continuum,
    (∀ i, rack.continuum[i.val]? = some (element i)) ∧
    (∀ i, (element i).index.toNat = i.val) ∧
    Monotone fun i => (element i).token.key

/-- In such a rack with at least one node the search returns a position. -/
theorem Rack.Indexed.select {rack : Rack} (h : rack.Indexed) (hpos : 0 < rack.ncontinuum.toNat)
    (token : Token) :
    ∃ index, selectContinuum rack.continuum rack.ncontinuum token = .ok index ∧
      index.toNat < rack.ncontinuum.toNat := by
  obtain ⟨element, hget, hindex, -⟩ := h
  obtain ⟨i, hi, -⟩ := select_continuum_spec hget token hpos
  exact ⟨_, hi, by rw [hindex]; exact i.isLt⟩

end DynocClient
