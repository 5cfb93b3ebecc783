import Mathlib.Data.Nat.ModEq
import Mathlib.Logic.Function.Basic
import Mathlib.Tactic.Common

/-!
# Mixing steps that lose nothing

A hash mixes its state by steps such as a product with an odd number or a shift that is xored to
the state. Each of them is injective, so two states that differ stay apart through any number of
such steps (`foldl_injective`). `DifferOnlyIn` are two sequences that differ at some of the
positions of an interval and nowhere else.
-/

namespace DynocClient.Lib

/-! ## Steps on a word -/

section Words

variable {w : Nat}

/-- Zero is the only word that a shift to the right does not change. -/
theorem eq_zero_of_shift_right {x : BitVec w} {k : Nat} (hk : 0 < k) (h : x >>> k = x) :
    x = 0#w := by
  have hnat : x.toNat >>> k = x.toNat := by rw [← BitVec.toNat_ushiftRight, h]
  have hpow : 2 ≤ 2 ^ k := Nat.le_self_pow (Nat.ne_of_gt hk) 2
  apply BitVec.eq_of_toNat_eq
  rw [BitVec.toNat_zero]
  by_contra hne
  have hlt : x.toNat / 2 ^ k < x.toNat := Nat.div_lt_self (Nat.pos_of_ne_zero hne) hpow
  rw [Nat.shiftRight_eq_div_pow] at hnat
  omega

/-- The exclusive or of a word with itself shifted right loses nothing. -/
theorem xor_shift_right_injective {k : Nat} (hk : 0 < k) :
    Function.Injective fun x : BitVec w => x ^^^ x >>> k := by
  intro x y h
  have hzero : (x ^^^ y) ^^^ (x ^^^ y) >>> k = 0#w := by
    rw [BitVec.ushiftRight_xor_distrib]
    have hsame : (x ^^^ x >>> k) ^^^ (y ^^^ y >>> k) = 0#w := BitVec.xor_eq_zero_iff.mpr h
    rw [← hsame]
    ac_rfl
  have hshift : (x ^^^ y) >>> k = x ^^^ y := (BitVec.xor_eq_zero_iff.mp hzero).symm
  exact BitVec.xor_eq_zero_iff.mp (eq_zero_of_shift_right hk hshift)

/-- Multiplication by an odd number loses nothing. -/
theorem mul_odd_injective {c : BitVec w} (hc : c.toNat % 2 = 1) :
    Function.Injective fun x : BitVec w => x * c := by
  intro x y h
  have htwo : Nat.Coprime 2 c.toNat := by
    show Nat.gcd 2 c.toNat = 1
    rw [Nat.gcd_rec, hc, Nat.gcd_one_left]
  have hgcd : Nat.gcd (2 ^ w) c.toNat = 1 := Nat.Coprime.pow_left w htwo
  have hmod : x.toNat * c.toNat ≡ y.toNat * c.toNat [MOD 2 ^ w] := by
    have hnat := congrArg BitVec.toNat h
    rwa [BitVec.toNat_mul, BitVec.toNat_mul] at hnat
  have hcancel : x.toNat % 2 ^ w = y.toNat % 2 ^ w := hmod.cancel_right_of_coprime hgcd
  apply BitVec.eq_of_toNat_eq
  rwa [Nat.mod_eq_of_lt x.isLt, Nat.mod_eq_of_lt y.isLt] at hcancel

/-- A shift to the left that is added is a product with an odd number. -/
theorem add_shift_left_injective {k : Nat} (hk : 0 < k) :
    Function.Injective fun x : BitVec w => x + x <<< k := by
  rcases Nat.eq_zero_or_pos w with rfl | hw
  · exact fun x y _ => BitVec.eq_of_zero_length rfl
  have hodd : (1#w + BitVec.twoPow w k).toNat % 2 = 1 := by
    have hwidth : 2 ∣ 2 ^ w := dvd_pow_self 2 (Nat.ne_of_gt hw)
    have hpow : 2 ∣ 2 ^ k := dvd_pow_self 2 (Nat.ne_of_gt hk)
    rw [BitVec.toNat_add, Nat.mod_mod_of_dvd _ hwidth, Nat.add_mod, BitVec.toNat_twoPow,
      Nat.mod_mod_of_dvd _ hwidth, Nat.mod_eq_zero_of_dvd hpow, BitVec.toNat_ofNat,
      Nat.mod_mod_of_dvd _ hwidth]
  have hproduct : (fun x : BitVec w => x + x <<< k) =
      fun x => x * (1#w + BitVec.twoPow w k) := by
    funext x
    rw [BitVec.mul_add, BitVec.mul_one, BitVec.shiftLeft_eq_mul_twoPow]
  rw [hproduct]
  exact mul_odd_injective hodd

end Words

/-! ## The same steps on 32 bits

A shift amount counts modulo 32. -/

section UInt32

/-- The exclusive or of a 32-bit word with itself shifted right loses nothing. -/
theorem uint32_xor_shift_right_injective {k : UInt32} (hk : 0 < k.toNat % 32) :
    Function.Injective fun x : UInt32 => x ^^^ x >>> k := by
  intro x y h
  apply UInt32.toBitVec_inj.mp
  apply xor_shift_right_injective hk
  have hbits := congrArg UInt32.toBitVec h
  simpa [BitVec.ushiftRight_eq'] using hbits

/-- Multiplication of a 32-bit word by an odd number loses nothing. -/
theorem uint32_mul_odd_injective {c : UInt32} (hc : c.toNat % 2 = 1) :
    Function.Injective fun x : UInt32 => x * c := by
  intro x y h
  apply UInt32.toBitVec_inj.mp
  exact mul_odd_injective hc (congrArg UInt32.toBitVec h)

/-- The sum of a 32-bit word and itself shifted left loses nothing. -/
theorem uint32_add_shift_left_injective {k : UInt32} (hk : 0 < k.toNat % 32) :
    Function.Injective fun x : UInt32 => x + x <<< k := by
  intro x y h
  apply UInt32.toBitVec_inj.mp
  apply add_shift_left_injective hk
  have hbits := congrArg UInt32.toBitVec h
  simpa [BitVec.shiftLeft_eq'] using hbits

end UInt32

/-! ## Folds -/

section Folds

variable {σ α : Type*} {step : σ → α → σ}

/-- A run over a sequence is injective in the state it starts from where each step is. -/
theorem foldl_injective (hstep : ∀ a, Function.Injective fun s => step s a) (xs : List α) :
    Function.Injective fun s => xs.foldl step s := by
  induction xs with
  | nil => exact Function.injective_id
  | cons x xs ih => exact ih.comp (hstep x)

/-! ## Sequences that differ in one place -/

/-- Two sequences of one length that differ at positions from `start` up to `stop` only. -/
structure DifferOnlyIn (xs ys : List α) (start stop : Nat) : Prop where
  length_eq : xs.length = ys.length
  ne : xs ≠ ys
  same : ∀ i, i < start ∨ stop ≤ i → xs[i]? = ys[i]?

namespace DifferOnlyIn

variable {xs ys : List α} {start stop : Nat}

/-- In front of the difference the lists agree. -/
theorem take_eq (h : DifferOnlyIn xs ys start stop) : xs.take start = ys.take start := by
  apply List.ext_getElem?
  intro i
  rw [List.getElem?_take, List.getElem?_take]
  split
  · next hi => exact h.same i (.inl hi)
  · rfl

/-- After the difference the lists agree. -/
theorem drop_eq (h : DifferOnlyIn xs ys start stop) : xs.drop stop = ys.drop stop := by
  apply List.ext_getElem?
  intro i
  rw [List.getElem?_drop, List.getElem?_drop]
  exact h.same (stop + i) (.inr (Nat.le_add_right stop i))

/-- What comes before and after the interval is common to the two. -/
theorem split (h : DifferOnlyIn xs ys start stop) (hle : start ≤ stop) :
    ∃ front mid mid' back, xs = front ++ (mid ++ back) ∧ ys = front ++ (mid' ++ back) ∧
      front = xs.take start ∧ mid = (xs.drop start).take (stop - start) ∧
      mid.length = mid'.length ∧ mid ≠ mid' := by
  have hparts : ∀ zs : List α,
      zs = zs.take start ++ ((zs.drop start).take (stop - start) ++ zs.drop stop) := by
    intro zs
    have hdrop : zs.drop stop = (zs.drop start).drop (stop - start) := by
      rw [List.drop_drop, Nat.add_sub_cancel' hle]
    rw [hdrop, List.take_append_drop, List.take_append_drop]
  have hys : ys = xs.take start ++ ((ys.drop start).take (stop - start) ++ xs.drop stop) := by
    rw [h.take_eq, h.drop_eq]
    exact hparts ys
  refine ⟨_, _, (ys.drop start).take (stop - start), _, hparts xs, hys, rfl, rfl, ?_, ?_⟩
  · rw [List.length_take, List.length_take, List.length_drop, List.length_drop, h.length_eq]
  · intro hmid
    apply h.ne
    rw [hparts xs, hmid, ← hys]

/-- Two sequences with a common front and back differ in between only. -/
theorem append (front back : List α) {mid mid' : List α} (hlength : mid.length = mid'.length)
    (hne : mid ≠ mid') :
    DifferOnlyIn (front ++ (mid ++ back)) (front ++ (mid' ++ back)) front.length
      (front.length + mid.length) where
  length_eq := by simp [hlength]
  ne h := hne (List.append_cancel_right (List.append_cancel_left h))
  same i hi := by
    rcases hi with hlt | hge
    · rw [List.getElem?_append_left hlt, List.getElem?_append_left hlt]
    · have hfront : front.length ≤ i := Nat.le_of_add_right_le hge
      have hmid : mid.length ≤ i - front.length := by omega
      rw [List.getElem?_append_right hfront, List.getElem?_append_right hmid,
        List.getElem?_append_right hfront, List.getElem?_append_right (hlength ▸ hmid), hlength]

end DifferOnlyIn

/-- Where a step loses neither the state nor the item, two sequences that differ in one item
lead to different states. -/
theorem foldl_ne_of_differ (hstate : ∀ a, Function.Injective fun s => step s a)
    (hitem : ∀ s, Function.Injective (step s)) {xs ys : List α} {i : Nat}
    (h : DifferOnlyIn xs ys i (i + 1)) (s : σ) : xs.foldl step s ≠ ys.foldl step s := by
  obtain ⟨front, mid, mid', back, rfl, rfl, -, hmid, hlength, hne⟩ := h.split (Nat.le_succ i)
  intro heq
  rw [List.foldl_append, List.foldl_append, List.foldl_append, List.foldl_append] at heq
  have hmids := foldl_injective hstate back heq
  have hshort : mid.length ≤ 1 := by
    rw [hmid, List.length_take]
    omega
  match mid, mid', hlength, hshort with
  | [], [], _, _ => exact hne rfl
  | [a], [b], _, _ =>
      have hab : a = b := hitem _ hmids
      exact hne (congrArg (fun a => [a]) hab)

end Folds

end DynocClient.Lib
