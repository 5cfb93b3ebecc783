import DynocClient.Token.Decimal
import Mathlib.Data.Int.ModEq
import Mathlib.RingTheory.Coprime.Lemmas

/-!
# Numerals of more than one group

`add_next_word` multiplies by `radixVal` where a group of ten digits calls for a factor of
`10 ^ 10`. `weightGap` is what this makes of the digits, so `numeral_word_iff` says which numerals
are still read right.
-/

namespace DynocClient

/-! ## What the wrong radix does -/

/-- The groups that so many digits make. -/
def groupCount (digits : Nat) : Nat := (digits + 9) / DIGITS_PER_INT

/-- The weight that the code gives a number before so many digits, less the weight of its
place. -/
def placeGap (digits : Nat) : Int := (radixVal.toNat : Int) ^ groupCount digits - 10 ^ digits

/-- Each group's number times the gap of its place, less the number of an incomplete last group,
which the code reads as zero. -/
def weightGap (digits : List UInt8) : Int :=
  if digits = [] then 0
  else if DIGITS_PER_INT ≤ digits.length then
    decimalFrom 0 (digits.take DIGITS_PER_INT) * placeGap (digits.length - DIGITS_PER_INT) +
      weightGap (digits.drop DIGITS_PER_INT)
  else -decimalFrom 0 digits
termination_by digits.length
decreasing_by
  have hpos := List.length_pos_iff.mpr ‹digits ≠ []›
  simp only [List.length_drop, DIGITS_PER_INT]
  omega

/-- Equal numbers are congruent. -/
theorem modeq_of_eq {a b n : Int} (h : a = b) : a ≡ b [ZMOD n] := by rw [h]

/-- A sum of words is congruent to the sum. -/
theorem word_add_modeq (a b : UInt32) :
    ((a + b).toNat : Int) ≡ a.toNat + b.toNat [ZMOD 2 ^ 32] := by
  rw [UInt32.toNat_add]
  push_cast
  exact Int.mod_modEq _ _

/-- A product of words is congruent to the product. -/
theorem word_mul_modeq (a b : UInt32) :
    ((a * b).toNat : Int) ≡ a.toNat * b.toNat [ZMOD 2 ^ 32] := by
  rw [UInt32.toNat_mul]
  push_cast
  exact Int.mod_modEq _ _

/-- A number made a word is congruent to itself. -/
theorem word_of_nat_modeq (n : Nat) : ((UInt32.ofNat n).toNat : Int) ≡ n [ZMOD 2 ^ 32] := by
  rw [UInt32.toNat_ofNat']
  push_cast
  exact Int.mod_modEq _ _

/-- After the remaining digits the word is off by what it was off before, in its new weight, and
by the gap of these digits. -/
theorem fold_groups_modeq (word : UInt32) (value : Nat) (digits : List UInt8) :
    ((foldGroups word digits).toNat : Int) - decimalFrom value digits ≡
      word.toNat * (radixVal.toNat : Int) ^ groupCount digits.length - value * 10 ^ digits.length +
        weightGap digits [ZMOD 2 ^ 32] := by
  induction digits using groups_induction generalizing word value with
  | nil => simp [weightGap, groupCount, DIGITS_PER_INT, decimalFrom, fold_groups_nil]
  | group digits hlong ih =>
      have hne : digits ≠ [] := by
        intro hnil
        simp [hnil, DIGITS_PER_INT] at hlong
      have hlen : digits.length = (digits.length - DIGITS_PER_INT) + DIGITS_PER_INT := by omega
      have hcount : groupCount digits.length =
          groupCount (digits.length - DIGITS_PER_INT) + 1 := by
        simp only [groupCount, DIGITS_PER_INT] at hlong ⊢
        omega
      have hgroup : decimalFrom value (digits.take DIGITS_PER_INT) =
          value * 10 ^ DIGITS_PER_INT + decimalFrom 0 (digits.take DIGITS_PER_INT) := by
        rw [decimal_from_eq, List.length_take, Nat.min_eq_left hlong]
      have hrest := ih
        (radixVal * word + UInt32.ofNat (decimalFrom 0 (digits.take DIGITS_PER_INT)))
        (decimalFrom value (digits.take DIGITS_PER_INT))
      have hword : ((radixVal * word +
          UInt32.ofNat (decimalFrom 0 (digits.take DIGITS_PER_INT))).toNat : Int) ≡
          radixVal.toNat * word.toNat + decimalFrom 0 (digits.take DIGITS_PER_INT)
            [ZMOD 2 ^ 32] :=
        (word_add_modeq _ _).trans ((word_mul_modeq _ _).add (word_of_nat_modeq _))
      rw [fold_groups_group word hlong, weightGap, if_neg hne, if_pos hlong]
      rw [decimal_from_take_drop, List.length_drop] at hrest
      refine hrest.trans ((((hword.mul_right _).sub_right _).add_right _).trans ?_)
      rw [hgroup, hcount, placeGap]
      generalize digits.length - DIGITS_PER_INT = left at hlen
      rw [hlen, pow_add, pow_succ]
      push_cast
      exact modeq_of_eq (by ring)
  | rest digits hne hshort =>
      have hpos : 0 < digits.length := List.length_pos_iff.mpr hne
      have hcount : groupCount digits.length = 1 := by
        simp only [groupCount, DIGITS_PER_INT] at hshort ⊢
        omega
      rw [fold_groups_rest word hne hshort, weightGap, if_neg hne, if_neg hshort, hcount,
        decimal_from_eq value digits]
      push_cast
      have hmul := (word_mul_modeq radixVal word).sub_right
        ((value : Int) * 10 ^ digits.length + decimalFrom 0 digits)
      refine hmul.trans ?_
      exact modeq_of_eq (by ring)

/-! ## Which numerals are read right -/

/-- The word holds the number that the digits denote, modulo `2 ^ 32`. -/
def Decimal.WordExact (decimal : Decimal) : Prop :=
  decimal.word.toNat = decimal.magnitude % 2 ^ 32

/-- A word is the remainder of a value exactly if it is congruent to the value. -/
theorem word_exact_modeq (word : UInt32) (value : Nat) :
    word.toNat = value % 2 ^ 32 ↔ (word.toNat : Int) ≡ value [ZMOD 2 ^ 32] := by
  have hlt := word.toNat_lt
  unfold Int.ModEq
  omega

/-- Exactly then. -/
theorem Decimal.word_exact_iff (decimal : Decimal) :
    decimal.WordExact ↔
      (2 ^ 32 : Int) ∣ decimalFrom 0 decimal.head * placeGap decimal.rest.length +
        weightGap decimal.rest := by
  have hfold := fold_groups_modeq (UInt32.ofNat (decimalFrom 0 decimal.head))
    (decimalFrom 0 decimal.head) decimal.rest
  rw [← decimal_from_append, decimal.head_append_rest] at hfold
  have hhead := (word_of_nat_modeq (decimalFrom 0 decimal.head)).mul_right
    ((radixVal.toNat : Int) ^ groupCount decimal.rest.length)
  have hgap := hfold.trans ((hhead.sub_right _).add_right _)
  rw [WordExact, word_exact_modeq, Int.modEq_comm, Int.modEq_iff_dvd]
  refine hgap.dvd_iff.trans ?_
  rw [placeGap, mul_sub]

/-- The wrong radix and the right one differ by an odd number. -/
theorem radix_gap_dvd (n : Int) :
    (2 ^ 32 : Int) ∣ n * ((radixVal.toNat : Int) - 10 ^ 10) ↔ (2 ^ 32 : Int) ∣ n := by
  have hcoprime : IsCoprime (2 ^ 32 : Int) ((radixVal.toNat : Int) - 10 ^ 10) := by
    rw [Int.isCoprime_iff_gcd_eq_one]
    decide
  exact ⟨hcoprime.dvd_of_dvd_mul_right, fun h => h.mul_right _⟩

/-- `add_next_word` folds a group in with the right radix only into a word that is zero. -/
theorem add_next_word_exact_iff (buf : Vector UInt32 4) (nextInt : UInt32) :
    ∃ folded, addNextWord buf 1 nextInt = .ok folded ∧
      ((folded.get ⟨0, mag_first⟩).toNat =
          ((buf.get ⟨0, mag_first⟩).toNat * 10 ^ 10 + nextInt.toNat) % 2 ^ 32 ↔
        buf.get ⟨0, mag_first⟩ = 0) := by
  refine ⟨_, add_next_word_one buf nextInt, ?_⟩
  rw [first_of_set]
  generalize buf.get ⟨0, mag_first⟩ = word
  have hword : ((radixVal * word + nextInt).toNat : Int) ≡
      radixVal.toNat * word.toNat + nextInt.toNat [ZMOD 2 ^ 32] :=
    (word_add_modeq _ _).trans ((word_mul_modeq _ _).add_right _)
  have hzero : word = 0 ↔ (2 ^ 32 : Int) ∣ word.toNat := by
    have hlt := word.toNat_lt
    rw [← UInt32.toNat_inj]
    show word.toNat = 0 ↔ _
    omega
  rw [word_exact_modeq, hzero, ← radix_gap_dvd, Int.modEq_comm, Int.modEq_iff_dvd]
  refine (hword.sub_right _).dvd_iff.trans ?_
  have hsub : (radixVal.toNat : Int) * word.toNat + nextInt.toNat -
      ((word.toNat * 10 ^ 10 + nextInt.toNat : Nat) : Int) =
        word.toNat * (radixVal.toNat - 10 ^ 10) := by
    push_cast
    ring
  rw [hsub]

namespace Decimal

variable (decimal : Decimal)

/-- Up to ten digits the word is right. -/
theorem word_exact_short (h : decimal.digits.length ≤ 10) : decimal.WordExact := by
  rw [WordExact, decimal.word_of_short h, UInt32.toNat_ofNat']

/-- With two groups everything depends on the first. -/
theorem word_exact_two_groups (hlong : 10 < decimal.digits.length)
    (hshort : decimal.digits.length ≤ 20) :
    decimal.WordExact ↔
      2 ^ 32 ∣ decimalFrom 0 (decimal.digits.take (decimal.digits.length - 10)) := by
  have hcount : (UInt32.ofNat decimal.digits.length).toNat = decimal.digits.length :=
    UInt32.toNat_ofNat_of_lt' (Nat.lt_of_le_of_lt hshort (by decide))
  have hhead : decimal.headLen = decimal.digits.length - 10 := by
    simp only [headLen, firstGroupLen, hcount, DIGITS_PER_INT]
    split <;> omega
  have hlen : decimal.rest.length = 10 := by
    rw [rest, List.length_drop, hhead]
    omega
  have hgap : weightGap decimal.rest = 0 := by
    have hnil : decimal.rest.drop DIGITS_PER_INT = [] := List.drop_eq_nil_of_le hlen.le
    have hfull : DIGITS_PER_INT ≤ decimal.rest.length := hlen.ge
    have hlast : placeGap 0 = 0 := rfl
    rw [weightGap, if_neg (List.ne_nil_of_length_pos (by omega)), if_pos hfull, hnil, hlen,
      weightGap, if_pos rfl]
    show _ * placeGap 0 + 0 = 0
    rw [hlast, mul_zero, add_zero]
  have hplace : placeGap 10 = (radixVal.toNat : Int) - 10 ^ 10 := by
    rw [placeGap, show groupCount 10 = 1 from rfl, pow_one]
  rw [word_exact_iff, hgap, add_zero, hlen, hplace, radix_gap_dvd, head, hhead]
  exact Int.natCast_dvd_natCast (m := 2 ^ 32)

end Decimal

/-- The word that `token_parse` leaves is the number modulo `2 ^ 32` exactly if the groups'
numbers, each times the gap of its place, add up to a multiple of `2 ^ 32`. That is so up to ten
digits; up to twenty it depends on the number in the first group. A group is folded in right only
after a word that is zero. -/
theorem numeral_word_iff (decimal : Decimal) (token : Token) :
    (∃ parsed, tokenParse decimal.text decimal.text.strlen token = .ok parsed ∧
      ((parsed.mag.get ⟨0, mag_first⟩).toNat = decimal.magnitude % 2 ^ 32 ↔
        (2 ^ 32 : Int) ∣ decimalFrom 0 decimal.head * placeGap decimal.rest.length +
          weightGap decimal.rest) ∧
      (decimal.digits.length ≤ 10 →
        (parsed.mag.get ⟨0, mag_first⟩).toNat = decimal.magnitude % 2 ^ 32) ∧
      (10 < decimal.digits.length → decimal.digits.length ≤ 20 →
        ((parsed.mag.get ⟨0, mag_first⟩).toNat = decimal.magnitude % 2 ^ 32 ↔
          2 ^ 32 ∣ decimalFrom 0 (decimal.digits.take (decimal.digits.length - 10))))) ∧
    ∀ buf nextInt, ∃ folded, addNextWord buf 1 nextInt = .ok folded ∧
      ((folded.get ⟨0, mag_first⟩).toNat =
          ((buf.get ⟨0, mag_first⟩).toNat * 10 ^ 10 + nextInt.toNat) % 2 ^ 32 ↔
        buf.get ⟨0, mag_first⟩ = 0) := by
  refine ⟨⟨_, decimal.token_parse_decimal token, ?_⟩, add_next_word_exact_iff⟩
  rw [first_of_set]
  exact ⟨decimal.word_exact_iff, decimal.word_exact_short, decimal.word_exact_two_groups⟩

/-- Eleven digits. -/
def tenBillion : Decimal :=
  ⟨false, (CString.ofAscii "10000000000").bytes, by decide +kernel, by decide +kernel⟩

/-- `9 ^ 9` in place of `10 ^ 10` modulo `2 ^ 32`. -/
theorem ten_billion_word :
    ∃ parsed, tokenParse tenBillion.text tenBillion.text.strlen tokenInit = .ok parsed ∧
      tenBillion.magnitude = 10000000000 ∧
      (parsed.mag.get ⟨0, mag_first⟩).toNat = 387420489 ∧
      tenBillion.magnitude % 2 ^ 32 = 1410065408 := by
  refine ⟨_, tenBillion.token_parse_decimal tokenInit, by decide +kernel, ?_, by decide +kernel⟩
  rw [first_of_set]
  decide +kernel

end DynocClient
