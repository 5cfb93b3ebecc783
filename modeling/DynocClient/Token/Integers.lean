import DynocClient.Token.Decimal
import DynocClient.Token.Order

/-!
# Tokens as integers

The two ways to build a token agree on 32-bit numbers (`parsed_is_set_int`). With a sign they do
not compare as integers: `Decimal.integer_order_iff` says which pairs do.
-/

namespace DynocClient

open Lib

/-- Parsing the canonical numeral of a 32-bit number sets the same fields as setting the
number. -/
theorem token_parse_set_int {str : CString} {value : Nat} (h : str.IsNumeral value)
    (hvalue : value < 2 ^ 32) :
    tokenParse str str.strlen (tokenSize tokenInit 1 one_le_mag) =
      .ok (tokenSetInt tokenInit (UInt32.ofNat value)) := by
  have hpos : UInt32.ofNat value > 0 ↔ ¬ value = 0 := by
    rw [gt_iff_lt, UInt32.lt_iff_toNat_lt, UInt32.toNat_ofNat_of_lt' hvalue]
    exact Nat.pos_iff_ne_zero
  have hsign : (if UInt32.ofNat value > 0 then (1 : UInt32) else 0) =
      if value = 0 then 0 else 1 := by
    simp only [hpos, ite_not]
  rw [token_parse_numeral h hvalue, tokenSetInt, hsign]
  rfl

/-- The two ways to build a token agree. -/
theorem parsed_is_set_int {str : CString} {v : UInt32} (h : str.IsNumeral v.toNat) :
    ∃ token, tokenParse str str.strlen (tokenSize tokenInit 1 one_le_mag) = .ok token ∧
      token.signum = (tokenSetInt tokenInit v).signum ∧
      token.length = (tokenSetInt tokenInit v).length ∧
      token.mag = (tokenSetInt tokenInit v).mag ∧
      token.mag.get ⟨0, mag_first⟩ = v ∧
      ∀ w, (tokenCmp token (tokenSetInt tokenInit w) < 0 ↔ v < w) ∧
        (tokenCmp token (tokenSetInt tokenInit w) = 0 ↔ v = w) ∧
        (0 < tokenCmp token (tokenSetInt tokenInit w) ↔ v > w) := by
  have hparse := token_parse_set_int h v.toNat_lt
  rw [UInt32.ofNat_toNat] at hparse
  refine ⟨_, hparse, rfl, rfl, rfl, first_of_set _ _, fun w => ?_⟩
  rw [token_cmp_ordered_by.neg_iff, token_cmp_ordered_by.eq_iff, token_cmp_ordered_by.pos_iff,
    token_set_int_key, token_set_int_key, ring_key_strict_mono.lt_iff_lt,
    ring_key_strict_mono.lt_iff_lt, ring_key_strict_mono.injective.eq_iff, UInt32.toNat_inj]
  exact ⟨UInt32.lt_iff_toNat_lt.symm, Iff.rfl, UInt32.lt_iff_toNat_lt.symm⟩

/-- The numeral of the largest 32-bit number. -/
theorem parsed_max_is_set_int :
    ∃ token, tokenParse (.ofAscii "4294967295") (CString.ofAscii "4294967295").strlen
        (tokenSize tokenInit 1 one_le_mag) = .ok token ∧
      token.mag.get ⟨0, mag_first⟩ = 4294967295 ∧
      tokenCmp token (tokenSetInt tokenInit 4294967294) > 0 := by
  have hnumeral : (CString.ofAscii "4294967295").IsNumeral (4294967295 : UInt32).toNat := by
    refine ⟨?_, ?_, ?_, ?_⟩ <;> decide +kernel
  obtain ⟨token, hparse, -, -, -, hword, hcmp⟩ := parsed_is_set_int hnumeral
  exact ⟨token, hparse, hword, (hcmp 4294967294).2.2.mpr (by decide)⟩

/-! ## The order of decimal integers -/

/-- On one word the loop of `token_cmp` compares two numbers. -/
theorem token_cmp_words_one (a b : UInt32) :
    tokenCmpWords [a] [b] = Int.sign ((a.toNat : Int) - b.toNat) := by
  simp only [tokenCmpWords]
  rcases Nat.lt_trichotomy a.toNat b.toNat with hlt | heq | hgt
  · have hne : a ≠ b := fun h => by simp [h] at hlt
    have hngt : ¬ a > b := fun h => Nat.lt_asymm hlt (UInt32.lt_iff_toNat_lt.mp h)
    rw [if_pos hne, if_neg hngt, Int.sign_eq_neg_one_of_neg (by omega)]
  · have h : a = b := UInt32.toNat_inj.mp heq
    simp [h]
  · have hne : a ≠ b := fun h => by simp [h] at hgt
    rw [if_pos hne, if_pos (UInt32.lt_iff_toNat_lt.mpr hgt), Int.sign_eq_one_of_pos (by omega)]

namespace Decimal

variable (a b : Decimal)

/-- The token of the integer. -/
def token : Token where
  signum := a.signWord
  length := 1
  mag := tokenInit.mag.set 0 a.word mag_first
  length_le := one_le_mag

/-- `token_parse` reads a decimal into its token. -/
theorem parse_token :
    tokenParse a.text a.text.strlen (tokenSize tokenInit 1 one_le_mag) = .ok a.token :=
  a.token_parse_decimal _

/-- The token has one word. -/
theorem token_words : a.token.words = [a.word] := by
  rw [Token.words_of_one rfl]
  exact congrArg (fun word => [word]) (Vector.getElem_set_self mag_first)

/-- `token_cmp` compares the sign words and then the magnitudes. -/
theorem token_cmp_eq :
    tokenCmp a.token b.token =
      if a.signWord = b.signWord then
        if a.signWord = 0 then 0 else Int.sign ((a.word.toNat : Int) - b.word.toNat)
      else if a.signWord > b.signWord then 1 else -1 := by
  rw [tokenCmp, token_words, token_words, token_cmp_words_one]
  rfl

/-- The digits of an incomplete last group, which only a count that wraps leaves over. -/
def tailLen : Nat := a.rest.length % DIGITS_PER_INT

/-- What is read of a magnitude below `2 ^ 32`: all of it, or without the digits of an incomplete
last group and times the radix. -/
def readMagnitude : Nat :=
  if a.tailLen = 0 then a.magnitude
  else radixVal.toNat * (a.magnitude / 10 ^ a.tailLen) % 2 ^ 32

/-- Below 2 ^ 32 a partial last group multiplies by the radix and adds nothing. -/
theorem fold_groups_bounded {digits : List UInt8} (h : ∀ byte ∈ digits, IsDigit byte) {value : Nat}
    (hvalue : decimalFrom value digits < 2 ^ 32) :
    (foldGroups (UInt32.ofNat value) digits).toNat =
      if digits.length % DIGITS_PER_INT = 0 then decimalFrom value digits
      else radixVal.toNat *
        (decimalFrom value digits / 10 ^ (digits.length % DIGITS_PER_INT)) % 2 ^ 32 := by
  induction digits using groups_induction generalizing value with
  | nil =>
      rw [fold_groups_nil]
      exact UInt32.toNat_ofNat_of_lt' hvalue
  | group digits hlong ih =>
      -- a number before ten more digits can only be zero
      have heq := decimal_from_eq value digits
      have hpow : 10 ^ 10 ≤ 10 ^ digits.length := Nat.pow_le_pow_right (by omega) hlong
      have hzero : value = 0 := by
        by_contra hne
        have hle : 10 ^ digits.length ≤ value * 10 ^ digits.length :=
          Nat.le_mul_of_pos_left _ (Nat.pos_of_ne_zero hne)
        omega
      subst hzero
      have hsplit := decimal_from_take_drop 0 digits DIGITS_PER_INT
      have hword : radixVal * UInt32.ofNat 0 +
          UInt32.ofNat (decimalFrom 0 (digits.take DIGITS_PER_INT)) =
          UInt32.ofNat (decimalFrom 0 (digits.take DIGITS_PER_INT)) := by
        show radixVal * 0 + _ = _
        rw [UInt32.mul_zero, UInt32.zero_add]
      have hlen : (digits.drop DIGITS_PER_INT).length % DIGITS_PER_INT =
          digits.length % DIGITS_PER_INT := by
        rw [List.length_drop, ← Nat.mod_eq_sub_mod hlong]
      have hrest := ih (fun byte hbyte => h byte (List.mem_of_mem_drop hbyte))
        (hsplit.trans_lt hvalue)
      rw [fold_groups_group _ hlong, hword, hrest, hsplit, hlen]
  | rest digits hne hshort =>
      -- the incomplete group counts as zero, but the radix is still multiplied in
      have heq := decimal_from_eq value digits
      have hpos : 0 < digits.length := List.length_pos_iff.mpr hne
      have hmod : digits.length % DIGITS_PER_INT = digits.length :=
        Nat.mod_eq_of_lt (Nat.lt_of_not_le hshort)
      have hvalue' : decimalFrom value digits / 10 ^ digits.length = value := by
        rw [heq, Nat.mul_comm, Nat.mul_add_div (Nat.pow_pos (by omega)),
          Nat.div_eq_of_lt (decimal_from_lt h), Nat.add_zero]
      have hbound : value < 2 ^ 32 := by
        have hle : value ≤ value * 10 ^ digits.length :=
          Nat.le_mul_of_pos_right _ (Nat.pow_pos (by omega))
        omega
      rw [fold_groups_rest _ hne hshort, hmod, if_neg (Nat.ne_of_gt hpos), hvalue',
        UInt32.toNat_mul, UInt32.toNat_ofNat_of_lt' hbound]

/-- The word of a magnitude below 2 ^ 32 is the magnitude as it is read. -/
theorem word_eq_read (h : a.magnitude < 2 ^ 32) : a.word.toNat = a.readMagnitude := by
  have hsplit : decimalFrom (decimalFrom 0 a.head) a.rest = a.magnitude := by
    rw [← decimal_from_append, head_append_rest]
    rfl
  have hfold := fold_groups_bounded a.rest_digits (hsplit.trans_lt h)
  rw [hsplit] at hfold
  exact hfold

/-- The order of these tokens is the order of the integers. Both have a sign or neither has. With
a sign the order is turned around, so it must be the same both ways. Without one it is that of
what is read, where an integer that is read as zero comes before those that are not. -/
def OrderKept : Prop :=
  a.negative = b.negative ∧
    if a.negative then
      Int.sign ((a.readMagnitude : Int) - b.readMagnitude) =
        Int.sign ((b.magnitude : Int) - a.magnitude)
    else if a.ReadAsZero then
      if b.ReadAsZero then a.magnitude = b.magnitude else a.magnitude < b.magnitude
    else if b.ReadAsZero then b.magnitude < a.magnitude
    else
      Int.sign ((a.readMagnitude : Int) - b.readMagnitude) =
        Int.sign ((a.magnitude : Int) - b.magnitude)

instance : Decidable (a.OrderKept b) := inferInstanceAs (Decidable (_ ∧ _))

/-- The sign word of an integer without a sign is below that of one with a sign. -/
theorem sign_word_lt {a b : Decimal} (ha : a.negative = false) (hb : b.negative = true) :
    a.signWord < b.signWord := by
  simp only [signWord, ha, hb, if_true, Bool.false_eq_true, if_false]
  split <;> decide

/-- `token_cmp` compares the integers exactly if the order is kept. -/
theorem token_cmp_sign_iff (ha : a.magnitude < 2 ^ 32) (hb : b.magnitude < 2 ^ 32) :
    tokenCmp a.token b.token = Int.sign (a.value - b.value) ↔ a.OrderKept b := by
  rw [token_cmp_eq, word_eq_read a ha, word_eq_read b hb, OrderKept]
  cases hna : a.negative <;> cases hnb : b.negative
  · have hzo : ¬ (0 : UInt32) > 1 := by decide
    have hoz : (1 : UInt32) > 0 := by decide
    by_cases hza : a.ReadAsZero <;> by_cases hzb : b.ReadAsZero <;>
      simp only [signWord, value, hna, hnb, hza, hzb, Bool.false_eq_true, if_true, if_false,
        true_and]
    · rw [eq_comm, Int.sign_eq_zero_iff_zero]
      omega
    · rw [if_neg (by decide), if_neg hzo, eq_comm, Int.sign_eq_neg_one_iff_neg]
      omega
    · rw [if_neg (by decide), if_pos hoz, eq_comm, Int.sign_eq_one_iff_pos]
      omega
    · rw [if_neg (by decide)]
  · have hlt := sign_word_lt hna hnb
    have hne : a.signWord ≠ b.signWord := fun h => by simp [h] at hlt
    have hngt : ¬ a.signWord > b.signWord := fun h => absurd h (UInt32.lt_asymm hlt)
    have hsign : ¬ a.value - b.value < 0 := by
      simp only [value, hna, hnb, Bool.false_eq_true, if_true, if_false]
      omega
    rw [if_neg hne, if_neg hngt, eq_comm, Int.sign_eq_neg_one_iff_neg]
    exact iff_of_false hsign fun h => Bool.false_ne_true h.1
  · have hlt := sign_word_lt hnb hna
    have hne : a.signWord ≠ b.signWord := fun h => by simp [h] at hlt
    have hsign : ¬ 0 < a.value - b.value := by
      simp only [value, hna, hnb, Bool.false_eq_true, if_true, if_false]
      omega
    rw [if_neg hne, if_pos hlt, eq_comm, Int.sign_eq_one_iff_pos]
    exact iff_of_false hsign fun h => Bool.false_ne_true h.1.symm
  · have hminus : (0xffffffff : UInt32) ≠ 0 := by decide
    simp only [signWord, hna, hnb, value, if_true, hminus, if_false, true_and]
    rw [show -(a.magnitude : Int) - -(b.magnitude : Int) = b.magnitude - a.magnitude by omega]

/-- Below `2 ^ 32` digits the count does not wrap. -/
theorem digit_count (h : a.digits.length < 2 ^ 32) :
    (UInt32.ofNat a.digits.length).toNat = a.digits.length :=
  UInt32.toNat_ofNat_of_lt' h

/-- Below 2 ^ 32 digits the loop reads the magnitude. -/
theorem read_of_count (h : a.digits.length < 2 ^ 32) : a.readMagnitude = a.magnitude := by
  have hpos := a.digits_pos
  have htail : a.tailLen = 0 := by
    rw [tailLen, rest, List.length_drop, headLen, firstGroupLen, a.digit_count h]
    unfold DIGITS_PER_INT
    split <;> omega
  rw [readMagnitude, if_pos htail]

/-- Below 2 ^ 32 digits only the digit 0 is read as zero. -/
theorem zero_of_count (h : a.digits.length < 2 ^ 32) : a.ReadAsZero ↔ a.digits = [48] := by
  have hone : UInt32.ofNat a.digits.length = 1 ↔ a.digits.length = 1 := by
    rw [← UInt32.toNat_inj, a.digit_count h]
    rfl
  rw [ReadAsZero, hone]
  constructor
  · intro hcase
    obtain ⟨hlen, hhead⟩ := hcase
    obtain ⟨byte, hbyte⟩ := List.length_eq_one_iff.mp hlen
    simpa [hbyte] using hhead
  · intro hdigits
    simp [hdigits]

/-- Below 2 ^ 32 digits the condition is on the values. -/
theorem order_kept_of_count (ha : a.digits.length < 2 ^ 32) (hb : b.digits.length < 2 ^ 32) :
    a.OrderKept b ↔ a.negative = b.negative ∧
      if a.negative then a.magnitude = b.magnitude
      else (a.digits = [48] ↔ b.digits = [48]) ∨ a.magnitude ≠ b.magnitude := by
  have hzero {d : Decimal} (h : d.digits = [48]) : d.magnitude = 0 := by
    rw [magnitude, h]
    rfl
  simp only [OrderKept, read_of_count a ha, read_of_count b hb, zero_of_count a ha,
    zero_of_count b hb]
  refine and_congr_right fun _ => ?_
  cases a.negative
  · by_cases hza : a.digits = [48] <;> by_cases hzb : b.digits = [48] <;>
      simp only [hza, hzb, Bool.false_eq_true, if_true, if_false, iff_self, true_or, false_or,
        iff_false, not_true, iff_true]
    · rw [hzero hza, hzero hzb]
    · rw [hzero hza]
      omega
    · rw [hzero hzb]
      omega
  · simp only [if_true]
    constructor
    · intro h
      rcases Int.lt_trichotomy ((a.magnitude : Int) - b.magnitude) 0 with hlt | heq | hgt
      · rw [Int.sign_eq_neg_one_of_neg hlt, Int.sign_eq_one_of_pos (by omega)] at h
        exact absurd h (by decide)
      · omega
      · rw [Int.sign_eq_one_of_pos hgt, Int.sign_eq_neg_one_of_neg (by omega)] at h
        exact absurd h (by decide)
    · intro h
      rw [h]

/-- `token_cmp` on two decimal integers says which is less exactly if their order is kept; below
`2 ^ 32` digits that is for two integers without a sign, unless just one is the string `0` and
both are zero, and for two equal integers with a sign. Where all orders are kept, a rack is sorted
by increasing numbers. -/
theorem integer_order_iff (a b : Decimal) (ha : a.magnitude < 2 ^ 32)
    (hb : b.magnitude < 2 ^ 32) (qsort : Qsort Decimal) {rack : List Decimal}
    (hrack : ∀ d ∈ rack, d.magnitude < 2 ^ 32) :
    (∀ d : Decimal,
      tokenParse d.text d.text.strlen (tokenSize tokenInit 1 one_le_mag) = .ok d.token) ∧
    (tokenCmp a.token b.token = Int.sign (a.value - b.value) ↔ a.OrderKept b) ∧
    (a.digits.length < 2 ^ 32 → b.digits.length < 2 ^ 32 →
      (a.OrderKept b ↔ a.negative = b.negative ∧
        if a.negative then a.magnitude = b.magnitude
        else (a.digits = [48] ↔ b.digits = [48]) ∨ a.magnitude ≠ b.magnitude)) ∧
    ((∀ d ∈ rack, ∀ e ∈ rack, d.OrderKept e) →
      (qsort.sort (fun d e => tokenCmp d.token e.token) rack).Pairwise
        fun d e => d.value ≤ e.value) := by
  refine ⟨parse_token, token_cmp_sign_iff a b ha hb, order_kept_of_count a b, fun hkept => ?_⟩
  have hconsistent : Consistent fun d e : Decimal => tokenCmp d.token e.token :=
    (token_cmp_ordered_by.on Decimal.token).consistent
  refine (qsort.sorted hconsistent rack).imp_of_mem fun {d e} hd he hle => ?_
  have hd' : d ∈ rack := (qsort.perm hconsistent rack).mem_iff.mp hd
  have he' : e ∈ rack := (qsort.perm hconsistent rack).mem_iff.mp he
  have hsign := (token_cmp_sign_iff d e (hrack d hd') (hrack e he')).mpr (hkept d hd' e he')
  rw [hsign, Int.sign_nonpos_iff] at hle
  omega

/-- The decimal -1. -/
def minusOne : Decimal := ⟨true, [49], by simp [IsDigit], by simp⟩

/-- The decimal 1. -/
def one : Decimal := ⟨false, [49], by simp [IsDigit], by simp⟩

/-- The decimal 10. -/
def ten : Decimal := ⟨false, [49, 48], by simp [IsDigit], by simp⟩

/-- 10 and 1 compare as their values, and a sort puts 1 first. -/
theorem integer_order_ten_one :
    tokenCmp ten.token one.token = Int.sign (ten.value - one.value) ∧
      ((Lib.Qsort.insertion Decimal).sort (fun d e => tokenCmp d.token e.token)
        [ten, one]).Pairwise fun d e => d.value ≤ e.value := by
  have hbound : ∀ d ∈ [ten, one], d.magnitude < 2 ^ 32 := by decide
  have hten : ten ∈ [ten, one] := List.mem_cons_self
  have hone : one ∈ [ten, one] := List.mem_cons_of_mem _ List.mem_cons_self
  have horder := integer_order_iff ten one (hbound ten hten) (hbound one hone)
    (.insertion Decimal) hbound
  have hkept : ∀ d ∈ [ten, one], ∀ e ∈ [ten, one], d.OrderKept e := by decide +kernel
  exact ⟨horder.2.1.mpr (hkept ten hten one hone), horder.2.2.2 hkept⟩

/-- The sign word `-1` is unsigned, so `-1` comes after `1`. -/
theorem minus_one_after_one :
    ∃ t1 t2, tokenParse minusOne.text minusOne.text.strlen
        (tokenSize tokenInit 1 one_le_mag) = .ok t1 ∧
      tokenParse one.text one.text.strlen (tokenSize tokenInit 1 one_le_mag) = .ok t2 ∧
      minusOne.value < one.value ∧ tokenCmp t1 t2 = 1 :=
  ⟨_, _, parse_token minusOne, parse_token one, by decide, by decide +kernel⟩

end Decimal

end DynocClient
