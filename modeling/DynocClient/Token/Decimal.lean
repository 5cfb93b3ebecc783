import DynocClient.Token.Parse
import Mathlib.Tactic.Ring

/-!
# The tokens of decimal integers

`Decimal.token_parse_decimal` is the value of `token_parse` on a decimal integer of any length:
its sign word and the word that its groups are folded into. On the canonical numerals that stand
for ring tokens the word is the number (`token_parse_numeral`).
-/

namespace DynocClient

/-! ## Digits -/

/-- `'0' .. '9'`. -/
def IsDigit (byte : UInt8) : Prop := 48 ≤ byte ∧ byte ≤ 57

instance : DecidablePred IsDigit := fun _ => inferInstanceAs (Decidable (_ ∧ _))

/-- Read further digits after the number `value`. -/
def decimalFrom (value : Nat) (bytes : List UInt8) : Nat :=
  bytes.foldl (fun value byte => value * 10 + (byte.toNat - 48)) value

/-- A digit is appended to the value in front of it. -/
theorem decimal_from_cons (value : Nat) (byte : UInt8) (bytes : List UInt8) :
    decimalFrom value (byte :: bytes) =
      decimalFrom (value * 10 + (byte.toNat - 48)) bytes := by
  simp only [decimalFrom, List.foldl_cons]

/-- A numeral can be read in two parts. -/
theorem decimal_from_append (value : Nat) (front back : List UInt8) :
    decimalFrom value (front ++ back) = decimalFrom (decimalFrom value front) back := by
  simp only [decimalFrom, List.foldl_append]

/-- A numeral can be cut at any place. -/
theorem decimal_from_take_drop (value : Nat) (bytes : List UInt8) (n : Nat) :
    decimalFrom (decimalFrom value (bytes.take n)) (bytes.drop n) = decimalFrom value bytes := by
  rw [← decimal_from_append, List.take_append_drop]

/-- Digits read after a number multiply it by ten each. -/
theorem decimal_from_eq (value : Nat) (bytes : List UInt8) :
    decimalFrom value bytes = value * 10 ^ bytes.length + decimalFrom 0 bytes := by
  induction bytes generalizing value with
  | nil => simp [decimalFrom]
  | cons byte bytes ih =>
      rw [decimal_from_cons, decimal_from_cons, ih, ih (0 * 10 + _), List.length_cons]
      ring

/-- `n` digits have a value below `10 ^ n`. -/
theorem decimal_from_lt {bytes : List UInt8} (h : ∀ byte ∈ bytes, IsDigit byte) :
    decimalFrom 0 bytes < 10 ^ bytes.length := by
  induction bytes with
  | nil => simp [decimalFrom]
  | cons byte bytes ih =>
      have hrest := ih fun b hb => h b (List.mem_cons_of_mem _ hb)
      have hdigit : byte.toNat ≤ 57 := UInt8.le_iff_toNat_le.mp (h byte List.mem_cons_self).2
      rw [decimal_from_cons, decimal_from_eq, List.length_cons, pow_succ]
      have hle : (0 * 10 + (byte.toNat - 48)) * 10 ^ bytes.length ≤ 9 * 10 ^ bytes.length :=
        Nat.mul_le_mul_right _ (by omega)
      omega

/-- The test of `atoui`. -/
theorem not_digit_iff {byte : UInt8} : (byte < 48 ∨ byte > 57) ↔ ¬ IsDigit byte := by
  simp only [IsDigit, not_and_or, UInt8.not_le, gt_iff_lt]

/-- One step of `atoui` on a digit, in the ring of 32-bit words. -/
theorem digit_step (value : Nat) {byte : UInt8} (h : IsDigit byte) :
    UInt32.ofNat value * 10 + (byte - 48).toUInt32 =
      UInt32.ofNat (value * 10 + (byte.toNat - 48)) := by
  have hle : (48 : UInt8) ≤ byte := h.1
  have hsub : (byte - 48).toNat = byte.toNat - 48 := UInt8.toNat_sub_of_le _ _ hle
  have hword : (byte - 48).toUInt32 = UInt32.ofNat (byte.toNat - 48) := by
    rw [← hsub]
    exact UInt32.toNat_inj.mp (by simp)
  rw [hword, UInt32.ofNat_add, UInt32.ofNat_mul]
  rfl

/-- On a run of digits `atoui` computes the number they denote, modulo `2 ^ 32`. -/
theorem atoui_loop_digits {line : CString} {digits rest : List UInt8} {p : Nat}
    (hline : line.bytes.drop p = digits ++ rest) (hdigits : ∀ byte ∈ digits, IsDigit byte)
    (value : Nat) :
    atouiLoop line p digits.length (UInt32.ofNat value) =
      .ok (UInt32.ofNat (decimalFrom value digits)) := by
  induction digits generalizing p value with
  | nil => rfl
  | cons byte digits ih =>
      have hlt : p < line.bytes.length := by
        by_contra hge
        simp [List.drop_eq_nil_of_le (Nat.le_of_not_lt hge)] at hline
      rw [List.drop_eq_getElem_cons hlt, List.cons_append, List.cons.injEq] at hline
      obtain ⟨hbyte, hrest⟩ := hline
      have hdigit : IsDigit byte := hdigits byte List.mem_cons_self
      have hcond : ¬ (byte < 48 ∨ byte > 57) := by rwa [not_digit_iff, not_not]
      simp only [List.length_cons, atouiLoop, CString.read_of_lt hlt, hbyte, bind, Except.bind,
        if_neg hcond, digit_step value hdigit]
      rw [ih hrest (fun b hb => hdigits b (List.mem_cons_of_mem _ hb)), decimal_from_cons]

/-- If the digits end before the group does, `atoui` reads the terminator and returns 0. -/
theorem atoui_loop_short {line : CString} {digits : List UInt8} {p : Nat}
    (hline : line.bytes.drop p = digits) (hdigits : ∀ byte ∈ digits, IsDigit byte)
    (hp : p ≤ line.strlen) (value : UInt32) {n : Nat} (hshort : digits.length < n) :
    atouiLoop line p n value = .ok 0 := by
  induction digits generalizing p value n with
  | nil =>
      obtain ⟨n, rfl⟩ : ∃ k, n = k + 1 := ⟨n - 1, by simp at hshort; omega⟩
      have hend : p = line.strlen := Nat.le_antisymm hp (List.drop_eq_nil_iff.mp hline)
      rw [hend, atouiLoop, CString.read_terminator]
      rfl
  | cons byte digits ih =>
      obtain ⟨n, rfl⟩ : ∃ k, n = k + 1 := ⟨n - 1, by simp at hshort; omega⟩
      have hlt : p < line.bytes.length := by
        by_contra hge
        simp [List.drop_eq_nil_of_le (Nat.le_of_not_lt hge)] at hline
      rw [List.drop_eq_getElem_cons hlt, List.cons.injEq] at hline
      obtain ⟨hbyte, hrest⟩ := hline
      have hcond : ¬ (byte < 48 ∨ byte > 57) := by
        rw [not_digit_iff, not_not]
        exact hdigits byte List.mem_cons_self
      simp only [atouiLoop, CString.read_of_lt hlt, hbyte, bind, Except.bind, if_neg hcond]
      exact ih hrest (fun b hb => hdigits b (List.mem_cons_of_mem _ hb)) hlt _
        (by simp at hshort; omega)

/-- What `atoui` makes of the group at the front of the digits that are left: its number, or 0
if the group is not complete. -/
def groupWord (digits : List UInt8) : UInt32 :=
  if DIGITS_PER_INT ≤ digits.length then
    UInt32.ofNat (decimalFrom 0 (digits.take DIGITS_PER_INT))
  else 0

/-- The word of the numeral after the remaining digits. -/
def foldGroups (word : UInt32) (digits : List UInt8) : UInt32 :=
  if digits = [] then word
  else foldGroups (radixVal * word + groupWord digits) (digits.drop DIGITS_PER_INT)
termination_by digits.length
decreasing_by
  have hpos := List.length_pos_iff.mpr ‹digits ≠ []›
  simp only [List.length_drop, DIGITS_PER_INT]
  omega

/-- No more groups leave the word as it is. -/
theorem fold_groups_nil (word : UInt32) : foldGroups word [] = word := by
  rw [foldGroups, if_pos rfl]

/-- A complete group is folded in. -/
theorem fold_groups_group (word : UInt32) {digits : List UInt8}
    (hlong : DIGITS_PER_INT ≤ digits.length) :
    foldGroups word digits =
      foldGroups (radixVal * word + UInt32.ofNat (decimalFrom 0 (digits.take DIGITS_PER_INT)))
        (digits.drop DIGITS_PER_INT) := by
  have hne : digits ≠ [] := by
    rintro rfl
    exact absurd hlong (by decide)
  rw [foldGroups, if_neg hne, groupWord, if_pos hlong]

/-- An incomplete last group counts as zero, but the word is still multiplied. -/
theorem fold_groups_rest (word : UInt32) {digits : List UInt8} (hne : digits ≠ [])
    (hshort : ¬ DIGITS_PER_INT ≤ digits.length) : foldGroups word digits = radixVal * word := by
  have hend : digits.drop DIGITS_PER_INT = [] := List.drop_eq_nil_of_le (Nat.le_of_not_le hshort)
  rw [foldGroups, if_neg hne, groupWord, if_neg hshort, hend, fold_groups_nil, UInt32.add_zero]

/-- What the groups of some digits are folded by: none is left, a complete one comes first, or
there is only an incomplete one. -/
@[elab_as_elim]
theorem groups_induction {motive : List UInt8 → Prop} (nil : motive [])
    (group : ∀ digits, DIGITS_PER_INT ≤ digits.length → motive (digits.drop DIGITS_PER_INT) →
      motive digits)
    (rest : ∀ digits, digits ≠ [] → ¬ DIGITS_PER_INT ≤ digits.length → motive digits)
    (digits : List UInt8) : motive digits := by
  by_cases hnil : digits = []
  · exact hnil ▸ nil
  · by_cases hlong : DIGITS_PER_INT ≤ digits.length
    · exact group digits hlong (groups_induction nil group rest (digits.drop DIGITS_PER_INT))
    · exact rest digits hnil hlong
termination_by digits.length
decreasing_by
  have hpos := List.length_pos_iff.mpr hnil
  simp only [List.length_drop, DIGITS_PER_INT]
  omega

/-- The first group is never empty. -/
theorem first_group_len_pos (digits : UInt32) : 0 < firstGroupLen digits := by
  unfold firstGroupLen
  split
  · decide
  · exact Nat.pos_of_ne_zero ‹_›

/-- The first group has no more digits than were counted, unless none were. -/
theorem first_group_len_le (digits : UInt32) :
    firstGroupLen digits ≤ digits.toNat ∨ digits.toNat = 0 ∧ firstGroupLen digits = 10 := by
  unfold firstGroupLen DIGITS_PER_INT
  split
  · rcases Nat.eq_zero_or_pos digits.toNat with hzero | hpos
    · exact .inr ⟨hzero, rfl⟩
    · exact .inl (by omega)
  · exact .inl (Nat.mod_le _ _)

/-- `atoui` of a full group gives the value of its digits. -/
theorem atoui_group {line : CString} {digits : List UInt8} {p : Nat}
    (hline : line.bytes.drop p = digits) (hdigits : ∀ byte ∈ digits, IsDigit byte)
    (hp : p ≤ line.strlen) : atoui line p DIGITS_PER_INT = .ok (groupWord digits) := by
  rw [atoui, if_neg (by decide), groupWord]
  split
  · rename_i hlong
    have hsplit : line.bytes.drop p =
        digits.take DIGITS_PER_INT ++ digits.drop DIGITS_PER_INT := by
      rw [hline, List.take_append_drop]
    have hloop := atoui_loop_digits hsplit
      (fun byte hbyte => hdigits byte (List.mem_of_mem_take hbyte)) 0
    rwa [List.length_take, Nat.min_eq_left hlong] at hloop
  · rename_i hshort
    exact atoui_loop_short hline hdigits hp 0 (Nat.lt_of_not_le hshort)

/-- On digits the main loop of `token_parse` folds in group by group. -/
theorem parse_groups_digits {str : CString} {digits : List UInt8} {p : Nat}
    (hline : str.bytes.drop p = digits) (hdigits : ∀ byte ∈ digits, IsDigit byte)
    (buf : Vector UInt32 4) :
    parseGroups str p str.strlen 1 buf =
      .ok (buf.set 0 (foldGroups (buf.get ⟨0, mag_first⟩) digits) mag_first) := by
  rw [parseGroups, foldGroups]
  by_cases hlt : p < str.strlen
  · have hne : digits ≠ [] := by
      rw [← hline]
      exact fun h => absurd (List.drop_eq_nil_iff.mp h) (Nat.not_le.mpr hlt)
    have hrest : str.bytes.drop (p + DIGITS_PER_INT) = digits.drop DIGITS_PER_INT := by
      rw [← hline, List.drop_drop]
    have hloop := parse_groups_digits hrest
      (fun byte hbyte => hdigits byte (List.mem_of_mem_drop hbyte))
      (buf.set 0 (radixVal * buf.get ⟨0, mag_first⟩ + groupWord digits) mag_first)
    rw [if_pos hlt, if_neg hne]
    simp only [atoui_group hline hdigits hlt.le, add_next_word_one, bind, Except.bind, hloop,
      first_of_set, Vector.set_set]
  · have hnil : digits = [] := by
      rw [← hline]
      exact List.drop_eq_nil_iff.mpr (Nat.le_of_not_lt hlt)
    rw [if_neg hlt, if_pos hnil, set_of_first]
    rfl
termination_by str.strlen - p
decreasing_by simp only [DIGITS_PER_INT]; omega

/-! ## Decimal integers -/

/-- An optional `-` and then one or more digits. -/
structure Decimal where
  negative : Bool
  digits : List UInt8
  isDigit : ∀ byte ∈ digits, IsDigit byte
  nonempty : digits ≠ []

namespace Decimal

/-- No digit is the terminating byte. -/
theorem zero_not_digit {bytes : List UInt8} (h : ∀ byte ∈ bytes, IsDigit byte) : 0 ∉ bytes := by
  intro hmem
  have hge : (48 : UInt8) ≤ 0 := (h 0 hmem).1
  exact absurd hge (by decide)

/-- The integer as a string. -/
def text (decimal : Decimal) : CString where
  bytes := if decimal.negative then 45 :: decimal.digits else decimal.digits
  nonzero := by
    split
    · simpa using zero_not_digit decimal.isDigit
    · exact zero_not_digit decimal.isDigit

/-- The number that the digits denote. -/
def magnitude (decimal : Decimal) : Nat := decimalFrom 0 decimal.digits

/-- The integer that the string denotes. -/
def value (decimal : Decimal) : Int :=
  if decimal.negative then -decimal.magnitude else decimal.magnitude

/-- The length of the first group. -/
def headLen (decimal : Decimal) : Nat := firstGroupLen (UInt32.ofNat decimal.digits.length)

/-- The digits of the first group. -/
def head (decimal : Decimal) : List UInt8 := decimal.digits.take decimal.headLen

/-- The digits after the first group. -/
def rest (decimal : Decimal) : List UInt8 := decimal.digits.drop decimal.headLen

/-- The special case of `token_parse` for zero applies: the digits are counted as one, and the
first is a zero. -/
def ReadAsZero (decimal : Decimal) : Prop :=
  UInt32.ofNat decimal.digits.length = 1 ∧ decimal.digits.head? = some 48

instance : DecidablePred ReadAsZero := fun _ => inferInstanceAs (Decidable (_ ∧ _))

/-- The sign word of the integer's token. -/
def signWord (decimal : Decimal) : UInt32 :=
  if decimal.negative then 0xffffffff else if decimal.ReadAsZero then 0 else 1

/-- The magnitude word of the integer's token. -/
def word (decimal : Decimal) : UInt32 :=
  foldGroups (UInt32.ofNat (decimalFrom 0 decimal.head)) decimal.rest

variable (decimal : Decimal)

/-- A numeral has a digit. -/
theorem digits_pos : 1 ≤ decimal.digits.length := List.length_pos_iff.mpr decimal.nonempty

/-- Also where the count of the digits wraps, the first group is made of digits. -/
theorem head_len_le : decimal.headLen ≤ decimal.digits.length := by
  have hpos := decimal.digits_pos
  have hcount : (UInt32.ofNat decimal.digits.length).toNat = decimal.digits.length % 2 ^ 32 :=
    UInt32.toNat_ofNat'
  have hwrap : decimal.digits.length % 2 ^ 32 = 0 → 10 ≤ decimal.digits.length := by omega
  have hle : decimal.digits.length % 2 ^ 32 ≤ decimal.digits.length := Nat.mod_le _ _
  have hgroup := first_group_len_le (UInt32.ofNat decimal.digits.length)
  rw [hcount] at hgroup
  rcases hgroup with hgroup | ⟨hzero, hten⟩
  · exact hgroup.trans hle
  · exact hten.le.trans (hwrap hzero)

/-- The first group is as long as `set_int` makes it. -/
theorem head_length : decimal.head.length = decimal.headLen := by
  rw [head, List.length_take, Nat.min_eq_left decimal.head_len_le]

/-- The first group and the rest are the digits. -/
theorem head_append_rest : decimal.head ++ decimal.rest = decimal.digits :=
  List.take_append_drop _ _

/-- The first group is of digits. -/
theorem head_digits : ∀ byte ∈ decimal.head, IsDigit byte :=
  fun byte hbyte => decimal.isDigit byte (List.mem_of_mem_take hbyte)

/-- The rest is of digits. -/
theorem rest_digits : ∀ byte ∈ decimal.rest, IsDigit byte :=
  fun byte hbyte => decimal.isDigit byte (List.mem_of_mem_drop hbyte)

/-- The two parts of `token_parse` that read the magnitude, from the first digit on. -/
theorem parse_magnitude (str : CString) (p : Nat)
    (hline : str.bytes.drop p = decimal.digits) (buf : Vector UInt32 4) :
    atoui str p decimal.headLen = .ok (UInt32.ofNat (decimalFrom 0 decimal.head)) ∧
      parseGroups str (p + decimal.headLen) str.strlen 1
          (buf.set 0 (UInt32.ofNat (decimalFrom 0 decimal.head)) mag_first) =
        .ok (buf.set 0 decimal.word mag_first) := by
  constructor
  · have hpos : 0 < decimal.headLen := first_group_len_pos _
    have hloop := atoui_loop_digits (hline.trans decimal.head_append_rest.symm)
      decimal.head_digits 0
    rw [decimal.head_length] at hloop
    rw [atoui, if_neg (Nat.ne_of_gt hpos)]
    exact hloop
  · have hrest : str.bytes.drop (p + decimal.headLen) = decimal.rest := by
      rw [← List.drop_drop, hline]
      rfl
    rw [parse_groups_digits hrest decimal.rest_digits, first_of_set, Vector.set_set]
    rfl

/-- The token of a decimal integer of any length. -/
theorem token_parse_decimal (token : Token) :
    tokenParse decimal.text decimal.text.strlen token =
      .ok { token with
        signum := decimal.signWord
        mag := token.mag.set 0 decimal.word mag_first } := by
  cases hsign : decimal.negative with
  | true =>
      have hbytes : decimal.text.bytes = 45 :: decimal.digits := by simp [text, hsign]
      have hlen : decimal.text.strlen = decimal.digits.length + 1 := by
        simp [CString.strlen, hbytes]
      have hread : decimal.text.read 0 = .ok 45 := by
        rw [CString.read_of_lt (by simp [hbytes])]
        simp [hbytes]
      have hcount : UInt32.ofNat decimal.text.strlen - 1 =
          UInt32.ofNat decimal.digits.length := by
        rw [hlen, UInt32.ofNat_add]
        exact UInt32.add_sub_cancel _ _
      obtain ⟨hhead, hrest⟩ := decimal.parse_magnitude decimal.text 1 (by rw [hbytes]; rfl)
        token.mag
      rw [headLen] at hhead hrest
      simp only [tokenParse, hread, hcount, if_true, bind, Except.bind, hhead, Nat.sub_self,
        write_word_zero, hrest, pure, Except.pure, signWord, hsign]
  | false =>
      have hbytes : decimal.text.bytes = decimal.digits := by simp [text, hsign]
      have hlen : decimal.text.strlen = decimal.digits.length := by
        simp [CString.strlen, hbytes]
      obtain ⟨byte, bytes, hcons⟩ := List.exists_cons_of_ne_nil decimal.nonempty
      have hread : decimal.text.read 0 = .ok byte := by
        rw [CString.read_of_lt (by rw [hbytes]; exact decimal.digits_pos)]
        simp [hbytes, hcons]
      have hsub : byte ≠ 45 := by
        rintro rfl
        exact absurd (decimal.isDigit 45 (by simp [hcons])).1 (by decide)
      have hzero : (UInt32.ofNat decimal.digits.length = 1 ∧ byte = 48) ↔ decimal.ReadAsZero := by
        simp [ReadAsZero, hcons]
      obtain ⟨hhead, hrest⟩ := decimal.parse_magnitude decimal.text 0 hbytes token.mag
      rw [headLen] at hhead hrest
      simp only [tokenParse, hread, bind, Except.bind, if_neg hsub, hlen, hzero, signWord, hsign]
      rw [hlen] at hrest
      by_cases hword : decimal.ReadAsZero
      · simp only [hword, if_true, hhead, Nat.sub_self, write_word_zero, hrest, pure,
          Except.pure, Bool.false_eq_true, if_false]
      · simp only [hword, hhead, Nat.sub_self, write_word_zero, hrest, pure, Except.pure,
          Bool.false_eq_true, if_false]

/-- Up to ten digits make one group. -/
theorem word_of_short (h : decimal.digits.length ≤ 10) :
    decimal.word = UInt32.ofNat decimal.magnitude := by
  have hpos := decimal.digits_pos
  have hcount : (UInt32.ofNat decimal.digits.length).toNat = decimal.digits.length :=
    UInt32.toNat_ofNat_of_lt' (Nat.lt_of_le_of_lt h (by decide))
  have hlen : decimal.headLen = decimal.digits.length := by
    simp only [headLen, firstGroupLen, hcount, DIGITS_PER_INT]
    split <;> omega
  have hhead : decimal.head = decimal.digits := List.take_of_length_le hlen.ge
  have hrest : decimal.rest = [] := List.drop_eq_nil_of_le hlen.ge
  rw [word, hhead, hrest, fold_groups_nil]
  rfl

end Decimal

/-! ## Canonical numerals -/

/-- `s` is the decimal numeral of `value`, without a sign and without leading zeros. -/
structure CString.IsNumeral (s : CString) (value : Nat) : Prop where
  digits : ∀ byte ∈ s.bytes, IsDigit byte
  nonempty : s.bytes ≠ []
  canonical : s.bytes.head? = some 48 → s.strlen = 1
  value_eq : decimalFrom 0 s.bytes = value

namespace CString.IsNumeral

variable {s : CString} {value : Nat}

/-- A numeral that does not start with the digit zero is not small. -/
theorem le_value (h : s.IsNumeral value) (hhead : s.bytes.head? ≠ some 48) :
    10 ^ (s.strlen - 1) ≤ value := by
  obtain ⟨hdigits, hnonempty, -, rfl⟩ := h
  obtain ⟨byte, bytes, hbytes⟩ := List.exists_cons_of_ne_nil hnonempty
  have hdigit : IsDigit byte := hdigits byte (by simp [hbytes])
  have hne : byte ≠ 48 := fun heq => hhead (by simp [hbytes, heq])
  have hpos : 1 ≤ byte.toNat - 48 := by
    have h1 : (48 : UInt8).toNat ≤ byte.toNat := UInt8.le_iff_toNat_le.mp hdigit.1
    have h2 : byte.toNat ≠ (48 : UInt8).toNat := fun heq => hne (UInt8.toNat_inj.mp heq)
    have h3 : (48 : UInt8).toNat = 48 := rfl
    omega
  have hlen : s.strlen - 1 = bytes.length := by simp [strlen, hbytes]
  rw [hlen, hbytes, decimal_from_cons]
  calc 10 ^ bytes.length
      ≤ (0 * 10 + (byte.toNat - 48)) * 10 ^ bytes.length :=
        Nat.le_mul_of_pos_left _ (by omega)
    _ ≤ decimalFrom (0 * 10 + (byte.toNat - 48)) bytes := by
        rw [decimal_from_eq]
        exact Nat.le_add_right _ _

/-- A numeral below `2 ^ 32` has at most the ten digits of one group. -/
theorem strlen_le (h : s.IsNumeral value) (hvalue : value < 2 ^ 32) : s.strlen ≤ 10 := by
  by_cases hhead : s.bytes.head? = some 48
  · rw [h.canonical hhead]
    omega
  · by_contra hlong
    have hpow : 10 ^ 10 ≤ 10 ^ (s.strlen - 1) := Nat.pow_le_pow_right (by omega) (by omega)
    have hle := h.le_value hhead
    omega

/-- The special case of `token_parse` for zero applies to the numeral of zero and to no other. -/
theorem zero_iff (h : s.IsNumeral value) :
    (s.strlen = 1 ∧ s.bytes.head? = some 48) ↔ value = 0 := by
  constructor
  · intro hcase
    obtain ⟨hlen, hhead⟩ := hcase
    obtain ⟨byte, bytes, hbytes⟩ := List.exists_cons_of_ne_nil h.nonempty
    have hnil : bytes = [] := by simpa [strlen, hbytes] using hlen
    have hbyte : byte = 48 := by simpa [hbytes] using hhead
    rw [← h.value_eq, hbytes, hnil, hbyte]
    rfl
  · rintro rfl
    by_cases hhead : s.bytes.head? = some 48
    · exact ⟨h.canonical hhead, hhead⟩
    · have hle := h.le_value hhead
      exact absurd hle (by simp)

/-- The numeral as a decimal integer. -/
def decimal (h : s.IsNumeral value) : Decimal := ⟨false, s.bytes, h.digits, h.nonempty⟩

/-- The decimal of a numeral is written as the numeral. -/
theorem decimal_text (h : s.IsNumeral value) : h.decimal.text = s := rfl

end CString.IsNumeral

/-- The token of a canonical numeral below `2 ^ 32`: its value is exact and its sign word is 0
for zero and 1 otherwise. -/
theorem token_parse_numeral {str : CString} {value : Nat} (h : str.IsNumeral value)
    (hvalue : value < 2 ^ 32) (token : Token) :
    tokenParse str str.strlen token =
      .ok { token with
        signum := if value = 0 then 0 else 1
        mag := token.mag.set 0 (UInt32.ofNat value) mag_first } := by
  have hshort : str.strlen ≤ 10 := h.strlen_le hvalue
  have hcount : UInt32.ofNat str.strlen = 1 ↔ str.strlen = 1 := by
    rw [← UInt32.toNat_inj, UInt32.toNat_ofNat_of_lt' (Nat.lt_of_le_of_lt hshort (by decide))]
    rfl
  have hzero : h.decimal.ReadAsZero ↔ value = 0 := by
    rw [← h.zero_iff, ← hcount]
    rfl
  have hsign : h.decimal.signWord = if value = 0 then 0 else 1 := by
    have hnegative : h.decimal.negative = false := rfl
    simp only [Decimal.signWord, hnegative, Bool.false_eq_true, if_false, hzero]
  have hword : h.decimal.word = UInt32.ofNat value := by
    have hmagnitude : h.decimal.magnitude = value := h.value_eq
    rw [h.decimal.word_of_short hshort, hmagnitude]
  have hparse := h.decimal.token_parse_decimal token
  rwa [h.decimal_text, hsign, hword] at hparse

end DynocClient
