import DynocClient.Token.Basic

/-!
# The frame of `token_parse`

On any string `token_parse` stops, stays within the terminator and writes nothing but `signum`
and the first magnitude word (`token_parse_total`).
-/

namespace DynocClient

/-- The first word can be read. -/
@[simp] theorem read_word_zero (buf : Vector UInt32 4) :
    readWord buf 0 = .ok (buf.get ⟨0, mag_first⟩) := rfl

/-- The first word can be written. -/
@[simp] theorem write_word_zero (buf : Vector UInt32 4) (word : UInt32) :
    writeWord buf 0 word = .ok (buf.set 0 word mag_first) := rfl

/-- A first word that is written is read back. -/
theorem first_of_set (buf : Vector UInt32 4) (word : UInt32) :
    (buf.set 0 word mag_first).get ⟨0, mag_first⟩ = word :=
  Vector.getElem_set_self mag_first

/-- Writing back the first word changes nothing. -/
theorem set_of_first (buf : Vector UInt32 4) :
    buf.set 0 (buf.get ⟨0, mag_first⟩) mag_first = buf :=
  Vector.set_getElem_self mag_first

/-- With one word the carry loop of `add_next_word` does not run. -/
theorem add_next_word_one (buf : Vector UInt32 4) (nextInt : UInt32) :
    addNextWord buf 1 nextInt =
      .ok (buf.set 0 (radixVal * buf.get ⟨0, mag_first⟩ + nextInt) mag_first) := by
  have hword : ((radixVal * buf.get ⟨0, mag_first⟩).toUInt64 + 0).toUInt32 =
      radixVal * buf.get ⟨0, mag_first⟩ := by
    rw [UInt64.add_zero, UInt32.toUInt32_toUInt64]
  have hsum (a : UInt32) : a.toUInt64.toUInt32 = a := UInt32.toUInt32_toUInt64 a
  simp only [addNextWord, multiplyWords, read_word_zero, write_word_zero, bind, Except.bind, pure,
    Except.pure, hword, hsum, Nat.sub_self, first_of_set, Vector.set_set]
  rfl

/-- `atoui` stops at the terminator at the latest. -/
theorem atoui_loop_total (line : CString) (n p : Nat) (value : UInt32) (hp : p ≤ line.strlen) :
    ∃ result, atouiLoop line p n value = .ok result := by
  induction n generalizing p value with
  | zero => exact ⟨value, rfl⟩
  | succ n ih =>
      rcases Nat.lt_or_eq_of_le hp with hlt | rfl
      · simp only [atouiLoop, CString.read_of_lt hlt, bind, Except.bind]
        split
        · exact ⟨0, rfl⟩
        · exact ih (p + 1) _ hlt
      · exact ⟨0, by simp [atouiLoop, CString.read_terminator, bind, Except.bind, pure,
          Except.pure]⟩

/-- `atoui` of a position in the string does not fail. -/
theorem atoui_total (line : CString) (p n : Nat) (hp : p ≤ line.strlen) :
    ∃ result, atoui line p n = .ok result := by
  unfold atoui
  split
  · exact ⟨0, rfl⟩
  · exact atoui_loop_total line n p 0 hp

/-- The main loop of `token_parse` changes no word but the first. -/
theorem parse_groups_total (str : CString) (p : Nat) (buf : Vector UInt32 4) :
    ∃ word, parseGroups str p str.strlen 1 buf = .ok (buf.set 0 word mag_first) := by
  rw [parseGroups]
  split
  · rename_i hlt
    obtain ⟨localInt, hlocal⟩ := atoui_total str p DIGITS_PER_INT (Nat.le_of_lt hlt)
    obtain ⟨word, hword⟩ := parse_groups_total str (p + DIGITS_PER_INT)
      (buf.set 0 (radixVal * buf.get ⟨0, mag_first⟩ + localInt) mag_first)
    refine ⟨word, ?_⟩
    simp only [hlocal, add_next_word_one, bind, Except.bind, hword]
    simp
  · exact ⟨buf.get ⟨0, mag_first⟩, by simp only [set_of_first, pure, Except.pure]⟩
termination_by str.strlen - p
decreasing_by simp only [DIGITS_PER_INT]; omega

/-- On every string `token_parse` returns, reads no byte after the terminator and writes only
`signum` and `mag[0]`. -/
theorem token_parse_total (str : CString) (token : Token) :
    ∃ signum word, tokenParse str str.strlen token =
      .ok { token with signum, mag := token.mag.set 0 word mag_first } := by
  have hfirst : ∃ first, str.read 0 = .ok first ∧ (first = 45 → 1 ≤ str.strlen) := by
    rcases Nat.eq_zero_or_pos str.strlen with hzero | hpos
    · exact ⟨0, by rw [← hzero, CString.read_terminator], by simp⟩
    · exact ⟨str.bytes[0], CString.read_of_lt hpos, fun _ => hpos⟩
  obtain ⟨first, hread, hsign⟩ := hfirst
  obtain ⟨signum, p, digits, hchoice, hp⟩ : ∃ (signum : UInt32) (p : Nat) (digits : UInt32),
      (if first = 45 then ((0xffffffff, 1, UInt32.ofNat str.strlen - 1) : UInt32 × Nat × UInt32)
        else if UInt32.ofNat str.strlen = 1 ∧ first = 48 then (0, 0, UInt32.ofNat str.strlen)
        else (1, 0, UInt32.ofNat str.strlen)) = (signum, p, digits) ∧ p ≤ str.strlen := by
    split
    · exact ⟨_, _, _, rfl, hsign ‹_›⟩
    · split <;> exact ⟨_, _, _, rfl, Nat.zero_le _⟩
  obtain ⟨word, hword⟩ := atoui_total str p (firstGroupLen digits) hp
  obtain ⟨last, hlast⟩ := parse_groups_total str (p + firstGroupLen digits)
    (token.mag.set 0 word mag_first)
  refine ⟨signum, last, ?_⟩
  simp only [tokenParse, hread, hchoice, bind, Except.bind, hword, Nat.sub_self, write_word_zero,
    hlast, pure, Except.pure]
  simp

end DynocClient
