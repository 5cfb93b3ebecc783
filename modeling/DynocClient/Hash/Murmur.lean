import DynocClient.Hash.Basic
import DynocClient.Lib.Memory
import DynocClient.Lib.Mixing
import DynocClient.Token.Order

/-!
# `hash_murmur`

The function of `hash-murmur.c`, the default hash. Each of its steps loses nothing, so keys that
differ in one block, or in what is left after the blocks, get different values
(`hash_murmur_separates`).
-/

namespace DynocClient

open Lib

/-- The order in which a machine keeps the bytes of a word. -/
inductive ByteOrder where
  | little
  | big
  deriving DecidableEq, Repr

/-- The word that a load of these bytes gives. -/
def ByteOrder.word : ByteOrder → List UInt8 → UInt32
  | .little, bytes => littleWord bytes
  | .big, bytes => littleWord bytes.reverse

/-! ## The function -/

/-- `m`. -/
def murmurM : UInt32 := 0x5bd1e995

/-- `r`. -/
def murmurR : UInt32 := 24

/-- What the main loop does to `k`. -/
def murmurWord (k : UInt32) : UInt32 :=
  let k := k * murmurM
  let k := k ^^^ k >>> murmurR
  k * murmurM

/-- The body of the main loop. -/
def murmurBlock (h k : UInt32) : UInt32 := h * murmurM ^^^ murmurWord k

/-- `case 1` of the switch. -/
def murmurCase1 (h : UInt32) (d0 : UInt8) : UInt32 := (h ^^^ d0.toUInt32) * murmurM

/-- `case 2`, which falls through. -/
def murmurCase2 (h : UInt32) (d0 d1 : UInt8) : UInt32 :=
  murmurCase1 (h ^^^ d1.toUInt32 <<< 8) d0

/-- `case 3`, which falls through. -/
def murmurCase3 (h : UInt32) (d0 d1 d2 : UInt8) : UInt32 :=
  murmurCase2 (h ^^^ d2.toUInt32 <<< 16) d0 d1

/-- The main loop over the blocks of four bytes, and the switch over what is left. -/
def murmurLoop (order : ByteOrder) : UInt32 → List UInt8 → UInt32
  | h, d0 :: d1 :: d2 :: d3 :: data =>
      murmurLoop order (murmurBlock h (order.word [d0, d1, d2, d3])) data
  | h, [d0, d1, d2] => murmurCase3 h d0 d1 d2
  | h, [d0, d1] => murmurCase2 h d0 d1
  | h, [d0] => murmurCase1 h d0
  | h, [] => h

/-- The final mixes. -/
def murmurFinal (h : UInt32) : UInt32 :=
  let h := h ^^^ h >>> 13
  let h := h * murmurM
  h ^^^ h >>> 15

/-- `h` before the main loop. -/
def murmurInit (length : Nat) : UInt32 :=
  let seed : UInt32 := 0xdeadbeef * UInt32.ofNat length
  seed ^^^ UInt32.ofNat length

/-- `hash_murmur`. -/
def hashMurmur (order : ByteOrder) : HashFunc := fun key =>
  murmurFinal (murmurLoop order (murmurInit key.length) key)

/-! ## No step loses anything -/

/-- The multiplier of `hash_murmur` is odd, so multiplication by it loses nothing. -/
theorem mul_murmur_m_injective : Function.Injective fun x : UInt32 => x * murmurM :=
  uint32_mul_odd_injective rfl

/-- The mixing of a word loses nothing. -/
theorem murmur_word_injective : Function.Injective murmurWord := by
  intro k k' h
  have hmixed := mul_murmur_m_injective h
  have hscaled := uint32_xor_shift_right_injective (k := murmurR) (by decide) hmixed
  exact mul_murmur_m_injective hscaled

/-- The final mixing loses nothing. -/
theorem murmur_final_injective : Function.Injective murmurFinal := by
  intro h h' heq
  have hlast := uint32_xor_shift_right_injective (k := 15) (by decide) heq
  have hscaled := mul_murmur_m_injective hlast
  exact uint32_xor_shift_right_injective (k := 13) (by decide) hscaled

/-- A block keeps different states different. -/
theorem murmur_block_state_injective (k : UInt32) :
    Function.Injective fun h => murmurBlock h k := by
  intro h h' heq
  exact mul_murmur_m_injective ((UInt32.xor_left_inj (murmurWord k)).mp heq)

/-- From one state different words lead to different states. -/
theorem murmur_block_word_injective (h : UInt32) : Function.Injective (murmurBlock h) := by
  intro k k' heq
  exact murmur_word_injective ((UInt32.xor_right_inj (h * murmurM)).mp heq)

/-- In either byte order equally many bytes, at most four, are determined by their word. -/
theorem byte_order_word_inj (order : ByteOrder) {bytes bytes' : List UInt8}
    (hlength : bytes.length = bytes'.length) (hle : bytes.length ≤ 4)
    (h : order.word bytes = order.word bytes') : bytes = bytes' := by
  cases order with
  | little => exact little_word_inj hlength hle h
  | big =>
      have hreverse : bytes.reverse = bytes'.reverse :=
        little_word_inj (by simpa using hlength) (by simpa using hle) h
      exact List.reverse_inj.mp hreverse

/-- The blocks and the cases of the switch keep the states apart. -/
theorem murmur_loop_injective (order : ByteOrder) (data : List UInt8) :
    Function.Injective fun h => murmurLoop order h data := by
  intro h h' heq
  induction h, data using murmurLoop.induct order generalizing h' with
  | case1 h d0 d1 d2 d3 data ih => exact murmur_block_state_injective _ (ih heq)
  | case2 h d0 d1 d2 =>
      have hcase : h ^^^ d2.toUInt32 <<< 16 ^^^ d1.toUInt32 <<< 8 ^^^ d0.toUInt32 =
          h' ^^^ d2.toUInt32 <<< 16 ^^^ d1.toUInt32 <<< 8 ^^^ d0.toUInt32 :=
        mul_murmur_m_injective heq
      rwa [UInt32.xor_left_inj, UInt32.xor_left_inj, UInt32.xor_left_inj] at hcase
  | case3 h d0 d1 =>
      have hcase : h ^^^ d1.toUInt32 <<< 8 ^^^ d0.toUInt32 =
          h' ^^^ d1.toUInt32 <<< 8 ^^^ d0.toUInt32 := mul_murmur_m_injective heq
      rwa [UInt32.xor_left_inj, UInt32.xor_left_inj] at hcase
  | case4 h d0 =>
      have hcase : h ^^^ d0.toUInt32 = h' ^^^ d0.toUInt32 := mul_murmur_m_injective heq
      rwa [UInt32.xor_left_inj] at hcase
  | case5 h => exact heq

/-! ## Keys that differ in one place -/

/-- Whole blocks in front lead to a state of their own. -/
theorem murmur_loop_front (order : ByteOrder) (blocks : Nat) (h : UInt32) (front : List UInt8)
    (hfront : front.length = 4 * blocks) :
    ∃ h', ∀ data, murmurLoop order h (front ++ data) = murmurLoop order h' data := by
  induction blocks generalizing h front with
  | zero =>
      obtain rfl : front = [] := List.length_eq_zero_iff.mp hfront
      exact ⟨h, fun data => rfl⟩
  | succ blocks ih =>
      match front, hfront with
      | d0 :: d1 :: d2 :: d3 :: front, hfront =>
          have hrest : front.length = 4 * blocks := by
            simp only [List.length_cons] at hfront
            omega
          exact ih (murmurBlock h (order.word [d0, d1, d2, d3])) front hrest

/-- Keys that differ in the first block only hash differently. -/
theorem murmur_loop_block_inj (order : ByteOrder) (h : UInt32) {block block' data : List UInt8}
    (hblock : block.length = 4) (hblock' : block'.length = 4)
    (heq : murmurLoop order h (block ++ data) = murmurLoop order h (block' ++ data)) :
    block = block' := by
  match block, block', hblock, hblock' with
  | [d0, d1, d2, d3], [e0, e1, e2, e3], hblock, hblock' =>
      have hstate : murmurBlock h (order.word [d0, d1, d2, d3]) =
          murmurBlock h (order.word [e0, e1, e2, e3]) :=
        murmur_loop_injective order data heq
      have hword := murmur_block_word_injective h hstate
      exact byte_order_word_inj order rfl (Nat.le_refl 4) hword

/-- The byte at a place of the tail is read off the word it was put into. -/
theorem tail_byte_place (d : UInt8) :
    (d.toUInt32 <<< 8).toUInt8 = 0 ∧ (d.toUInt32 <<< 8 >>> 8).toUInt8 = d ∧
      (d.toUInt32 <<< 16).toUInt8 = 0 ∧ (d.toUInt32 <<< 16 >>> 8).toUInt8 = 0 ∧
      (d.toUInt32 <<< 16 >>> 16).toUInt8 = d :=
  forall_byte (P := fun d => (d.toUInt32 <<< 8).toUInt8 = 0 ∧
      (d.toUInt32 <<< 8 >>> 8).toUInt8 = d ∧ (d.toUInt32 <<< 16).toUInt8 = 0 ∧
      (d.toUInt32 <<< 16 >>> 8).toUInt8 = 0 ∧ (d.toUInt32 <<< 16 >>> 16).toUInt8 = d)
    (by decide +kernel) d

/-- The lowest byte goes in where the states agree. -/
theorem murmur_case1_inj {h h' : UInt32} {d0 e0 : UInt8} (hlow : h.toUInt8 = h'.toUInt8)
    (heq : murmurCase1 h d0 = murmurCase1 h' e0) : d0 = e0 ∧ h = h' := by
  have hxor : h ^^^ d0.toUInt32 = h' ^^^ e0.toUInt32 := mul_murmur_m_injective heq
  have hbyte := congrArg UInt32.toUInt8 hxor
  rw [UInt32.toUInt8_xor, UInt32.toUInt8_xor, hlow, UInt8.xor_right_inj,
    UInt8.toUInt8_toUInt32, UInt8.toUInt8_toUInt32] at hbyte
  subst hbyte
  exact ⟨rfl, (UInt32.xor_left_inj _).mp hxor⟩

/-- Two last bytes are determined by the state they leave, if the low bits of the state before
are known. -/
theorem murmur_case2_inj {h h' : UInt32} {d0 d1 e0 e1 : UInt8} (hlow : h.toUInt8 = h'.toUInt8)
    (hmiddle : (h >>> 8).toUInt8 = (h' >>> 8).toUInt8)
    (heq : murmurCase2 h d0 d1 = murmurCase2 h' e0 e1) : d0 = e0 ∧ d1 = e1 ∧ h = h' := by
  have hstill : (h ^^^ d1.toUInt32 <<< 8).toUInt8 = (h' ^^^ e1.toUInt32 <<< 8).toUInt8 := by
    simp only [UInt32.toUInt8_xor, tail_byte_place, hlow]
  obtain ⟨h0, hxor⟩ := murmur_case1_inj hstill heq
  have hbyte := congrArg (fun x : UInt32 => (x >>> 8).toUInt8) hxor
  simp only [UInt32.shiftRight_xor, UInt32.toUInt8_xor, tail_byte_place, hmiddle,
    UInt8.xor_right_inj] at hbyte
  subst hbyte
  exact ⟨h0, rfl, (UInt32.xor_left_inj _).mp hxor⟩

/-- Three last bytes are determined by the state they leave. -/
theorem murmur_case3_inj {h : UInt32} {d0 d1 d2 e0 e1 e2 : UInt8}
    (heq : murmurCase3 h d0 d1 d2 = murmurCase3 h e0 e1 e2) : d0 = e0 ∧ d1 = e1 ∧ d2 = e2 := by
  have hlow : (h ^^^ d2.toUInt32 <<< 16).toUInt8 = (h ^^^ e2.toUInt32 <<< 16).toUInt8 := by
    simp only [UInt32.toUInt8_xor, tail_byte_place]
  have hmiddle : ((h ^^^ d2.toUInt32 <<< 16) >>> 8).toUInt8 =
      ((h ^^^ e2.toUInt32 <<< 16) >>> 8).toUInt8 := by
    simp only [UInt32.shiftRight_xor, UInt32.toUInt8_xor, tail_byte_place]
  obtain ⟨h0, h1, hxor⟩ := murmur_case2_inj hlow hmiddle heq
  have hplace := congrArg (fun x : UInt32 => (x >>> 16).toUInt8) ((UInt32.xor_right_inj h).mp hxor)
  simp only [tail_byte_place] at hplace
  exact ⟨h0, h1, hplace⟩

/-- Keys that differ in their tail only hash differently. -/
theorem murmur_loop_tail_inj (order : ByteOrder) (h : UInt32) {tail tail' : List UInt8}
    (hlength : tail.length = tail'.length) (hshort : tail.length < 4)
    (heq : murmurLoop order h tail = murmurLoop order h tail') : tail = tail' := by
  match tail, tail', hlength, hshort with
  | [], [], _, _ => rfl
  | [d0], [e0], _, _ =>
      obtain ⟨h0, -⟩ : d0 = e0 ∧ h = h := murmur_case1_inj rfl heq
      rw [h0]
  | [d0, d1], [e0, e1], _, _ =>
      obtain ⟨h0, h1, -⟩ : d0 = e0 ∧ d1 = e1 ∧ h = h := murmur_case2_inj rfl rfl heq
      rw [h0, h1]
  | [d0, d1, d2], [e0, e1, e2], _, _ =>
      obtain ⟨h0, h1, h2⟩ : d0 = e0 ∧ d1 = e1 ∧ d2 = e2 := murmur_case3_inj heq
      rw [h0, h1, h2]

/-- Two keys of one length that differ inside one block, or inside the tail only. -/
def DifferInOneBlock (key other : List UInt8) : Prop :=
  (∃ offset, 4 ∣ offset ∧ offset + 4 ≤ key.length ∧
      DifferOnlyIn key other offset (offset + 4)) ∨
    DifferOnlyIn key other (key.length - key.length % 4) key.length

/-- Keys of one length that differ in one block or in the tail leave different states. -/
theorem murmur_loop_separates (order : ByteOrder) (h : UInt32) {key other : List UInt8}
    (hdiffer : DifferInOneBlock key other) :
    murmurLoop order h key ≠ murmurLoop order h other := by
  intro heq
  rcases hdiffer with ⟨offset, ⟨blocks, rfl⟩, hle, hdiffer⟩ | hdiffer
  · obtain ⟨front, mid, mid', back, rfl, rfl, hfront, hmid, hlength, hne⟩ :=
      hdiffer.split (Nat.le_add_right _ 4)
    have hfrontLength : front.length = 4 * blocks := by
      rw [hfront, List.length_take]
      omega
    have hmidLength : mid.length = 4 := by
      rw [hmid, List.length_take, List.length_drop]
      omega
    obtain ⟨h', hloop⟩ := murmur_loop_front order blocks h front hfrontLength
    rw [hloop, hloop] at heq
    exact hne (murmur_loop_block_inj order h' hmidLength (hlength ▸ hmidLength) heq)
  · obtain ⟨front, mid, mid', back, hkey, hother, hfront, hmid, hlength, hne⟩ :=
      hdiffer.split (Nat.sub_le _ _)
    have hfrontLength : front.length = 4 * (key.length / 4) := by
      rw [hfront, List.length_take]
      omega
    have hmidLength : mid.length = key.length % 4 := by
      rw [hmid, List.length_take, List.length_drop]
      omega
    have hback : back = [] := by
      have htotal := congrArg List.length hkey
      rw [List.length_append, List.length_append] at htotal
      exact List.length_eq_zero_iff.mp (by omega)
    obtain ⟨h', hloop⟩ := murmur_loop_front order _ h front hfrontLength
    rw [hkey, hother, hback, hloop, hloop, List.append_nil, List.append_nil] at heq
    have hshort : mid.length < 4 := by omega
    exact hne (murmur_loop_tail_inj order h' hlength hshort heq)

/-- Keys that differ inside one block, or inside the tail, have different hashes and different
tokens. -/
theorem hash_murmur_separates (order : ByteOrder) (token token' : Token)
    (key other : List UInt8) (hdiffer : DifferInOneBlock key other) :
    hashMurmur order key ≠ hashMurmur order other ∧
      tokenCmp (tokenSetInt token (hashMurmur order key))
        (tokenSetInt token' (hashMurmur order other)) ≠ 0 := by
  have hlength : key.length = other.length := by
    rcases hdiffer with ⟨_, _, _, hdiffer⟩ | hdiffer
    · exact hdiffer.length_eq
    · exact hdiffer.length_eq
  have hne : hashMurmur order key ≠ hashMurmur order other := by
    intro heq
    have hloop := murmur_final_injective heq
    rw [hlength] at hloop
    exact murmur_loop_separates order _ hdiffer hloop
  exact ⟨hne, token_set_int_cmp_ne token token' hne⟩

/-- Keys of six bytes that differ in two of the first four. -/
theorem hash_murmur_separates_block :
    DifferInOneBlock [0x61, 0x80, 0x62, 0xff, 0x31, 0x32] [0x61, 0x81, 0x63, 0xff, 0x31, 0x32] ∧
      hashMurmur .little [0x61, 0x80, 0x62, 0xff, 0x31, 0x32] ≠
        hashMurmur .little [0x61, 0x81, 0x63, 0xff, 0x31, 0x32] := by
  have hblock : ([0x61, 0x80, 0x62, 0xff] : List UInt8) ≠ [0x61, 0x81, 0x63, 0xff] := by decide
  have hblocks := DifferOnlyIn.append [] [0x31, 0x32] (by rfl) hblock
  have hdiffer : DifferInOneBlock [0x61, 0x80, 0x62, 0xff, 0x31, 0x32]
      [0x61, 0x81, 0x63, 0xff, 0x31, 0x32] := .inl ⟨0, Nat.dvd_zero 4, by simp, hblocks⟩
  exact ⟨hdiffer, (hash_murmur_separates .little tokenInit tokenInit _ _ hdiffer).1⟩

end DynocClient
