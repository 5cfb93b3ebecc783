import Mathlib.Algebra.Ring.Nat
import Mathlib.Tactic.Common
import Mathlib.Tactic.IntervalCases
import Mathlib.Tactic.Ring

/-!
# Little-endian words of a byte memory

A load of several bytes stands for the number that has them as its digits in base 256, the byte
at the lowest address first. `little_word_mask` says that a mask cuts a loaded word down to its
first bytes, and `little_word_add` that a word may be put together from shorter ones.
-/

namespace DynocClient.Lib

/-! ## Bytes as a number -/

/-- The number with these base-256 digits, the lowest first. -/
def littleNat : List UInt8 → Nat
  | [] => 0
  | byte :: bytes => byte.toNat + 256 * littleNat bytes

/-- The bytes that follow count from the power of 256 where the first ones end. -/
theorem little_nat_append (bytes rest : List UInt8) :
    littleNat (bytes ++ rest) = littleNat bytes + 256 ^ bytes.length * littleNat rest := by
  induction bytes with
  | nil => simp [littleNat]
  | cons byte bytes ih =>
      simp only [List.cons_append, littleNat, List.length_cons, ih]
      ring

/-- The value of `n` bytes is below `256 ^ n`. -/
theorem little_nat_lt (bytes : List UInt8) : littleNat bytes < 256 ^ bytes.length := by
  induction bytes with
  | nil => simp [littleNat]
  | cons byte bytes ih =>
      have hbyte : byte.toNat < 256 := byte.toNat_lt
      simp only [littleNat, List.length_cons, Nat.pow_succ]
      omega

/-- The 32-bit word of at most four bytes. -/
def littleWord (bytes : List UInt8) : UInt32 := UInt32.ofNat (littleNat bytes)

/-- No bytes make the word 0. -/
@[simp] theorem little_word_nil : littleWord [] = 0 := rfl

/-- Up to four bytes fit in a word. -/
theorem little_word_to_nat {bytes : List UInt8} (h : bytes.length ≤ 4) :
    (littleWord bytes).toNat = littleNat bytes := by
  have hlt := little_nat_lt bytes
  have hpow : 256 ^ bytes.length ≤ 256 ^ 4 := Nat.pow_le_pow_right (by omega) h
  rw [littleWord, UInt32.toNat_ofNat']
  exact Nat.mod_eq_of_lt (Nat.lt_of_lt_of_le hlt hpow)

/-- As many digits give the number back. -/
theorem little_nat_inj {bytes bytes' : List UInt8} (hlength : bytes.length = bytes'.length)
    (h : littleNat bytes = littleNat bytes') : bytes = bytes' := by
  induction bytes generalizing bytes' with
  | nil => exact (List.length_eq_zero_iff.mp hlength.symm).symm
  | cons byte bytes ih =>
      obtain ⟨byte', bytes', rfl⟩ := List.exists_cons_of_length_eq_add_one hlength.symm
      have hlow : byte.toNat < 256 := byte.toNat_lt
      have hlow' : byte'.toNat < 256 := byte'.toNat_lt
      simp only [littleNat] at h
      have hbyte : byte = byte' := UInt8.toNat_inj.mp (by omega)
      have hbytes : bytes = bytes' := ih (Nat.succ.inj hlength) (by omega)
      rw [hbyte, hbytes]

/-- Equally many bytes, at most four, are determined by their word. -/
theorem little_word_inj {bytes bytes' : List UInt8} (hlength : bytes.length = bytes'.length)
    (hle : bytes.length ≤ 4) (h : littleWord bytes = littleWord bytes') : bytes = bytes' := by
  apply little_nat_inj hlength
  rw [← little_word_to_nat hle, h, little_word_to_nat (hlength ▸ hle)]

/-! ## Memory -/

/-- A byte at every address. -/
def Memory := Nat → UInt8

namespace Memory

/-- The byte at an address. -/
def byte (memory : Memory) (address : Nat) : UInt8 := memory address

/-- The `n` bytes from an address on. -/
def bytes (memory : Memory) (address : Nat) : Nat → List UInt8
  | 0 => []
  | n + 1 => memory.byte address :: memory.bytes (address + 1) n

variable (memory : Memory)

/-- A 16-bit load. -/
def load16 (address : Nat) : UInt16 := UInt16.ofNat (littleNat (memory.bytes address 2))

/-- A 32-bit load. -/
def load32 (address : Nat) : UInt32 := UInt32.ofNat (littleNat (memory.bytes address 4))

/-- A range of length 0 is empty. -/
@[simp] theorem bytes_zero (address : Nat) : memory.bytes address 0 = [] := rfl

/-- A range has as many bytes as its length says. -/
@[simp] theorem bytes_length (address n : Nat) : (memory.bytes address n).length = n := by
  induction n generalizing address with
  | zero => rfl
  | succ n ih => simp [bytes, ih]

/-- A range is a first part and the range after it. -/
theorem bytes_add (address m n : Nat) :
    memory.bytes address (m + n) = memory.bytes address m ++ memory.bytes (address + m) n := by
  induction m generalizing address with
  | zero => simp [bytes]
  | succ m ih =>
      show memory.bytes address (m + 1 + n) = _
      rw [show m + 1 + n = m + n + 1 by omega, bytes, bytes, ih,
        show address + 1 + m = address + (m + 1) by omega, List.cons_append]

/-- The first bytes of a range are a range. -/
theorem bytes_take (address n k : Nat) :
    (memory.bytes address n).take k = memory.bytes address (min k n) := by
  induction n generalizing address k with
  | zero => simp [bytes]
  | succ n ih =>
      cases k with
      | zero => simp [bytes]
      | succ k =>
          rw [show min (k + 1) (n + 1) = min k n + 1 by omega, bytes, bytes,
            List.take_succ_cons, ih]

/-- The last bytes of a range are a range. -/
theorem bytes_drop (address n k : Nat) :
    (memory.bytes address n).drop k = memory.bytes (address + k) (n - k) := by
  induction n generalizing address k with
  | zero => simp [bytes]
  | succ n ih =>
      cases k with
      | zero => simp [bytes]
      | succ k =>
          rw [bytes, List.drop_succ_cons, ih, show address + 1 + k = address + (k + 1) by omega,
            show n + 1 - (k + 1) = n - k by omega]

/-! ## Words -/

/-- One byte makes the word of its value. -/
theorem little_word_one (address : Nat) :
    littleWord (memory.bytes address 1) = (memory.byte address).toUInt32 := by
  have hbyte : (memory.byte address).toNat < 256 := UInt8.toNat_lt _
  apply UInt32.toNat_inj.mp
  rw [little_word_to_nat (by simp), UInt8.toNat_toUInt32]
  simp [bytes, littleNat]

/-- The bytes that follow are added at their own place. -/
theorem little_word_add (address : Nat) {m n : Nat} (h : m + n ≤ 4) :
    littleWord (memory.bytes address (m + n)) = littleWord (memory.bytes address m) +
      littleWord (memory.bytes (address + m) n) <<< UInt32.ofNat (8 * m) := by
  have hlow := little_nat_lt (memory.bytes address m)
  have hhigh := little_nat_lt (memory.bytes (address + m) n)
  rw [bytes_length] at hlow hhigh
  apply UInt32.toNat_inj.mp
  rw [UInt32.toNat_add, UInt32.toNat_shiftLeft, little_word_to_nat (by simp; omega),
    little_word_to_nat (by simp; omega), little_word_to_nat (by simp; omega), bytes_add,
    little_nat_append, bytes_length, Nat.shiftLeft_eq]
  generalize littleNat (memory.bytes address m) = low at hlow ⊢
  generalize littleNat (memory.bytes (address + m) n) = high at hhigh ⊢
  have hm : m ≤ 4 := by omega
  have hn : n ≤ 4 - m := by omega
  interval_cases m <;> interval_cases n <;> simp at hlow hhigh ⊢ <;> omega

/-- A mask keeps the first bytes of a full word. -/
theorem little_word_mask (address : Nat) {n : Nat} (h : n ≤ 4) :
    littleWord (memory.bytes address 4) &&& UInt32.ofNat (256 ^ n - 1) =
      littleWord (memory.bytes address n) := by
  have hlow := little_nat_lt (memory.bytes address n)
  rw [bytes_length] at hlow
  have hmask : (UInt32.ofNat (256 ^ n - 1)).toNat = 2 ^ (8 * n) - 1 := by
    interval_cases n <;> rfl
  apply UInt32.toNat_inj.mp
  rw [UInt32.toNat_and, hmask, Nat.and_two_pow_sub_one_eq_mod, little_word_to_nat (by simp),
    little_word_to_nat (by simp; omega), Nat.pow_mul]
  have hsplit := memory.bytes_add address n (4 - n)
  rw [show n + (4 - n) = 4 by omega] at hsplit
  rw [hsplit, little_nat_append, bytes_length, Nat.add_mul_mod_self_left]
  exact Nat.mod_eq_of_lt hlow

/-- The mask `0xff` of a load keeps its first byte. -/
@[simp] theorem little_word_mask_one (address : Nat) :
    littleWord (memory.bytes address 4) &&& 0xff = littleWord (memory.bytes address 1) :=
  memory.little_word_mask address (show 1 ≤ 4 by omega)

/-- The mask `0xffff` of a load keeps its first two bytes. -/
@[simp] theorem little_word_mask_two (address : Nat) :
    littleWord (memory.bytes address 4) &&& 0xffff = littleWord (memory.bytes address 2) :=
  memory.little_word_mask address (show 2 ≤ 4 by omega)

/-- The mask `0xffffff` of a load keeps its first three bytes. -/
@[simp] theorem little_word_mask_three (address : Nat) :
    littleWord (memory.bytes address 4) &&& 0xffffff = littleWord (memory.bytes address 3) :=
  memory.little_word_mask address (show 3 ≤ 4 by omega)

/-- A 32-bit load reads four bytes, the lowest first. -/
theorem load32_eq (address : Nat) : memory.load32 address = littleWord (memory.bytes address 4) :=
  rfl

/-- A 16-bit load reads two bytes, the lowest first. -/
theorem load16_to_word (address : Nat) :
    (memory.load16 address).toUInt32 = littleWord (memory.bytes address 2) := by
  have hlt := little_nat_lt (memory.bytes address 2)
  rw [bytes_length] at hlt
  apply UInt32.toNat_inj.mp
  rw [UInt16.toNat_toUInt32, load16, UInt16.toNat_ofNat', little_word_to_nat (by simp)]
  exact Nat.mod_eq_of_lt hlt

end Memory

end DynocClient.Lib
