import DynocClient.Hash.BitSerial

/-!
# What the CRC hashes keep apart

`hash_crc32a` tells apart any two keys that differ in at most 32 consecutive bits, wherever these
begin, and `hash_crc16` any two that differ in at most 16. The polynomial of `hash_crc16` has an
even number of terms, so it also tells apart keys whose numbers of set bits are not both even or
both odd (`crc_hashes_keep_apart`).
-/

namespace DynocClient

open Lib

/-- The bits of a key, the lowest of each byte first. -/
def lowFirstBits (key : List UInt8) : List Bool := key.flatMap byteBits

/-- The bits of a key, the highest of each byte first. -/
def highFirstBits (key : List UInt8) : List Bool := key.flatMap fun c => (byteBits c).reverse

/-- The number of set bits of a key. -/
def setBits (key : List UInt8) : Nat := (lowFirstBits key).count true

/-- `hash_crc32a` tells apart keys that differ in a burst of 32 bits. -/
theorem hash_crc32a_burst {key other : List UInt8} {i : Nat}
    (h : DifferOnlyIn (lowFirstBits key) (lowFirstBits other) i (i + 32)) :
    hashCrc32a key ≠ hashCrc32a other := by
  intro heq
  -- the final complement keeps hashes apart
  have hstates : key.foldl crc32aStep (~~~0) = other.foldl crc32aStep (~~~0) :=
    (UInt32.xor_left_inj _).mp heq
  have hbits := congrArg UInt32.toBitVec hstates
  rw [crc32a_foldl_bits, crc32a_foldl_bits] at hbits
  exact foldl_reflected_feed_burst crc32Poly rfl h _ hbits

variable (char : CharSign)

/-- The register of CRC-16 is the low half of the hash. -/
theorem hash_crc16_register (key : List UInt8) :
    (hashCrc16 char key).toUInt16.toBitVec =
      (highFirstBits key).foldl (crcFeed crc16Poly) 0#16 := by
  rw [hashCrc16, crc16_foldl_bits]
  rfl

/-- `hash_crc16` tells apart keys that differ in a burst of 16 bits. -/
theorem hash_crc16_burst {key other : List UInt8} {i : Nat}
    (h : DifferOnlyIn (highFirstBits key) (highFirstBits other) i (i + 16)) :
    hashCrc16 char key ≠ hashCrc16 char other := by
  intro heq
  have hlow := congrArg (fun hash : UInt32 => hash.toUInt16.toBitVec) heq
  simp only [hash_crc16_register] at hlow
  exact foldl_crc_feed_burst crc16Poly rfl h _ hlow

/-- Xoring bits one after the other finds out whether an odd number of them are set. -/
theorem foldl_xor_count (bits : List Bool) (b : Bool) :
    bits.foldl Bool.xor b = (b ^^ decide (bits.count true % 2 = 1)) := by
  induction bits generalizing b with
  | nil => simp
  | cons bit bits ih =>
      have hflip : ∀ n, decide ((n + 1) % 2 = 1) = !decide (n % 2 = 1) := by
        intro n
        rw [← decide_not, decide_eq_decide]
        omega
      rw [List.foldl_cons, ih, List.count_cons]
      cases bit with
      | false => simp
      | true =>
          rw [if_pos (beq_self_eq_true true), hflip]
          cases b <;> simp

/-- The parity of the low half of the hash is that of the key. -/
theorem hash_crc16_parity (key : List UInt8) :
    parity (hashCrc16 char key).toUInt16.toBitVec = decide (setBits key % 2 = 1) := by
  have hcount : (highFirstBits key).count true = setBits key := by
    simp only [highFirstBits, setBits, lowFirstBits, List.count_flatMap, Function.comp_def,
      List.count_reverse]
  have hzero : parity 0#16 = false := by decide
  rw [hash_crc16_register, foldl_crc_feed_parity crc16Poly (by decide), foldl_xor_count, hcount,
    hzero, Bool.false_xor]

/-- Keys that differ in a burst of bits, anywhere, have different CRC hashes; and keys that differ
in an odd number of bits have different values under `hash_crc16`. -/
theorem crc_hashes_keep_apart (key other : List UInt8) :
    (∀ i, DifferOnlyIn (lowFirstBits key) (lowFirstBits other) i (i + 32) →
      hashCrc32a key ≠ hashCrc32a other) ∧
    (∀ i, DifferOnlyIn (highFirstBits key) (highFirstBits other) i (i + 16) →
      hashCrc16 char key ≠ hashCrc16 char other) ∧
    (setBits key % 2 ≠ setBits other % 2 → hashCrc16 char key ≠ hashCrc16 char other) := by
  refine ⟨fun i => hash_crc32a_burst, fun i => hash_crc16_burst char, fun hodd heq => hodd ?_⟩
  have hparity := hash_crc16_parity char key
  rw [heq, hash_crc16_parity, decide_eq_decide] at hparity
  omega

/-- Keys that differ in four bytes, at an odd offset. -/
theorem crc_hashes_keep_apart_four :
    hashCrc32a [0x6b, 0x00, 0xff, 0x10, 0x20, 0x79] ≠
      hashCrc32a [0x6b, 0xff, 0x00, 0x20, 0x10, 0x79] := by
  refine (crc_hashes_keep_apart .signed _ _).1 8 ?_
  have hne : lowFirstBits [0x00, 0xff, 0x10, 0x20] ≠ lowFirstBits [0xff, 0x00, 0x20, 0x10] := by
    decide
  have hlength : (lowFirstBits [0x00, 0xff, 0x10, 0x20]).length =
      (lowFirstBits [0xff, 0x00, 0x20, 0x10]).length := rfl
  exact DifferOnlyIn.append (lowFirstBits [0x6b]) (lowFirstBits [0x79]) hlength hne

end DynocClient
