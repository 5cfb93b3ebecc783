import DynocClient.Hash.BitSerial
import DynocClient.Lib.Mixing

/-!
# Byte-serial hashes separate keys

A hash that goes byte by byte and loses neither the state nor the byte in any step has different
values for keys that differ in one byte (`separates_of_injective`). All of the hashes here are
such, two of them as far as the low half of their state goes.
-/

namespace DynocClient

open Lib

/-- Keys of one length that differ in exactly one byte have different values. -/
def Separates (hash : HashFunc) : Prop :=
  ∀ key other i, DifferOnlyIn key other i (i + 1) → hash key ≠ hash other

/-- The rule for a loop over the bytes with something done to its state at the end. -/
theorem separates_of_injective {σ : Type} (step : σ → UInt8 → σ) (finish : σ → UInt32) (s : σ)
    (hstate : ∀ c, Function.Injective fun s => step s c)
    (hitem : ∀ s, Function.Injective (step s)) (hfinish : Function.Injective finish) :
    Separates fun key => finish (key.foldl step s) := by
  intro key other i hdiffer heq
  exact foldl_ne_of_differ hstate hitem hdiffer s (hfinish heq)

/-- The rule for a loop of which only a part of the state goes its own way. -/
theorem separates_of_part {σ τ : Type} {step : σ → UInt8 → σ} (part : σ → τ)
    (partStep : τ → UInt8 → τ) (finish : σ → UInt32) (s : σ)
    (hpart : ∀ s c, part (step s c) = partStep (part s) c)
    (hstate : ∀ c, Function.Injective fun t => partStep t c)
    (hitem : ∀ t, Function.Injective (partStep t))
    (hfinish : ∀ s s', finish s = finish s' → part s = part s') :
    Separates fun key => finish (key.foldl step s) := by
  intro key other i hdiffer heq
  have hrun : ∀ bytes : List UInt8, part (bytes.foldl step s) = bytes.foldl partStep (part s) :=
    fun bytes => (List.foldl_hom part fun s c => (hpart s c).symm).symm
  have hparts := hfinish _ _ heq
  rw [hrun, hrun] at hparts
  exact foldl_ne_of_differ hstate hitem hdiffer (part s) hparts

/-- A widened character determines the character. -/
theorem to_uint32_injective (char : CharSign) : Function.Injective char.toUInt32 := by
  intro c d h
  apply UInt8.toNat_inj.mp
  rw [← to_uint32_and_ff char c, h, to_uint32_and_ff]

/-! ## One at a time -/

/-- A step keeps the state and the byte, taken together. -/
theorem one_at_a_time_step_inj (char : CharSign) {value value' : UInt32} {c d : UInt8}
    (h : oneAtATimeStep char value c = oneAtATimeStep char value' d) :
    value + char.toUInt32 c = value' + char.toUInt32 d := by
  have hshifted := uint32_xor_shift_right_injective (k := 6) (by decide) h
  exact uint32_add_shift_left_injective (k := 10) (by decide) hshifted

/-- What `hash_one_at_a_time` does after its loop. -/
def oneAtATimeFinal (value : UInt32) : UInt32 :=
  let value := value + value <<< 3
  let value := value ^^^ value >>> 11
  value + value <<< 15

/-- The final mixing of `hash_one_at_a_time` loses nothing. -/
theorem one_at_a_time_final_injective : Function.Injective oneAtATimeFinal := by
  intro value value' h
  have hlast := uint32_add_shift_left_injective (k := 15) (by decide) h
  have hshifted := uint32_xor_shift_right_injective (k := 11) (by decide) hlast
  exact uint32_add_shift_left_injective (k := 3) (by decide) hshifted

/-- `hash_one_at_a_time` tells apart keys that differ in one byte. -/
theorem hash_one_at_a_time_separates (char : CharSign) : Separates (hashOneAtATime char) := by
  show Separates fun key => oneAtATimeFinal (key.foldl (oneAtATimeStep char) 0)
  refine separates_of_injective (oneAtATimeStep char) oneAtATimeFinal 0 ?_ ?_
    one_at_a_time_final_injective
  · intro c value value' h
    exact (UInt32.add_left_inj (char.toUInt32 c)).mp (one_at_a_time_step_inj char h)
  · intro value c d h
    have hbyte := (UInt32.add_right_inj value).mp (one_at_a_time_step_inj char h)
    exact to_uint32_injective char hbyte

/-! ## FNV -/

section Fnv

variable (char : CharSign) {prime : UInt32} (hprime : prime.toNat % 2 = 1)

include hprime

/-- A product and then the byte. -/
theorem fnv1_separates (s : UInt32) :
    Separates fun key => key.foldl (fun hash c => hash * prime ^^^ char.toUInt32 c) s := by
  refine separates_of_injective _ id s ?_ ?_ Function.injective_id
  · intro c hash hash' h
    exact uint32_mul_odd_injective hprime ((UInt32.xor_left_inj _).mp h)
  · intro hash c d h
    exact to_uint32_injective char ((UInt32.xor_right_inj _).mp h)

/-- The byte and then a product. -/
theorem fnv1a_separates (s : UInt32) :
    Separates fun key => key.foldl (fnv1aStep prime char) s := by
  refine separates_of_injective (fnv1aStep prime char) id s ?_ ?_ Function.injective_id
  · intro c hash hash' h
    exact (UInt32.xor_left_inj _).mp (uint32_mul_odd_injective hprime h)
  · intro hash c d h
    have hbyte := uint32_mul_odd_injective hprime h
    exact to_uint32_injective char ((UInt32.xor_right_inj _).mp hbyte)

end Fnv

/-- `hash_fnv1_64` does so although it truncates. -/
theorem hash_fnv1_64_separates (char : CharSign) : Separates (hashFnv1_64 char) := by
  have hlow : hashFnv1_64 char = fun key => key.foldl
      (fun hash c => hash * fnv64Prime.toUInt32 ^^^ char.toUInt32 c) fnv64Init.toUInt32 := by
    funext key
    exact (List.foldl_hom UInt64.toUInt32 fun hash c => (fnv1_step64_low char hash c).symm).symm
  rw [hlow]
  exact fnv1_separates char rfl _

/-! ## CRC -/

/-- A byte has eight bits. -/
theorem byte_bits_length (c : UInt8) : (byteBits c).length = 8 := rfl

/-- A step of `hash_crc32a` keeps the state and the byte, taken together. -/
theorem crc32a_step_inj {crc crc' : UInt32} {c d : UInt8}
    (h : crc32aStep crc c = crc32aStep crc' d) : crc ^^^ c.toUInt32 = crc' ^^^ d.toUInt32 := by
  have hlength : (byteBits c).length = (byteBits d).length := by
    rw [byte_bits_length, byte_bits_length]
  have hfits : (byteBits c).length ≤ 32 := by
    rw [byte_bits_length]
    omega
  have hbits := congrArg UInt32.toBitVec h
  rw [crc32a_step_bits, crc32a_step_bits] at hbits
  have hrun := foldl_reflected_feed_inj crc32Poly rfl hlength hfits hbits
  rw [of_bits_byte_bits, of_bits_byte_bits] at hrun
  exact UInt32.toBitVec_inj.mp hrun

/-- `hash_crc32a` tells apart keys that differ in one byte. -/
theorem hash_crc32a_separates : Separates hashCrc32a := by
  show Separates fun key => key.foldl crc32aStep (~~~0) ^^^ ~~~0
  refine separates_of_injective crc32aStep (fun crc => crc ^^^ ~~~0) (~~~0) ?_ ?_ ?_
  · intro c crc crc' h
    exact (UInt32.xor_left_inj _).mp (crc32a_step_inj h)
  · intro crc c d h
    exact to_uint32_injective .unsigned ((UInt32.xor_right_inj _).mp (crc32a_step_inj h))
  · intro crc crc' h
    exact (UInt32.xor_left_inj _).mp h

/-- The low half of the state of `hash_crc16`. -/
def crc16LowStep (crc : BitVec 16) (c : UInt8) : BitVec 16 :=
  (byteBits c).reverse.foldl (crcFeed crc16Poly) crc

/-- A step of the low half is determined up to what it takes in. -/
theorem crc16_low_step_inj {crc crc' : BitVec 16} {c d : UInt8}
    (h : crc16LowStep crc c = crc16LowStep crc' d) :
    crc ^^^ c.toUInt16.toBitVec <<< 8 = crc' ^^^ d.toUInt16.toBitVec <<< 8 := by
  have hlength : (byteBits c).reverse.length = (byteBits d).reverse.length := by
    rw [List.length_reverse, List.length_reverse, byte_bits_length, byte_bits_length]
  have hfits : (byteBits c).reverse.length ≤ 16 := by
    rw [List.length_reverse, byte_bits_length]
    omega
  have hrun := foldl_crc_feed_inj crc16Poly rfl hlength hfits h
  rwa [of_bits_reverse_byte_bits, of_bits_reverse_byte_bits] at hrun

/-- `hash_crc16` tells apart keys that differ in one byte. -/
theorem hash_crc16_separates (char : CharSign) : Separates (hashCrc16 char) := by
  show Separates fun key => id (key.foldl (crc16Step char) 0)
  refine separates_of_part (fun crc : UInt32 => crc.toUInt16.toBitVec) crc16LowStep id 0
    (crc16_step_bits char) ?_ ?_ ?_
  · intro c crc crc' h
    exact (BitVec.xor_left_inj _).mp (crc16_low_step_inj h)
  · intro crc c d h
    have htop := (BitVec.xor_right_inj crc).mp (crc16_low_step_inj h)
    have hbyte : c.toUInt16.toBitVec = d.toUInt16.toBitVec := by
      rw [← (top_byte_shift c).1, htop, (top_byte_shift d).1]
    have hnat : c.toUInt16.toNat = d.toUInt16.toNat := congrArg BitVec.toNat hbyte
    exact UInt8.toNat_inj.mp hnat
  · intro crc crc' h
    exact congrArg (fun crc : UInt32 => crc.toUInt16.toBitVec) h

/-! ## All of them -/

/-- The byte-serial hashes. -/
def byteSerialHashes (char : CharSign) : List HashFunc :=
  [hashOneAtATime char, hashFnv1_64 char, hashFnv1a_64 char, hashFnv1_32 char, hashFnv1a_32 char,
    hashCrc16 char, hashCrc32a]

/-- Each of them separates keys that differ in exactly one byte. -/
theorem byte_serial_hashes_separate (char : CharSign) :
    ∀ hash ∈ byteSerialHashes char, Separates hash := by
  intro hash hmem
  simp only [byteSerialHashes, List.mem_cons, List.not_mem_nil, or_false] at hmem
  obtain rfl | rfl | rfl | rfl | rfl | rfl | rfl := hmem
  · exact hash_one_at_a_time_separates char
  · exact hash_fnv1_64_separates char
  · exact fnv1a_separates char rfl _
  · exact fnv1_separates char rfl _
  · exact fnv1a_separates char rfl _
  · exact hash_crc16_separates char
  · exact hash_crc32a_separates

/-- Keys of three bytes that differ in the second, which is above 127 in one of them. -/
theorem hash_crc16_separates_middle :
    hashCrc16 .signed [0x61, 0x62, 0x63] ≠ hashCrc16 .signed [0x61, 0xe2, 0x63] := by
  have hmem : hashCrc16 .signed ∈ byteSerialHashes .signed := by simp [byteSerialHashes]
  have hbyte : ([0x62] : List UInt8) ≠ [0xe2] := by decide
  have hdiffer := DifferOnlyIn.append [0x61] [0x63] (by rfl) hbyte
  exact byte_serial_hashes_separate .signed _ hmem _ _ 1 hdiffer

end DynocClient
