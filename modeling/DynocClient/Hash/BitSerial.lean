import DynocClient.Hash.Crc
import DynocClient.Lib.Crc

/-!
# The table CRCs bit by bit

`hash_crc32a` is the reflected CRC-32 of the key's bits, `hash_crc32` is cut from it, and the low
half of `hash_crc16` is a CRC-16. An entry of a table is what the register makes of eight bits, so
one step of the code's loop takes the eight bits of a byte.
-/

namespace DynocClient

open Lib

/-! ## The CRCs of a bit string -/

/-- The bits of a byte, the lowest first. -/
def byteBits (c : UInt8) : List Bool := (List.range 8).map c.toNat.testBit

/-- The polynomial of CRC-32, reflected. -/
def crc32Poly : BitVec 32 := 0xEDB88320#32

/-- The reflected CRC-32, from all ones and complemented at the end. -/
def crc32BitSerial (message : List UInt8) : BitVec 32 :=
  ~~~((message.flatMap byteBits).foldl (reflectedFeed crc32Poly) (BitVec.allOnes 32))

/-- The polynomial of CRC-16. -/
def crc16Poly : BitVec 16 := 0x1021#16

/-- The CRC-16 from 0, with the highest bit of a byte first. -/
def crc16BitSerial (message : List UInt8) : BitVec 16 :=
  (message.flatMap fun c => (byteBits c).reverse).foldl (crcFeed crc16Poly) 0#16

/-- A table is checked as a whole. -/
theorem table_get {α β : Type} {n : Nat} {table : Vector α n} {f : α → β} {entry : Nat → β}
    (h : table.toList.map f = (List.range n).map entry) (i : Fin n) :
    f (table.get i) = entry i := by
  have hget : table.toList[i.val]? = some (table.get i) := by
    rw [Vector.getElem?_toList]
    exact Vector.getElem?_eq_getElem i.isLt
  have hentry : (List.range n)[i.val]? = some i.val := List.getElem?_range i.isLt
  have hsame := congrArg (fun entries => entries[i.val]?) h
  simp only [List.getElem?_map, hget, hentry, Option.map_some] at hsame
  exact Option.some.inj hsame

/-! ## CRC-32 -/

/-- An entry is what eight steps make of its index. -/
theorem crc32tab_get (i : Fin 256) :
    (crc32tab.get i).toBitVec = (reflectedStep crc32Poly)^[8] (BitVec.ofNat 32 i.val) := by
  have htable : crc32tab.toList.map UInt32.toBitVec =
      (List.range 256).map fun i => (reflectedStep crc32Poly)^[8] (BitVec.ofNat 32 i) := by
    decide +kernel
  exact table_get htable i

/-- The bits of a byte make the byte. -/
theorem of_bits_byte_bits (c : UInt8) : ofBits 32 (byteBits c) = c.toUInt32.toBitVec :=
  forall_byte (P := fun c => ofBits 32 (byteBits c) = c.toUInt32.toBitVec) (by decide +kernel) c

/-- A byte has eight bits. -/
theorem byte_shift_right (c : UInt8) : c.toUInt32.toBitVec >>> 8 = 0#32 :=
  forall_byte (P := fun c => c.toUInt32.toBitVec >>> 8 = 0#32) (by decide +kernel) c

/-- One step of the loop takes the bits of a byte. -/
theorem crc32a_step_bits (crc : UInt32) (c : UInt8) :
    (crc32aStep crc c).toBitVec = (byteBits c).foldl (reflectedFeed crc32Poly) crc.toBitVec := by
  have hindex : BitVec.ofNat 32 (tableIndex (crc ^^^ c.toUInt32)).val =
      lowBits 8 (crc.toBitVec ^^^ c.toUInt32.toBitVec) := by
    rw [lowBits]
    congr 1
    exact Nat.and_two_pow_sub_one_eq_mod _ 8
  have hshift : (crc.toBitVec ^^^ c.toUInt32.toBitVec) >>> 8 = crc.toBitVec >>> 8 := by
    rw [BitVec.ushiftRight_xor_distrib, byte_shift_right, BitVec.xor_zero]
  have hlength : (byteBits c).length = 8 := rfl
  rw [foldl_reflected_feed crc32Poly (byteBits c) (by simp [hlength]), hlength,
    of_bits_byte_bits, reflected_step_iterate, hshift, ← hindex, ← crc32tab_get]
  rfl

/-- The loop over the bytes is the loop over their bits. -/
theorem crc32a_foldl_bits (key : List UInt8) (crc : UInt32) :
    (key.foldl crc32aStep crc).toBitVec =
      (key.flatMap byteBits).foldl (reflectedFeed crc32Poly) crc.toBitVec := by
  rw [List.foldl_flatMap]
  exact (List.foldl_hom UInt32.toBitVec fun crc c => (crc32a_step_bits crc c).symm).symm

/-- `hash_crc32a` is the bit-serial CRC-32, and `hash_crc32` is cut from it. -/
theorem hash_crc32a_bit_serial (char : CharSign) (key : List UInt8) :
    (hashCrc32a key).toBitVec = crc32BitSerial key ∧
      hashCrc32 char key = hashCrc32a key >>> 16 &&& 0x7fff := by
  have hbits : (hashCrc32a key).toBitVec = ~~~(key.foldl crc32aStep (~~~0)).toBitVec := by
    rw [hashCrc32a, ← UInt32.toBitVec_not]
    exact congrArg UInt32.toBitVec UInt32.xor_neg_one
  refine ⟨?_, hash_crc32_eq char key⟩
  rw [hbits, crc32a_foldl_bits]
  rfl

/-- The check value of CRC-32, of the digits from 1 to 9. -/
example :
    crc32BitSerial [0x31, 0x32, 0x33, 0x34, 0x35, 0x36, 0x37, 0x38, 0x39] = 0xcbf43926#32 := by
  decide +kernel

/-! ## CRC-16 -/

/-- An entry is what eight steps make of its index at the top of the register. -/
theorem crc16tab_get (i : Fin 256) :
    (crc16tab.get i).toBitVec = (crcStep crc16Poly)^[8] (BitVec.ofNat 16 i.val <<< 8) := by
  have htable : crc16tab.toList.map UInt16.toBitVec =
      (List.range 256).map fun i => (crcStep crc16Poly)^[8] (BitVec.ofNat 16 i <<< 8) := by
    decide +kernel
  exact table_get htable i

/-- The bits of a byte, the highest first, make the upper byte of the register. -/
theorem of_bits_reverse_byte_bits (c : UInt8) :
    (ofBits 16 (byteBits c).reverse).reverse = c.toUInt16.toBitVec <<< 8 :=
  forall_byte (P := fun c =>
    (ofBits 16 (byteBits c).reverse).reverse = c.toUInt16.toBitVec <<< 8) (by decide +kernel) c

/-- A byte in the upper half shifts down to itself, and up out of the register. -/
theorem top_byte_shift (c : UInt8) :
    c.toUInt16.toBitVec <<< 8 >>> 8 = c.toUInt16.toBitVec ∧
      c.toUInt16.toBitVec <<< 8 <<< 8 = 0#16 :=
  forall_byte (P := fun c => c.toUInt16.toBitVec <<< 8 >>> 8 = c.toUInt16.toBitVec ∧
    c.toUInt16.toBitVec <<< 8 <<< 8 = 0#16) (by decide +kernel) c

/-- The index is made of the byte and the high byte of the low half alone. -/
theorem crc16_index (char : CharSign) (crc : UInt32) (c : UInt8) :
    BitVec.ofNat 16 (tableIndex (crc >>> 8 ^^^ char.toUInt32 c)).val =
      crc.toUInt16.toBitVec >>> 8 ^^^ c.toUInt16.toBitVec := by
  have hcrc : (crc >>> 8).toNat &&& 255 = crc.toNat % 2 ^ 16 / 2 ^ 8 := by
    have hmask : (crc >>> 8).toNat &&& 255 = (crc >>> 8).toNat % 2 ^ 8 :=
      Nat.and_two_pow_sub_one_eq_mod _ 8
    have hshift : (crc >>> 8).toNat = crc.toNat / 2 ^ 8 := by
      rw [UInt32.toNat_shiftRight, Nat.shiftRight_eq_div_pow]
      rfl
    omega
  have hlow : (crc.toUInt16.toBitVec >>> 8).toNat = crc.toNat % 2 ^ 16 / 2 ^ 8 := by
    rw [BitVec.toNat_ushiftRight, Nat.shiftRight_eq_div_pow]
    rfl
  have hindex : (tableIndex (crc >>> 8 ^^^ char.toUInt32 c)).val =
      (crc.toUInt16.toBitVec >>> 8 ^^^ c.toUInt16.toBitVec).toNat := by
    rw [table_index_char, hcrc, BitVec.toNat_xor, hlow]
    rfl
  rw [hindex, BitVec.ofNat_toNat, BitVec.setWidth_eq]

/-- One step of the loop takes the bits of a byte into the low half, whatever the high half is. -/
theorem crc16_step_bits (char : CharSign) (crc : UInt32) (c : UInt8) :
    (crc16Step char crc c).toUInt16.toBitVec =
      (byteBits c).reverse.foldl (crcFeed crc16Poly) crc.toUInt16.toBitVec := by
  have hhigh : highBits 8 (crc.toUInt16.toBitVec ^^^ c.toUInt16.toBitVec <<< 8) =
      BitVec.ofNat 16 (tableIndex (crc >>> 8 ^^^ char.toUInt32 c)).val <<< 8 := by
    rw [highBits, crc16_index]
    congr 1
    rw [BitVec.ushiftRight_xor_distrib]
    exact congrArg (fun x => crc.toUInt16.toBitVec >>> 8 ^^^ x) (top_byte_shift c).1
  have hshift : (crc.toUInt16.toBitVec ^^^ c.toUInt16.toBitVec <<< 8) <<< 8 =
      crc.toUInt16.toBitVec <<< 8 := by
    rw [BitVec.shiftLeft_xor_distrib, (top_byte_shift c).2, BitVec.xor_zero]
  have hcut : (crc <<< 8).toUInt16.toBitVec = crc.toUInt16.toBitVec <<< 8 := by
    rw [UInt32.toUInt16_shiftLeft crc 8 (by decide)]
    rfl
  have hlength : (byteBits c).reverse.length = 8 := rfl
  rw [foldl_crc_feed crc16Poly (byteBits c).reverse (by simp [hlength]), hlength,
    of_bits_reverse_byte_bits, crc_step_iterate crc16Poly (by simp), hhigh, hshift,
    ← crc16tab_get, crc16Step, UInt32.toUInt16_xor, UInt16.toBitVec_xor, hcut,
    UInt16.toUInt16_toUInt32, BitVec.xor_comm]

/-- The loop over the bytes is the loop over their bits, the highest first. -/
theorem crc16_foldl_bits (char : CharSign) (key : List UInt8) (crc : UInt32) :
    (key.foldl (crc16Step char) crc).toUInt16.toBitVec =
      (key.flatMap fun c => (byteBits c).reverse).foldl (crcFeed crc16Poly)
        crc.toUInt16.toBitVec := by
  rw [List.foldl_flatMap]
  exact (List.foldl_hom (fun crc : UInt32 => crc.toUInt16.toBitVec)
    fun crc c => (crc16_step_bits char crc c).symm).symm

/-- The low half of `hash_crc16` is the bit-serial CRC-16. -/
theorem hash_crc16_bit_serial (char : CharSign) (key : List UInt8) :
    (hashCrc16 char key).toUInt16.toBitVec = crc16BitSerial key := by
  rw [hashCrc16, crc16_foldl_bits]
  rfl

/-- The check value of this CRC-16, of the same digits. -/
example :
    crc16BitSerial [0x31, 0x32, 0x33, 0x34, 0x35, 0x36, 0x37, 0x38, 0x39] = 0x31c3#16 := by
  decide +kernel

end DynocClient
