import DynocClient.Hash.Crc
import Mathlib.Data.List.Basic
import Mathlib.Data.List.Induction

/-!
# Signed and unsigned `char`

What the sign of `char` makes of the routing hashes. The CRC hashes do not depend on it, and
`hash_hsieh` only through the last byte of some keys. In the FNV hashes every byte from 128 on
flips bit 8 of the state, and no later step of the loop puts it back (`foldl_flip`).
-/

namespace DynocClient

open CharSign

/-! ## Bytes below 128 -/

/-- Below 128 both signs give a character the same 32-bit value. -/
theorem to_uint32_of_lt {c : UInt8} (h : c < 128) : signed.toUInt32 c = unsigned.toUInt32 c := by
  rw [signed_to_uint32, if_pos h]
  rfl

/-- Below 128 both signs give a character the same 64-bit value. -/
theorem to_uint64_of_lt {c : UInt8} (h : c < 128) : signed.toUInt64 c = unsigned.toUInt64 c := by
  rw [signed_to_uint64, if_pos h]
  rfl

/-- A loop whose body does the same on both platforms for every byte of the key. -/
theorem foldl_same {σ : Type} (step : CharSign → σ → UInt8 → σ) (key : List UInt8)
    (hstep : ∀ s, ∀ c ∈ key, step signed s c = step unsigned s c) (s : σ) :
    key.foldl (step signed) s = key.foldl (step unsigned) s :=
  List.foldl_ext _ _ s hstep

section Ascii

variable {key : List UInt8} (hkey : ∀ c ∈ key, c < 128)

include hkey

/-- `hash_one_at_a_time` of an ASCII key is the same on both platforms. -/
theorem hash_one_at_a_time_same : hashOneAtATime signed key = hashOneAtATime unsigned key := by
  have hfold := foldl_same oneAtATimeStep key
    (fun s c hc => by simp only [oneAtATimeStep, to_uint32_of_lt (hkey c hc)]) 0
  simp only [hashOneAtATime, hfold]

/-- `hash_fnv1_64` of an ASCII key is the same on both platforms. -/
theorem hash_fnv1_64_same : hashFnv1_64 signed key = hashFnv1_64 unsigned key := by
  have hfold := foldl_same fnv1Step64 key
    (fun s c hc => by simp only [fnv1Step64, to_uint64_of_lt (hkey c hc)]) fnv64Init
  simp only [hashFnv1_64, hfold]

/-- The FNV-1a loop gives an ASCII key the same value on both platforms. -/
theorem fnv1a_same (prime init : UInt32) :
    key.foldl (fnv1aStep prime signed) init = key.foldl (fnv1aStep prime unsigned) init :=
  foldl_same (fnv1aStep prime) key
    (fun s c hc => by simp only [fnv1aStep, to_uint32_of_lt (hkey c hc)]) init

/-- `hash_fnv1_32` of an ASCII key is the same on both platforms. -/
theorem hash_fnv1_32_same : hashFnv1_32 signed key = hashFnv1_32 unsigned key :=
  foldl_same fnv1Step key
    (fun s c hc => by simp only [fnv1Step, to_uint32_of_lt (hkey c hc)]) fnv32Init

end Ascii

/-- `hash_hsieh` widens a plain char only in the last of three bytes that follow the blocks. -/
theorem hsieh_loop_same (hash : UInt32) (key : List UInt8)
    (h : key.length % 4 = 3 → ∀ c ∈ key.getLast?, c < 128) :
    hsiehLoop signed hash key = hsiehLoop unsigned hash key := by
  induction hash, key using hsiehLoop.induct signed with
  | case1 hash k0 k1 k2 k3 key ih =>
      rw [hsiehLoop, hsiehLoop]
      apply ih
      intro hlength
      cases key with
      | nil => simp at hlength
      | cons k4 key =>
          have hlast := h (by simp only [List.length_cons] at hlength ⊢; omega)
          simpa only [List.getLast?_cons_cons] using hlast
  | case2 hash k0 k1 k2 =>
      have hlast : k2 < 128 := h rfl k2 rfl
      simp only [hsiehLoop, to_uint32_of_lt hlast]
  | case3 | case4 | case5 => simp only [hsiehLoop]

/-- `hash_hsieh` reads a signed character only as the last of a tail of three. -/
theorem hash_hsieh_same (key : List UInt8)
    (h : key.length % 4 = 3 → ∀ c ∈ key.getLast?, c < 128) :
    hashHsieh signed key = hashHsieh unsigned key := by
  simp only [hashHsieh, hsieh_loop_same 0 key h]

/-! ## Bit 8 -/

/-- The highest of the bits 0 to 8, to flip or not. -/
def signFlip (b : Bool) : BitVec 9 := if b then 256#9 else 0#9

/-- Two flips make one exactly if one of them is none. -/
theorem sign_flip_xor (b b' : Bool) : signFlip b ^^^ signFlip b' = signFlip (b ^^ b') := by
  cases b <;> cases b' <;> rfl

/-- A flip changes the value. -/
theorem xor_sign_flip_ne (x : BitVec 9) : x ^^^ signFlip true ≠ x := by
  intro h
  have hbit := congrArg (fun y : BitVec 9 => y.getLsbD 8) h
  simp [signFlip] at hbit

/-- An odd factor leaves a flipped bit 8 flipped. -/
theorem xor_sign_flip_mul (x p : BitVec 9) (hp : 256#9 * p = 256#9) (b : Bool) :
    (x ^^^ signFlip b) * p = x * p ^^^ signFlip b := by
  have hadd : ∀ y : BitVec 9, y ^^^ 256#9 = y + 256#9 := by decide +kernel
  cases b with
  | false => simp [signFlip]
  | true =>
      show (x ^^^ 256#9) * p = x * p ^^^ 256#9
      rw [hadd, hadd, BitVec.add_mul, hp]

/-- The lowest nine bits of a state. -/
def lowNine (x : UInt32) : BitVec 9 := x.toBitVec.setWidth 9

/-- The lowest nine bits of a state of 64 bits. -/
def lowNine64 (x : UInt64) : BitVec 9 := x.toBitVec.setWidth 9

/-- The low nine bits of an exclusive or are that of the low nine bits. -/
theorem low_nine_xor (x y : UInt32) : lowNine (x ^^^ y) = lowNine x ^^^ lowNine y := by
  simp [lowNine]

/-- The low nine bits of a product are the product of the low nine bits. -/
theorem low_nine_mul (x y : UInt32) : lowNine (x * y) = lowNine x * lowNine y := by
  rw [lowNine, UInt32.toBitVec_mul]
  exact BitVec.setWidth_mul _ _ (by omega)

/-- The low nine bits of a 64-bit exclusive or are that of the low nine bits. -/
theorem low_nine64_xor (x y : UInt64) : lowNine64 (x ^^^ y) = lowNine64 x ^^^ lowNine64 y := by
  simp [lowNine64]

/-- The low nine bits of a 64-bit product are the product of the low nine bits. -/
theorem low_nine64_mul (x y : UInt64) : lowNine64 (x * y) = lowNine64 x * lowNine64 y := by
  rw [lowNine64, UInt64.toBitVec_mul]
  exact BitVec.setWidth_mul _ _ (by omega)

/-- Truncation to 32 bits keeps the low nine. -/
theorem low_nine_to_uint32 (x : UInt64) : lowNine x.toUInt32 = lowNine64 x := by
  simp [lowNine, lowNine64]

/-- The sign extension of a byte from 128 on sets bit 8. -/
theorem low_nine_char (c : UInt8) : lowNine (signed.toUInt32 c) =
    lowNine (unsigned.toUInt32 c) ^^^ signFlip (128 ≤ c) :=
  forall_byte (P := fun c => lowNine (signed.toUInt32 c) =
    lowNine (unsigned.toUInt32 c) ^^^ signFlip (128 ≤ c)) (by decide +kernel) c

/-- Sign extension to 64 bits flips bit 8 exactly of the bytes from 128 on. -/
theorem low_nine64_char (c : UInt8) : lowNine64 (signed.toUInt64 c) =
    lowNine64 (unsigned.toUInt64 c) ^^^ signFlip (128 ≤ c) :=
  forall_byte (P := fun c => lowNine64 (signed.toUInt64 c) =
    lowNine64 (unsigned.toUInt64 c) ^^^ signFlip (128 ≤ c)) (by decide +kernel) c

/-- The number of bytes from 128 on. -/
def highBytes (key : List UInt8) : Nat := key.countP (128 ≤ ·)

/-- A high byte in front changes the parity of the number of high bytes. -/
theorem high_bytes_cons (c : UInt8) (key : List UInt8) :
    decide (highBytes (c :: key) % 2 = 1) =
      (decide (128 ≤ c) ^^ decide (highBytes key % 2 = 1)) := by
  have hcount : highBytes (c :: key) = highBytes key + if 128 ≤ c then 1 else 0 := by
    simp [highBytes, List.countP_cons]
  rw [hcount, Bool.eq_iff_iff]
  by_cases h : 128 ≤ c
  · simp [h]
    omega
  · simp [h]

section Loop

/-! A loop whose body flips bit 8 for every byte from 128 on, and keeps it flipped. -/

variable {σ : Type} (low : σ → BitVec 9) (step : CharSign → σ → UInt8 → σ)
  (hstep : ∀ s u b c, low s = low u ^^^ signFlip b →
    low (step signed s c) = low (step unsigned u c) ^^^ signFlip (b ^^ decide (128 ≤ c)))

include hstep

/-- The states that the key leaves differ in bit 8 if it has an odd number of such bytes. -/
theorem foldl_flip (key : List UInt8) (s u : σ) (b : Bool) (h : low s = low u ^^^ signFlip b) :
    low (key.foldl (step signed) s) =
      low (key.foldl (step unsigned) u) ^^^ signFlip (b ^^ decide (highBytes key % 2 = 1)) := by
  induction key generalizing s u b with
  | nil => simpa [highBytes] using h
  | cons c key ih =>
      have hnext := ih (step signed s c) (step unsigned u c) (b ^^ decide (128 ≤ c))
        (hstep s u b c h)
      rw [high_bytes_cons, ← Bool.xor_assoc]
      exact hnext

/-- After an odd number of high bytes the two platforms differ in bit 8. -/
theorem foldl_ne {key : List UInt8} (hodd : highBytes key % 2 = 1) (s : σ) :
    low (key.foldl (step signed) s) ≠ low (key.foldl (step unsigned) s) := by
  have hflip := foldl_flip low step hstep key s s false (by simp [signFlip])
  rw [hflip, decide_eq_true hodd]
  exact xor_sign_flip_ne _

end Loop

/-- Flips move out of an exclusive or. -/
theorem xor_rearrange (x y : BitVec 9) (b b' : Bool) :
    (x ^^^ signFlip b) ^^^ (y ^^^ signFlip b') = (x ^^^ y) ^^^ signFlip (b ^^ b') := by
  rw [← sign_flip_xor]
  ac_rfl

/-- An FNV-1a step keeps the flip of bit 8 and adds that of a high byte. -/
theorem fnv1a_step_flip {prime : UInt32} (hprime : 256#9 * lowNine prime = 256#9)
    (s u : UInt32) (b : Bool) (c : UInt8) (h : lowNine s = lowNine u ^^^ signFlip b) :
    lowNine (fnv1aStep prime signed s c) =
      lowNine (fnv1aStep prime unsigned u c) ^^^ signFlip (b ^^ decide (128 ≤ c)) := by
  rw [fnv1aStep, fnv1aStep, low_nine_mul, low_nine_xor, h, low_nine_char, xor_rearrange,
    xor_sign_flip_mul _ _ hprime, low_nine_mul, low_nine_xor]

/-- A 32-bit FNV-1 step keeps the flip of bit 8 and adds that of a high byte. -/
theorem fnv1_step_flip (s u : UInt32) (b : Bool) (c : UInt8)
    (h : lowNine s = lowNine u ^^^ signFlip b) :
    lowNine (fnv1Step signed s c) =
      lowNine (fnv1Step unsigned u c) ^^^ signFlip (b ^^ decide (128 ≤ c)) := by
  have hprime : 256#9 * lowNine fnv32Prime = 256#9 := rfl
  rw [fnv1Step, fnv1Step, low_nine_xor, low_nine_mul, h, low_nine_char,
    xor_sign_flip_mul _ _ hprime, xor_rearrange, low_nine_xor, low_nine_mul]

/-- A 64-bit FNV-1 step keeps the flip of bit 8 and adds that of a high byte. -/
theorem fnv1_step64_flip (s u : UInt64) (b : Bool) (c : UInt8)
    (h : lowNine64 s = lowNine64 u ^^^ signFlip b) :
    lowNine64 (fnv1Step64 signed s c) =
      lowNine64 (fnv1Step64 unsigned u c) ^^^ signFlip (b ^^ decide (128 ≤ c)) := by
  have hprime : 256#9 * lowNine64 fnv64Prime = 256#9 := rfl
  rw [fnv1Step64, fnv1Step64, low_nine64_xor, low_nine64_mul, h, low_nine64_char,
    xor_sign_flip_mul _ _ hprime, xor_rearrange, low_nine64_xor, low_nine64_mul]

/-! ## The routing hashes -/

/-- The hashes that read a key as plain chars. -/
def routingHashes : List (CharSign → HashFunc) :=
  [hashOneAtATime, hashFnv1_64, hashFnv1a_64, hashFnv1_32, hashFnv1a_32, hashHsieh, hashCrc16,
    hashCrc32]

/-- Each of them gives the key the same value on both platforms. -/
def SameOnPlatforms (key : List UInt8) : Prop :=
  ∀ hash ∈ routingHashes, hash .signed key = hash .unsigned key

instance (key : List UInt8) : Decidable (SameOnPlatforms key) :=
  inferInstanceAs (Decidable (∀ hash ∈ routingHashes, hash .signed key = hash .unsigned key))

/-- An ASCII key hashes alike on both platforms, under each of these hashes. -/
theorem same_of_ascii {key : List UInt8} (hkey : ∀ c ∈ key, c < 128) : SameOnPlatforms key := by
  have hlast : key.length % 4 = 3 → ∀ c ∈ key.getLast?, c < 128 :=
    fun _ c hc => hkey c (List.mem_of_mem_getLast? hc)
  simp only [SameOnPlatforms, routingHashes, List.forall_mem_cons]
  refine ⟨hash_one_at_a_time_same hkey, hash_fnv1_64_same hkey, fnv1a_same hkey _ _,
    hash_fnv1_32_same hkey, fnv1a_same hkey _ _, hash_hsieh_same key hlast, ?_, ?_, ?_⟩
  · rw [hash_crc16_char]
  · rw [hash_crc32_char]
  · simp

/-- Each of the FNV hashes tells the platforms apart on a key with an odd number of bytes from 128
on. -/
theorem fnv_ne_of_odd {key : List UInt8} (hodd : highBytes key % 2 = 1) :
    ∀ hash ∈ [hashFnv1_64, hashFnv1a_64, hashFnv1_32, hashFnv1a_32],
      hash signed key ≠ hash unsigned key := by
  have hfnv1a : ∀ prime init, 256#9 * lowNine prime = 256#9 →
      key.foldl (fnv1aStep prime signed) init ≠ key.foldl (fnv1aStep prime unsigned) init :=
    fun prime init hprime heq =>
      foldl_ne lowNine (fnv1aStep prime) (fnv1a_step_flip hprime) hodd init
        (congrArg lowNine heq)
  simp only [List.forall_mem_cons]
  refine ⟨fun heq => ?_, hfnv1a _ _ rfl, fun heq => ?_, hfnv1a _ _ rfl, ?_⟩
  · refine foldl_ne lowNine64 fnv1Step64 fnv1_step64_flip hodd fnv64Init ?_
    rw [← low_nine_to_uint32, ← low_nine_to_uint32]
    exact congrArg lowNine heq
  · exact foldl_ne lowNine fnv1Step fnv1_step_flip hodd fnv32Init (congrArg lowNine heq)
  · simp

-- in one hash alone an even number of such bytes can cancel out
example : hashFnv1_32 signed [0x61, 0xda, 0xa9] = hashFnv1_32 unsigned [0x61, 0xda, 0xa9] := by
  decide +kernel

/-- A key with an odd number of high bytes hashes differently under some hash. -/
theorem not_same_of_odd {key : List UInt8} (hodd : highBytes key % 2 = 1) :
    ¬ SameOnPlatforms key := by
  intro hsame
  exact fnv_ne_of_odd hodd hashFnv1_32 (by simp) (hsame hashFnv1_32 (by simp [routingHashes]))

/-- The first byte from 128 on makes a difference to the key that it ends. -/
theorem ascii_of_prefixes_same {key : List UInt8}
    (h : ∀ start, start <+: key → SameOnPlatforms start) : ∀ c ∈ key, c < 128 := by
  induction key using List.reverseRecOn with
  | nil => simp
  | append_singleton key c ih =>
      have hkey := ih fun start hstart => h start (hstart.trans (List.prefix_append _ _))
      have hzero : highBytes key = 0 := by
        rw [highBytes, List.countP_eq_zero]
        intro d hd
        simpa using hkey d hd
      have hc : c < 128 := by
        by_contra hge
        have hone : highBytes (key ++ [c]) = 1 := by
          rw [highBytes, List.countP_append, ← highBytes, hzero]
          simpa using hge
        exact not_same_of_odd (by rw [hone]) (h _ (List.prefix_refl _))
      intro d hd
      rcases List.mem_append.mp hd with hd | hd
      · exact hkey d hd
      · rw [List.mem_singleton.mp hd]
        exact hc

/-- The routing hashes are the same on both platforms, at every step of the loop over the key, if
and only if all its bytes are below 128. On a key with an odd number of other bytes some of them
differ. -/
theorem same_on_platforms_iff (key : List UInt8) :
    ((∀ start, start <+: key → SameOnPlatforms start) ↔ ∀ c ∈ key, c < 128) ∧
      ((∀ c ∈ key, c < 128) → SameOnPlatforms key) ∧
      (highBytes key % 2 = 1 → ¬ SameOnPlatforms key) := by
  refine ⟨⟨ascii_of_prefixes_same, fun hkey start hstart => ?_⟩, same_of_ascii, not_same_of_odd⟩
  exact same_of_ascii fun c hc => hkey c (hstart.subset hc)

/-- The key `aé` in UTF-8. -/
theorem a_e_acute_platforms :
    (∀ hash ∈ routingHashes.take 6,
      hash .signed [0x61, 0xc3, 0xa9] ≠ hash .unsigned [0x61, 0xc3, 0xa9]) ∧
      ¬ ∀ key : List UInt8, 0 ∉ key → SameOnPlatforms key := by
  have hdiffer : ∀ hash ∈ routingHashes.take 6,
      hash .signed [0x61, 0xc3, 0xa9] ≠ hash .unsigned [0x61, 0xc3, 0xa9] := by decide +kernel
  refine ⟨hdiffer, fun h => ?_⟩
  exact hdiffer hashOneAtATime (by simp [routingHashes])
    (h [0x61, 0xc3, 0xa9] (by simp) hashOneAtATime (by simp [routingHashes]))

end DynocClient
