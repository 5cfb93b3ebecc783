import DynocClient.Setup.Basic

/-!
# The hashes that go byte by byte

The functions of `hash-one-at-a-time.c`, `hash-fnv.c` and `hash-hsieh.c`. They read the key as
plain chars, and whether `char` is signed is the platform's choice, so it is a parameter here. A
byte below 128 is widened in the same way on all platforms.
-/

namespace DynocClient

/-- What plain `char` is: signed with gcc for x86-64, unsigned with gcc for ARM. -/
inductive CharSign where
  | signed
  | unsigned
  deriving DecidableEq, Repr

namespace CharSign

/-- `(uint32_t)` of a `char`. -/
def toUInt32 : CharSign → UInt8 → UInt32
  | .signed, c => c.toInt8.toInt32.toUInt32
  | .unsigned, c => c.toUInt32

/-- `(uint64_t)` of a `char`. -/
def toUInt64 : CharSign → UInt8 → UInt64
  | .signed, c => c.toInt8.toInt64.toUInt64
  | .unsigned, c => c.toUInt64

end CharSign

/-- A fact about every byte is checked on all of them. -/
theorem forall_byte {P : UInt8 → Prop} (h : ∀ n : Fin 256, P (UInt8.ofNat n)) (c : UInt8) :
    P c := by
  have hc := h ⟨c.toNat, c.toNat_lt⟩
  rwa [UInt8.ofNat_toNat] at hc

/-- The sign extension of a byte fills the bits from 8 on with its highest bit. -/
theorem signed_to_uint32 (c : UInt8) :
    CharSign.signed.toUInt32 c = if c < 128 then c.toUInt32 else c.toUInt32 + 0xffffff00 :=
  forall_byte (P := fun c => CharSign.signed.toUInt32 c =
    if c < 128 then c.toUInt32 else c.toUInt32 + 0xffffff00) (by decide +kernel) c

/-- A signed character from 128 on is extended with ones. -/
theorem signed_to_uint64 (c : UInt8) :
    CharSign.signed.toUInt64 c =
      if c < 128 then c.toUInt64 else c.toUInt64 + 0xffffffffffffff00 :=
  forall_byte (P := fun c => CharSign.signed.toUInt64 c =
    if c < 128 then c.toUInt64 else c.toUInt64 + 0xffffffffffffff00) (by decide +kernel) c

/-! ## `hash-one-at-a-time.c` -/

/-- The body of the loop. -/
def oneAtATimeStep (char : CharSign) (value : UInt32) (c : UInt8) : UInt32 :=
  let value := value + char.toUInt32 c
  let value := value + value <<< 10
  value ^^^ value >>> 6

/-- `hash_one_at_a_time`. -/
def hashOneAtATime (char : CharSign) : HashFunc := fun key =>
  let value := key.foldl (oneAtATimeStep char) 0
  let value := value + value <<< 3
  let value := value ^^^ value >>> 11
  value + value <<< 15

/-! ## `hash-fnv.c` -/

/-- `FNV_64_INIT`. -/
def fnv64Init : UInt64 := 0xcbf29ce484222325

/-- `FNV_64_PRIME`. -/
def fnv64Prime : UInt64 := 0x100000001b3

/-- `FNV_32_INIT`. -/
def fnv32Init : UInt32 := 2166136261

/-- `FNV_32_PRIME`. -/
def fnv32Prime : UInt32 := 16777619

/-- The body of the loop of `hash_fnv1_64`. -/
def fnv1Step64 (char : CharSign) (hash : UInt64) (c : UInt8) : UInt64 :=
  hash * fnv64Prime ^^^ char.toUInt64 c

/-- `hash_fnv1_64`. -/
def hashFnv1_64 (char : CharSign) : HashFunc := fun key =>
  (key.foldl (fnv1Step64 char) fnv64Init).toUInt32

/-- The body of the loops of `hash_fnv1a_64` and `hash_fnv1a_32`, both on 32 bits. -/
def fnv1aStep (prime : UInt32) (char : CharSign) (hash : UInt32) (c : UInt8) : UInt32 :=
  (hash ^^^ char.toUInt32 c) * prime

/-- `hash_fnv1a_64`. -/
def hashFnv1a_64 (char : CharSign) : HashFunc := fun key =>
  key.foldl (fnv1aStep fnv64Prime.toUInt32 char) fnv64Init.toUInt32

/-- The body of the loop of `hash_fnv1_32`. -/
def fnv1Step (char : CharSign) (hash : UInt32) (c : UInt8) : UInt32 :=
  hash * fnv32Prime ^^^ char.toUInt32 c

/-- `hash_fnv1_32`. -/
def hashFnv1_32 (char : CharSign) : HashFunc := fun key =>
  key.foldl (fnv1Step char) fnv32Init

/-- `hash_fnv1a_32`. -/
def hashFnv1a_32 (char : CharSign) : HashFunc := fun key =>
  key.foldl (fnv1aStep fnv32Prime char) fnv32Init

/-- A char that is widened to 64 bits and cut has the value it has in 32 bits. -/
theorem to_uint64_to_uint32 (char : CharSign) (c : UInt8) :
    (char.toUInt64 c).toUInt32 = char.toUInt32 c :=
  forall_byte (P := fun c => (char.toUInt64 c).toUInt32 = char.toUInt32 c)
    (by cases char <;> decide +kernel) c

/-- The low half of the state of `hash_fnv1_64` goes its own way. -/
theorem fnv1_step64_low (char : CharSign) (hash : UInt64) (c : UInt8) :
    (fnv1Step64 char hash c).toUInt32 =
      hash.toUInt32 * fnv64Prime.toUInt32 ^^^ char.toUInt32 c := by
  rw [fnv1Step64, UInt64.toUInt32_xor, UInt64.toUInt32_mul, to_uint64_to_uint32]

/-- The body of a loop of FNV-1a on a full 64-bit state. -/
def fnv1aStep64 (char : CharSign) (hash : UInt64) (c : UInt8) : UInt64 :=
  (hash ^^^ char.toUInt64 c) * fnv64Prime

/-- The low half of a 64-bit step is a step of the low half. -/
theorem fnv1a_step64_low (char : CharSign) (hash : UInt64) (c : UInt8) :
    (fnv1aStep64 char hash c).toUInt32 = fnv1aStep fnv64Prime.toUInt32 char hash.toUInt32 c := by
  rw [fnv1aStep64, UInt64.toUInt32_mul, UInt64.toUInt32_xor, to_uint64_to_uint32, fnv1aStep]

/-- The 32 bits `hash_fnv1a_64` keeps are the low half of the 64-bit FNV-1a. -/
theorem hash_fnv1a_64_exact (char : CharSign) (key : List UInt8) :
    hashFnv1a_64 char key = (key.foldl (fnv1aStep64 char) fnv64Init).toUInt32 :=
  List.foldl_hom UInt64.toUInt32 fun hash c => (fnv1a_step64_low char hash c).symm

/-! ## `hash-hsieh.c` -/

/-- `get16bits`, of the two bytes it reads. -/
def get16bits (d0 d1 : UInt8) : UInt32 := d1.toUInt32 <<< 8 + d0.toUInt32

/-- The body of the main loop. -/
def hsiehBlock (hash : UInt32) (k0 k1 k2 k3 : UInt8) : UInt32 :=
  let hash := hash + get16bits k0 k1
  let tmp := get16bits k2 k3 <<< 11 ^^^ hash
  let hash := hash <<< 16 ^^^ tmp
  hash + hash >>> 11

/-- The main loop over the blocks of four, and the end cases. Only the end case of three bytes
reads one of them as a plain char. -/
def hsiehLoop (char : CharSign) : UInt32 → List UInt8 → UInt32
  | hash, k0 :: k1 :: k2 :: k3 :: key => hsiehLoop char (hsiehBlock hash k0 k1 k2 k3) key
  | hash, [k0, k1, k2] =>
      let hash := hash + get16bits k0 k1
      let hash := hash ^^^ hash <<< 16
      let hash := hash ^^^ char.toUInt32 k2 <<< 18
      hash + hash >>> 11
  | hash, [k0, k1] =>
      let hash := hash + get16bits k0 k1
      let hash := hash ^^^ hash <<< 11
      hash + hash >>> 17
  | hash, [k0] =>
      let hash := hash + k0.toUInt32
      let hash := hash ^^^ hash <<< 10
      hash + hash >>> 1
  | hash, [] => hash

/-- The avalanching of the last bits. -/
def hsiehAvalanche (hash : UInt32) : UInt32 :=
  let hash := hash ^^^ hash <<< 3
  let hash := hash + hash >>> 5
  let hash := hash ^^^ hash <<< 4
  let hash := hash + hash >>> 17
  let hash := hash ^^^ hash <<< 25
  hash + hash >>> 6

/-- `hash_hsieh`. -/
def hashHsieh (char : CharSign) : HashFunc := fun key =>
  if key = [] then 0 else hsiehAvalanche (hsiehLoop char 0 key)

end DynocClient
