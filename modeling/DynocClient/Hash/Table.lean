import DynocClient.Hash.Digest
import DynocClient.Hash.Jenkins
import DynocClient.Hash.Murmur
import DynocClient.Hash.Platforms

/-!
# `HASH_CODEC`

The table of the hash functions with their names (`dynoc-hashkit.h`, `dynoc-hashkit.c`), as it is
on a little-endian platform. A platform chooses the sign of `char` and finds the key and the MD5
context where they happen to lie; on a key of bytes below 128 none of this shows
(`hash_algos_same`).
-/

namespace DynocClient

open Lib CharSign

/-! ## The functions -/

/-- `hash_murmur3`, which does not look at the key. -/
def hashMurmur3 : HashFunc := fun _ => 0

/-- Where a key lies, and in what memory. -/
structure Placement (key : List UInt8) where
  memory : Memory
  address : Nat
  holds : memory.bytes address key.length = key

/-- A memory with a key from an address on and zeros after it. -/
def keyMemory (key : List UInt8) (address : Nat) : Memory := fun a =>
  (key[a - address]?).getD 0

/-- The memory of a key has its bytes at their place. -/
theorem key_memory_bytes (key : List UInt8) (address : Nat) {k n : Nat}
    (h : k + n ≤ key.length) :
    (keyMemory key address).bytes (address + k) n = (key.drop k).take n := by
  induction n generalizing k with
  | zero => rw [Memory.bytes_zero, List.take_zero]
  | succ n ih =>
      have hlt : k < key.length := by omega
      have hbyte : (keyMemory key address).byte (address + k) = key[k] := by
        show (key[address + k - address]?).getD 0 = key[k]
        rw [Nat.add_sub_cancel_left, List.getElem?_eq_getElem hlt, Option.getD_some]
      rw [Memory.bytes, hbyte, Nat.add_assoc, ih (by omega), List.drop_eq_getElem_cons hlt,
        List.take_succ_cons]

/-- The key at the address in such a memory. -/
def Placement.atAddress (key : List UInt8) (address : Nat) : Placement key where
  memory := keyMemory key address
  address := address
  holds := by
    have hbytes := key_memory_bytes key address (k := 0) (n := key.length) (by omega)
    rwa [List.drop_zero, List.take_length] at hbytes

/-- What the hash functions see of a little-endian platform: the sign of `char`, the old content of
the context on the stack of `hash_md5`, and the place of the key. -/
structure Platform where
  char : CharSign
  stack : Md5Ctx
  place : (key : List UInt8) → Placement key

/-- `hash_algos`; it has no function for `HASH_INVALID`, and `get_hash_func` does not look there. -/
def hashAlgos (platform : Platform) : HashType → HashFunc
  | .oneAtATime => hashOneAtATime platform.char
  | .md5 => hashMd5 platform.stack
  | .crc16 => hashCrc16 platform.char
  | .crc32 => hashCrc32 platform.char
  | .crc32a => hashCrc32a
  | .fnv1_64 => hashFnv1_64 platform.char
  | .fnv1a_64 => hashFnv1a_64 platform.char
  | .fnv1_32 => hashFnv1_32 platform.char
  | .fnv1a_32 => hashFnv1a_32 platform.char
  | .hsieh => hashHsieh platform.char
  | .murmur => hashMurmur .little
  | .jenkins => fun key =>
      hashJenkins (platform.place key).memory (platform.place key).address key.length
  | .murmur3 => hashMurmur3
  | .invalid => fun _ => 0

/-! ## The names -/

/-- The types in the order of `HASH_CODEC`. -/
def hashTypes : List HashType :=
  [.oneAtATime, .md5, .crc16, .crc32, .crc32a, .fnv1_64, .fnv1a_64, .fnv1_32, .fnv1a_32, .hsieh,
    .murmur, .jenkins, .murmur3]

/-- `hash_strings`. -/
def hashString : HashType → CString
  | .oneAtATime => .ofAscii "one_at_a_time"
  | .md5 => .ofAscii "md5"
  | .crc16 => .ofAscii "crc16"
  | .crc32 => .ofAscii "crc32"
  | .crc32a => .ofAscii "crc32a"
  | .fnv1_64 => .ofAscii "fnv1_64"
  | .fnv1a_64 => .ofAscii "fnv1a_64"
  | .fnv1_32 => .ofAscii "fnv1_32"
  | .fnv1a_32 => .ofAscii "fnv1a_32"
  | .hsieh => .ofAscii "hsieh"
  | .murmur => .ofAscii "murmur"
  | .jenkins => .ofAscii "jenkins"
  | .murmur3 => .ofAscii "murmur3"
  | .invalid => .ofAscii ""

/-- The loop of `get_hash_type` over the types that are left. -/
def getHashTypeLoop (hashName : CString) : List HashType → HashType
  | [] => .invalid
  | i :: rest => if hashString i ≠ hashName then getHashTypeLoop hashName rest else i

/-- `get_hash_type`. -/
def getHashType (hashName : CString) : HashType := getHashTypeLoop hashName hashTypes

/-- The type with the name. -/
def HashNamed (hashName : CString) (hashType : HashType) : Prop :=
  hashType ∈ hashTypes ∧ hashString hashType = hashName

/-- Every hash type but `INVALID` is one of these. -/
theorem mem_hash_types {hashType : HashType} : hashType ∈ hashTypes ↔ hashType ≠ .invalid := by
  cases hashType <;> decide

/-- No two types share a name. -/
theorem HashNamed.unique {hashName : CString} {hashType other : HashType}
    (h : HashNamed hashName hashType) (hother : HashNamed hashName other) : hashType = other := by
  have hnodup : (hashTypes.map hashString).Nodup := by decide +kernel
  exact List.inj_on_of_nodup_map hnodup h.1 hother.1 (h.2.trans hother.2.symm)

/-- The loop finds the first type of the name among those left, or none. -/
theorem get_hash_type_loop (hashName : CString) (rest : List HashType) :
    (getHashTypeLoop hashName rest ∈ rest ∧
        hashString (getHashTypeLoop hashName rest) = hashName) ∨
      (getHashTypeLoop hashName rest = .invalid ∧
        ∀ hashType ∈ rest, hashString hashType ≠ hashName) := by
  induction rest with
  | nil => exact .inr ⟨rfl, by simp⟩
  | cons i rest ih =>
      unfold getHashTypeLoop
      by_cases hname : hashString i = hashName
      · rw [if_neg (not_not_intro hname)]
        exact .inl ⟨List.mem_cons_self, hname⟩
      · rw [if_pos hname]
        rcases ih with ⟨hmem, hfound⟩ | ⟨hnone, hothers⟩
        · exact .inl ⟨List.mem_cons_of_mem i hmem, hfound⟩
        · exact .inr ⟨hnone, List.forall_mem_cons.mpr ⟨hname, hothers⟩⟩

/-- `get_hash_type` finds the type of a name. -/
theorem get_hash_type_named {hashName : CString} {hashType : HashType}
    (h : HashNamed hashName hashType) : getHashType hashName = hashType := by
  rcases get_hash_type_loop hashName hashTypes with hfound | ⟨-, hothers⟩
  · exact HashNamed.unique hfound h
  · exact absurd h.2 (hothers hashType h.1)

/-- It says `HASH_INVALID` for every other name. -/
theorem get_hash_type_unnamed {hashName : CString}
    (h : ¬ ∃ hashType, HashNamed hashName hashType) : getHashType hashName = .invalid := by
  rcases get_hash_type_loop hashName hashTypes with hfound | ⟨hnone, -⟩
  · exact absurd ⟨_, hfound⟩ h
  · exact hnone

/-! ## `dynoc_hash_type_init` -/

/-- `dynoc_hash_type_init`. -/
def dynocHashTypeInit (client : Client) (hashName : Option CString) : Client × Int :=
  match hashName with
  | none => (client, -1)
  | some hashName =>
      let hashType := getHashType hashName
      let hashType := if hashType = .invalid then .murmur else hashType
      ({ client with dynoc := { client.dynoc with hashType } }, 0)

/-! ## What a platform shows of itself -/

/-- The functions that read the chars of a key as numbers. -/
def charTypes : List HashType :=
  [.oneAtATime, .fnv1_64, .fnv1a_64, .fnv1_32, .fnv1a_32, .hsieh]

/-- Wherever the key lies, `hash_jenkins` depends on its bytes alone. -/
theorem hash_jenkins_placed {key : List UInt8} (place : Placement key) :
    hashJenkins place.memory place.address key.length = jenkinsOf key := by
  have hbranch : ∀ {reads : JenkinsReads}, reads.Exact place.memory →
      jenkinsBranch reads place.address key.length (jenkinsInit key.length) = jenkinsOf key := by
    intro reads hreads
    rw [jenkins_branch_eq hreads, place.holds]
    rfl
  unfold hashJenkins
  split
  · exact hbranch (word_reads_exact _)
  · split
    · exact hbranch (half_reads_exact _)
    · exact hbranch (byte_reads_exact _)

/-- Two platforms give a key the same hash, if its bytes are below 128 or the function does not
read chars as numbers. -/
theorem hash_algos_same (platform other : Platform) {hashType : HashType} {key : List UInt8}
    (h : hashType ∉ charTypes ∨ ∀ c ∈ key, c < 128) :
    hashAlgos platform hashType key = hashAlgos other hashType key := by
  by_cases hchar : hashType ∈ charTypes
  · have hkey := h.resolve_left (not_not_intro hchar)
    have hchars : ∀ hash ∈ routingHashes, hash platform.char key = hash other.char key := by
      intro hash hmem
      have hsame := same_of_ascii hkey hash hmem
      cases platform.char <;> cases other.char
      exacts [rfl, hsame, hsame.symm, rfl]
    simp only [charTypes, List.mem_cons, List.not_mem_nil, or_false] at hchar
    rcases hchar with rfl | rfl | rfl | rfl | rfl | rfl
    · exact hchars hashOneAtATime (by simp [routingHashes])
    · exact hchars hashFnv1_64 (by simp [routingHashes])
    · exact hchars hashFnv1a_64 (by simp [routingHashes])
    · exact hchars hashFnv1_32 (by simp [routingHashes])
    · exact hchars hashFnv1a_32 (by simp [routingHashes])
    · exact hchars hashHsieh (by simp [routingHashes])
  · cases hashType with
    | oneAtATime | fnv1_64 | fnv1a_64 | fnv1_32 | fnv1a_32 | hsieh =>
        exact absurd (by decide) hchar
    | md5 => exact hash_md5_stack _ _ _
    | crc16 => exact congrFun (hash_crc16_char _ _) key
    | crc32 => exact congrFun (hash_crc32_char _ _) key
    | jenkins =>
        exact (hash_jenkins_placed _).trans (hash_jenkins_placed _).symm
    | crc32a | murmur | murmur3 | invalid => rfl

end DynocClient
