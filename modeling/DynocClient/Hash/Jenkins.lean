import DynocClient.Lib.Memory
import DynocClient.Setup.Basic

/-!
# `hash_jenkins`

The function of `hash-jenkins.c`, as a little-endian machine compiles it. It reads the key in
words, in halfwords or byte by byte, as the key's address allows, with a block loop and a switch
written out for each. `jenkinsOf` is the hash as a function of the key's bytes.
-/

namespace DynocClient

open Lib

/-! ## The macros -/

/-- `a`, `b` and `c`. -/
structure JenkinsState where
  a : UInt32
  b : UInt32
  c : UInt32
  deriving DecidableEq

/-- `rot`. -/
def rot (x k : UInt32) : UInt32 := (x <<< k) ||| (x >>> (32 - k))

/-- `mix`. -/
def mix (s : JenkinsState) : JenkinsState :=
  let ⟨a, b, c⟩ := s
  let a := a - c; let a := a ^^^ rot c 4; let c := c + b
  let b := b - a; let b := b ^^^ rot a 6; let a := a + c
  let c := c - b; let c := c ^^^ rot b 8; let b := b + a
  let a := a - c; let a := a ^^^ rot c 16; let c := c + b
  let b := b - a; let b := b ^^^ rot a 19; let a := a + c
  let c := c - b; let c := c ^^^ rot b 4; let b := b + a
  ⟨a, b, c⟩

/-- `final`. -/
def final (s : JenkinsState) : JenkinsState :=
  let ⟨a, b, c⟩ := s
  let c := c ^^^ b; let c := c - rot b 14
  let a := a ^^^ c; let a := a - rot c 11
  let b := b ^^^ a; let b := b - rot a 25
  let c := c ^^^ b; let c := c - rot b 16
  let a := a ^^^ c; let a := a - rot c 4
  let b := b ^^^ a; let b := b - rot a 14
  let c := c ^^^ b; let c := c - rot b 24
  ⟨a, b, c⟩

/-- `JENKINS_INITVAL`. -/
def jenkinsInitval : UInt32 := 13

/-- The state before the first block. -/
def jenkinsInit (length : Nat) : JenkinsState :=
  let a : UInt32 := 0xdeadbeef + UInt32.ofNat length + jenkinsInitval
  ⟨a, a, a⟩

/-! ## The three ways to read a key -/

/-- How one of the three branches adds a full block, and its switch over what is left. The switch
gives nothing where it returns `c`. -/
structure JenkinsReads where
  block : Nat → JenkinsState → JenkinsState
  tail : Nat → Nat → JenkinsState → Option JenkinsState

/-- The branch for a key at a multiple of four. `k` is the address of `k[0]`. -/
def wordReads (memory : Memory) : JenkinsReads where
  block k s :=
    ⟨s.a + memory.load32 k, s.b + memory.load32 (k + 4), s.c + memory.load32 (k + 8)⟩
  tail k length s :=
    let ⟨a, b, c⟩ := s
    let k0 := memory.load32 k
    let k1 := memory.load32 (k + 4)
    let k2 := memory.load32 (k + 8)
    match length with
    | 12 => some ⟨a + k0, b + k1, c + k2⟩
    | 11 => some ⟨a + k0, b + k1, c + (k2 &&& 0xffffff)⟩
    | 10 => some ⟨a + k0, b + k1, c + (k2 &&& 0xffff)⟩
    | 9 => some ⟨a + k0, b + k1, c + (k2 &&& 0xff)⟩
    | 8 => some ⟨a + k0, b + k1, c⟩
    | 7 => some ⟨a + k0, b + (k1 &&& 0xffffff), c⟩
    | 6 => some ⟨a + k0, b + (k1 &&& 0xffff), c⟩
    | 5 => some ⟨a + k0, b + (k1 &&& 0xff), c⟩
    | 4 => some ⟨a + k0, b, c⟩
    | 3 => some ⟨a + (k0 &&& 0xffffff), b, c⟩
    | 2 => some ⟨a + (k0 &&& 0xffff), b, c⟩
    | 1 => some ⟨a + (k0 &&& 0xff), b, c⟩
    | _ => none

/-- `k[i]` of the second branch, widened. -/
def half (memory : Memory) (k i : Nat) : UInt32 := (memory.load16 (k + 2 * i)).toUInt32

/-- The switch of the second branch. Its odd cases add the odd byte and fall through. -/
def halfTail (memory : Memory) (k : Nat) : Nat → JenkinsState → Option JenkinsState
  | 12, ⟨a, b, c⟩ =>
      some ⟨a + (half memory k 0 + half memory k 1 <<< 16),
        b + (half memory k 2 + half memory k 3 <<< 16),
        c + (half memory k 4 + half memory k 5 <<< 16)⟩
  | 11, ⟨a, b, c⟩ => halfTail memory k 10 ⟨a, b, c + (memory.byte (k + 10)).toUInt32 <<< 16⟩
  | 10, ⟨a, b, c⟩ =>
      some ⟨a + (half memory k 0 + half memory k 1 <<< 16),
        b + (half memory k 2 + half memory k 3 <<< 16),
        c + half memory k 4⟩
  | 9, ⟨a, b, c⟩ => halfTail memory k 8 ⟨a, b, c + (memory.byte (k + 8)).toUInt32⟩
  | 8, ⟨a, b, c⟩ =>
      some ⟨a + (half memory k 0 + half memory k 1 <<< 16),
        b + (half memory k 2 + half memory k 3 <<< 16), c⟩
  | 7, ⟨a, b, c⟩ => halfTail memory k 6 ⟨a, b + (memory.byte (k + 6)).toUInt32 <<< 16, c⟩
  | 6, ⟨a, b, c⟩ =>
      some ⟨a + (half memory k 0 + half memory k 1 <<< 16), b + half memory k 2, c⟩
  | 5, ⟨a, b, c⟩ => halfTail memory k 4 ⟨a, b + (memory.byte (k + 4)).toUInt32, c⟩
  | 4, ⟨a, b, c⟩ => some ⟨a + (half memory k 0 + half memory k 1 <<< 16), b, c⟩
  | 3, ⟨a, b, c⟩ => halfTail memory k 2 ⟨a + (memory.byte (k + 2)).toUInt32 <<< 16, b, c⟩
  | 2, ⟨a, b, c⟩ => some ⟨a + half memory k 0, b, c⟩
  | 1, ⟨a, b, c⟩ => some ⟨a + (memory.byte k).toUInt32, b, c⟩
  | _, _ => none

/-- The branch for a key at an even address. -/
def halfReads (memory : Memory) : JenkinsReads where
  block k s :=
    ⟨s.a + (half memory k 0 + half memory k 1 <<< 16),
      s.b + (half memory k 2 + half memory k 3 <<< 16),
      s.c + (half memory k 4 + half memory k 5 <<< 16)⟩
  tail := halfTail memory

/-- The switch of the third branch. Every case falls through to the next. -/
def byteTail (memory : Memory) (k : Nat) : Nat → JenkinsState → Option JenkinsState
  | 12, ⟨a, b, c⟩ => byteTail memory k 11 ⟨a, b, c + (memory.byte (k + 11)).toUInt32 <<< 24⟩
  | 11, ⟨a, b, c⟩ => byteTail memory k 10 ⟨a, b, c + (memory.byte (k + 10)).toUInt32 <<< 16⟩
  | 10, ⟨a, b, c⟩ => byteTail memory k 9 ⟨a, b, c + (memory.byte (k + 9)).toUInt32 <<< 8⟩
  | 9, ⟨a, b, c⟩ => byteTail memory k 8 ⟨a, b, c + (memory.byte (k + 8)).toUInt32⟩
  | 8, ⟨a, b, c⟩ => byteTail memory k 7 ⟨a, b + (memory.byte (k + 7)).toUInt32 <<< 24, c⟩
  | 7, ⟨a, b, c⟩ => byteTail memory k 6 ⟨a, b + (memory.byte (k + 6)).toUInt32 <<< 16, c⟩
  | 6, ⟨a, b, c⟩ => byteTail memory k 5 ⟨a, b + (memory.byte (k + 5)).toUInt32 <<< 8, c⟩
  | 5, ⟨a, b, c⟩ => byteTail memory k 4 ⟨a, b + (memory.byte (k + 4)).toUInt32, c⟩
  | 4, ⟨a, b, c⟩ => byteTail memory k 3 ⟨a + (memory.byte (k + 3)).toUInt32 <<< 24, b, c⟩
  | 3, ⟨a, b, c⟩ => byteTail memory k 2 ⟨a + (memory.byte (k + 2)).toUInt32 <<< 16, b, c⟩
  | 2, ⟨a, b, c⟩ => byteTail memory k 1 ⟨a + (memory.byte (k + 1)).toUInt32 <<< 8, b, c⟩
  | 1, ⟨a, b, c⟩ => some ⟨a + (memory.byte k).toUInt32, b, c⟩
  | _, _ => none

/-- The branch for a key at an odd address. -/
def byteReads (memory : Memory) : JenkinsReads where
  block k s :=
    let ⟨a, b, c⟩ := s
    let a := a + (memory.byte k).toUInt32
    let a := a + (memory.byte (k + 1)).toUInt32 <<< 8
    let a := a + (memory.byte (k + 2)).toUInt32 <<< 16
    let a := a + (memory.byte (k + 3)).toUInt32 <<< 24
    let b := b + (memory.byte (k + 4)).toUInt32
    let b := b + (memory.byte (k + 5)).toUInt32 <<< 8
    let b := b + (memory.byte (k + 6)).toUInt32 <<< 16
    let b := b + (memory.byte (k + 7)).toUInt32 <<< 24
    let c := c + (memory.byte (k + 8)).toUInt32
    let c := c + (memory.byte (k + 9)).toUInt32 <<< 8
    let c := c + (memory.byte (k + 10)).toUInt32 <<< 16
    let c := c + (memory.byte (k + 11)).toUInt32 <<< 24
    ⟨a, b, c⟩
  tail := byteTail memory

/-- A branch, from its `while` loop to the end of the function. -/
def jenkinsBranch (reads : JenkinsReads) (k length : Nat) (s : JenkinsState) : UInt32 :=
  if length > 12 then jenkinsBranch reads (k + 12) (length - 12) (mix (reads.block k s))
  else
    match reads.tail k length s with
    | some s => (final s).c
    | none => s.c
termination_by length

/-- `hash_jenkins` of the key at an address. -/
def hashJenkins (memory : Memory) (key length : Nat) : UInt32 :=
  let s := jenkinsInit length
  if key &&& 0x3 = 0 then jenkinsBranch (wordReads memory) key length s
  else if key &&& 0x1 = 0 then jenkinsBranch (halfReads memory) key length s
  else jenkinsBranch (byteReads memory) key length s

/-! ## The hash of a byte string -/

/-- Add at most twelve bytes to the state, as three words of which the last ones may be short. -/
def absorb (block : List UInt8) (s : JenkinsState) : JenkinsState :=
  ⟨s.a + littleWord (block.take 4), s.b + littleWord ((block.drop 4).take 4),
    s.c + littleWord ((block.drop 8).take 4)⟩

/-- Mix all blocks but the last, which goes through `final` unless it is empty. -/
def jenkinsBlocks (key : List UInt8) (s : JenkinsState) : UInt32 :=
  if 12 < key.length then jenkinsBlocks (key.drop 12) (mix (absorb (key.take 12) s))
  else if key = [] then s.c
  else (final (absorb key s)).c
termination_by key.length

/-- The hash of a key. -/
def jenkinsOf : HashFunc := fun key => jenkinsBlocks key (jenkinsInit key.length)

/-! ## The reads -/

/-- The reads add what stands between `k` and `k + 12`, byte for byte, and the switch the same for
a shorter last block. -/
structure JenkinsReads.Exact (reads : JenkinsReads) (memory : Memory) : Prop where
  block : ∀ k s, reads.block k s = absorb (memory.bytes k 12) s
  tail_empty : ∀ k s, reads.tail k 0 s = none
  tail : ∀ k n s, n < 12 → reads.tail k (n + 1) s = some (absorb (memory.bytes k (n + 1)) s)

section Reads

variable (memory : Memory) (k : Nat)

/-- The words of a range are added to the three registers in turn. -/
theorem absorb_bytes (n : Nat) (s : JenkinsState) :
    absorb (memory.bytes k n) s = ⟨s.a + littleWord (memory.bytes k (min 4 n)),
      s.b + littleWord (memory.bytes (k + 4) (min 4 (n - 4))),
      s.c + littleWord (memory.bytes (k + 8) (min 4 (n - 8)))⟩ := by
  simp only [absorb, Memory.bytes_take, Memory.bytes_drop]

/-- The word path reads what the bytes say. -/
theorem word_reads_exact : (wordReads memory).Exact memory where
  block k s := by simp [absorb_bytes, wordReads, Memory.load32_eq]
  tail_empty k s := rfl
  tail k n s h := by
    rw [absorb_bytes]
    -- a case of the switch masks the word in which the key ends
    interval_cases n <;> simp [wordReads, Memory.load32_eq]

/-! ### Halfwords -/

/-- Each half word is the value of its two bytes. -/
theorem half_eq (i : Nat) : half memory k i = littleWord (memory.bytes (k + 2 * i) 2) :=
  memory.load16_to_word (k + 2 * i)

/-- Two halfwords make a word. -/
theorem half_add_half (i : Nat) :
    half memory k i + half memory k (i + 1) <<< 16 = littleWord (memory.bytes (k + 2 * i) 4) := by
  rw [half_eq, half_eq]
  exact (memory.little_word_add (k + 2 * i) (show 2 + 2 ≤ 4 by omega)).symm

/-- An odd case of the switch adds the byte first and then the halfword before it. -/
theorem add_byte_half (i : Nat) (x : UInt32) :
    x + (memory.byte (k + (2 * i + 2))).toUInt32 <<< 16 + half memory k i =
      x + littleWord (memory.bytes (k + 2 * i) 3) := by
  rw [half_eq, memory.little_word_add (k + 2 * i) (show 2 + 1 ≤ 4 by omega),
    memory.little_word_one, UInt32.add_assoc, UInt32.add_comm (littleWord _)]
  rfl

/-- The half-word path reads what the bytes say. -/
theorem half_reads_exact : (halfReads memory).Exact memory where
  block k s := by
    rw [absorb_bytes]
    simp only [halfReads, half_add_half]
    rfl
  tail_empty k s := by
    obtain ⟨a, b, c⟩ := s
    simp [halfReads, halfTail]
  tail k n s h := by
    obtain ⟨a, b, c⟩ := s
    have ha := half_add_half memory k 0
    have hb := half_add_half memory k 2
    have hc := half_add_half memory k 4
    have hodd2 := add_byte_half memory k 0
    have hodd6 := add_byte_half memory k 2
    have hodd10 := add_byte_half memory k 4
    simp only [Nat.mul_zero, Nat.zero_add, Nat.add_zero, Nat.reduceMul, Nat.reduceAdd] at *
    rw [absorb_bytes]
    interval_cases n <;>
      simp [halfReads, halfTail, ha, hb, hc, hodd2, hodd6, hodd10, memory.little_word_one] <;>
      exact half_eq memory k _

/-! ### Bytes -/

/-- Two bytes as the byte path adds them. -/
theorem word_two : littleWord (memory.bytes k 2) =
    (memory.byte k).toUInt32 + (memory.byte (k + 1)).toUInt32 <<< 8 := by
  rw [memory.little_word_add k (show 1 + 1 ≤ 4 by omega), memory.little_word_one,
    memory.little_word_one]
  rfl

/-- Three bytes as the byte path adds them. -/
theorem word_three : littleWord (memory.bytes k 3) =
    littleWord (memory.bytes k 2) + (memory.byte (k + 2)).toUInt32 <<< 16 := by
  rw [memory.little_word_add k (show 2 + 1 ≤ 4 by omega), memory.little_word_one]
  rfl

/-- Four bytes as the byte path adds them. -/
theorem word_four : littleWord (memory.bytes k 4) =
    littleWord (memory.bytes k 3) + (memory.byte (k + 3)).toUInt32 <<< 24 := by
  rw [memory.little_word_add k (show 3 + 1 ≤ 4 by omega), memory.little_word_one]
  rfl

/-- The last case of four that fall through adds the bytes of a word, the last one first. -/
theorem byte_tail_a {n : Nat} (h : n < 4) (a b c : UInt32) :
    byteTail memory k (n + 1) ⟨a, b, c⟩ =
      some ⟨a + littleWord (memory.bytes k (n + 1)), b, c⟩ := by
  interval_cases n <;>
    simp [byteTail, word_four, word_three, word_two, memory.little_word_one] <;> grind

/-- The cases 5 to 8 of the byte path fill `a` and add to `b`. -/
theorem byte_tail_b {n : Nat} (h : n < 4) (a b c : UInt32) :
    byteTail memory k (n + 5) ⟨a, b, c⟩ =
      some ⟨a + littleWord (memory.bytes k 4), b + littleWord (memory.bytes (k + 4) (n + 1)),
        c⟩ := by
  have ha := byte_tail_a memory k (n := 3) (by omega)
  interval_cases n <;>
    simp [byteTail, ha, word_four memory (k + 4), word_three memory (k + 4),
      word_two memory (k + 4), memory.little_word_one, Nat.add_assoc] <;> grind

/-- The cases 9 to 12 of the byte path fill `a` and `b` and add to `c`. -/
theorem byte_tail_c {n : Nat} (h : n < 4) (a b c : UInt32) :
    byteTail memory k (n + 9) ⟨a, b, c⟩ =
      some ⟨a + littleWord (memory.bytes k 4), b + littleWord (memory.bytes (k + 4) 4),
        c + littleWord (memory.bytes (k + 8) (n + 1))⟩ := by
  have hb := byte_tail_b memory k (n := 3) (by omega)
  interval_cases n <;>
    simp [byteTail, hb, word_four memory (k + 8), word_three memory (k + 8),
      word_two memory (k + 8), memory.little_word_one, Nat.add_assoc] <;> grind

/-- The byte path reads what the bytes say. -/
theorem byte_reads_exact : (byteReads memory).Exact memory where
  block k s := by
    rw [absorb_bytes]
    simp [byteReads, word_four, word_three, word_two, UInt32.add_assoc, Nat.add_assoc]
  tail_empty k s := by
    obtain ⟨a, b, c⟩ := s
    simp [byteReads, byteTail]
  tail k n s h := by
    obtain ⟨a, b, c⟩ := s
    rw [absorb_bytes]
    show byteTail memory k (n + 1) ⟨a, b, c⟩ = _
    -- by the word in which the key ends
    by_cases ha : n < 4
    · rw [byte_tail_a memory k ha, show min 4 (n + 1) = n + 1 by omega,
        show n + 1 - 4 = 0 by omega, show n + 1 - 8 = 0 by omega]
      simp
    by_cases hb : n < 8
    · obtain ⟨m, rfl⟩ := Nat.exists_eq_add_of_le (show 4 ≤ n by omega)
      rw [show 4 + m + 1 = m + 5 by omega, byte_tail_b memory k (by omega),
        show min 4 (m + 5) = 4 by omega, show min 4 (m + 5 - 4) = m + 1 by omega,
        show m + 5 - 8 = 0 by omega]
      simp
    · obtain ⟨m, rfl⟩ := Nat.exists_eq_add_of_le (show 8 ≤ n by omega)
      rw [show 8 + m + 1 = m + 9 by omega, byte_tail_c memory k (by omega),
        show min 4 (m + 9) = 4 by omega, show min 4 (m + 9 - 4) = 4 by omega,
        show min 4 (m + 9 - 8) = m + 1 by omega]

/-! ## Where the key lies -/

variable {memory}

/-- A branch that reads exactly hashes the bytes of the key. -/
theorem jenkins_branch_eq {reads : JenkinsReads} (hreads : reads.Exact memory) (k length : Nat)
    (s : JenkinsState) :
    jenkinsBranch reads k length s = jenkinsBlocks (memory.bytes k length) s := by
  by_cases hlong : 12 < length
  · have htake : (memory.bytes k length).take 12 = memory.bytes k 12 := by
      rw [Memory.bytes_take, show min 12 length = 12 by omega]
    have ih := jenkins_branch_eq hreads (k + 12) (length - 12) (mix (reads.block k s))
    rw [jenkinsBranch, if_pos hlong, ih, hreads.block, jenkinsBlocks.eq_def (memory.bytes k length),
      Memory.bytes_length, if_pos hlong, htake, Memory.bytes_drop]
  · rw [jenkinsBranch, if_neg hlong, jenkinsBlocks, Memory.bytes_length, if_neg hlong]
    cases length with
    | zero => simp [hreads.tail_empty]
    | succ n =>
        rw [hreads.tail k n s (by omega), if_neg (by simp [Memory.bytes])]
termination_by length

end Reads

/-- The three branches of `hash_jenkins` give the same value for a key, wherever it lies and
whatever follows it: the hash of the key's bytes. -/
theorem hash_jenkins_bytes (memory : Memory) (key length : Nat) :
    jenkinsBranch (wordReads memory) key length (jenkinsInit length) =
        jenkinsOf (memory.bytes key length) ∧
      jenkinsBranch (halfReads memory) key length (jenkinsInit length) =
        jenkinsOf (memory.bytes key length) ∧
      jenkinsBranch (byteReads memory) key length (jenkinsInit length) =
        jenkinsOf (memory.bytes key length) ∧
      hashJenkins memory key length = jenkinsOf (memory.bytes key length) := by
  have hword := jenkins_branch_eq (word_reads_exact memory) key length (jenkinsInit length)
  have hhalf := jenkins_branch_eq (half_reads_exact memory) key length (jenkinsInit length)
  have hbyte := jenkins_branch_eq (byte_reads_exact memory) key length (jenkinsInit length)
  have hof : jenkinsOf (memory.bytes key length) =
      jenkinsBlocks (memory.bytes key length) (jenkinsInit length) := by
    simp only [jenkinsOf, Memory.bytes_length]
  rw [hof]
  refine ⟨hword, hhalf, hbyte, ?_⟩
  unfold hashJenkins
  -- whichever branch the address chooses
  split
  · exact hword
  · split
    · exact hhalf
    · exact hbyte

end DynocClient
