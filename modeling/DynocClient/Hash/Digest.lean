import DynocClient.Hash.Md5

/-!
# The digest that `hash-md5.c` computes

`md5Digest` is MD5 as RFC 1321 describes it: the message is padded to whole blocks, each of which
goes through 64 operations. The code takes the message in pieces and its rounds are written out
with other formulas for `F` and `G`; `md5_pieces` says that it computes the same digest.
-/

namespace DynocClient

open Lib Streaming

/-! ## RFC 1321 -/

/-- A rotation to the left. -/
def rotateLeft (x : UInt32) (n : Nat) : UInt32 := ⟨x.toBitVec.rotateLeft n⟩

/-- The function of operation `i`. -/
def roundFunction (i : Nat) (x y z : UInt32) : UInt32 :=
  if i < 16 then x &&& y ||| ~~~x &&& z
  else if i < 32 then x &&& z ||| y &&& ~~~z
  else if i < 48 then x ^^^ y ^^^ z
  else y ^^^ (x ||| ~~~z)

/-- The word of the block that operation `i` adds. -/
def roundWord (i : Nat) : Nat :=
  if i < 16 then i
  else if i < 32 then (5 * i + 1) % 16
  else if i < 48 then (3 * i + 5) % 16
  else 7 * i % 16

/-- The rotation of operation `i`. -/
def roundShift (i : Nat) : Nat :=
  ([[7, 12, 17, 22], [5, 9, 14, 20], [4, 11, 16, 23], [6, 10, 15, 21]].getD (i / 16) []).getD
    (i % 4) 0

/-- The constants of the operations. -/
def sineTable : List UInt32 :=
  [0xd76aa478, 0xe8c7b756, 0x242070db, 0xc1bdceee, 0xf57c0faf, 0x4787c62a, 0xa8304613, 0xfd469501,
    0x698098d8, 0x8b44f7af, 0xffff5bb1, 0x895cd7be, 0x6b901122, 0xfd987193, 0xa679438e, 0x49b40821,
    0xf61e2562, 0xc040b340, 0x265e5a51, 0xe9b6c7aa, 0xd62f105d, 0x02441453, 0xd8a1e681, 0xe7d3fbc8,
    0x21e1cde6, 0xc33707d6, 0xf4d50d87, 0x455a14ed, 0xa9e3e905, 0xfcefa3f8, 0x676f02d9, 0x8d2a4c8a,
    0xfffa3942, 0x8771f681, 0x6d9d6122, 0xfde5380c, 0xa4beea44, 0x4bdecfa9, 0xf6bb4b60, 0xbebfbc70,
    0x289b7ec6, 0xeaa127fa, 0xd4ef3085, 0x04881d05, 0xd9d4d039, 0xe6db99e5, 0x1fa27cf8, 0xc4ac5665,
    0xf4292244, 0x432aff97, 0xab9423a7, 0xfc93a039, 0x655b59c3, 0x8f0ccc92, 0xffeff47d, 0x85845dd1,
    0x6fa87e4f, 0xfe2ce6e0, 0xa3014314, 0x4e0811a1, 0xf7537e82, 0xbd3af235, 0x2ad7d2bb, 0xeb86d391]

/-- An operation. The registers change places. -/
def operation (f : UInt32 → UInt32 → UInt32 → UInt32) (x t : UInt32) (s : Nat)
    (state : Md5State) : Md5State :=
  ⟨state.d, state.b + rotateLeft (state.a + f state.b state.c state.d + x + t) s, state.b, state.c⟩

/-- Operation `i` on a block. -/
def operationAt (block : List UInt8) (state : Md5State) (i : Nat) : Md5State :=
  operation (roundFunction i) (littleWord ((block.drop (4 * roundWord i)).take 4))
    (sineTable.getD i 0) (roundShift i) state

/-- All operations on a block, added to the registers. -/
def md5Compress (state : Md5State) (block : List UInt8) : Md5State :=
  let next := (List.range 64).foldl (operationAt block) state
  ⟨state.a + next.a, state.b + next.b, state.c + next.c, state.d + next.d⟩

/-- The padding of a message of this many bytes: a bit, zeros up to a block without its last eight
bytes, and in those the number of bits of the message, the lowest byte first. -/
def md5Padding (length : Nat) : List UInt8 :=
  0x80 :: List.replicate ((119 - length % 64) % 64) 0 ++
    (List.range 8).map fun i => UInt8.ofNat (8 * length / 256 ^ i)

/-- The MD5 digest of a message. -/
def md5Digest (message : List UInt8) : List UInt8 :=
  let state := (consume md5Compress 64 md5Registers (message ++ md5Padding message.length)).1
  wordBytes state.a ++ wordBytes state.b ++ wordBytes state.c ++ wordBytes state.d

example : md5Digest [] =
    [0xd4, 0x1d, 0x8c, 0xd9, 0x8f, 0x00, 0xb2, 0x04, 0xe9, 0x80, 0x09, 0x98, 0xec, 0xf8, 0x42,
      0x7e] := by
  decide +kernel

/-! ## One block -/

/-- `F` saves an operation. -/
theorem md5_f_eq : md5F = fun x y z => x &&& y ||| ~~~x &&& z := by
  funext x y z
  apply UInt32.toBitVec_inj.mp
  ext i hi
  simp only [md5F, UInt32.toBitVec_xor, UInt32.toBitVec_and, UInt32.toBitVec_or,
    UInt32.toBitVec_not, BitVec.getElem_xor, BitVec.getElem_and, BitVec.getElem_or,
    BitVec.getElem_not]
  cases x.toBitVec[i] <;> cases y.toBitVec[i] <;> cases z.toBitVec[i] <;> rfl

/-- So does `G`. -/
theorem md5_g_eq : md5G = fun x y z => x &&& z ||| y &&& ~~~z := by
  funext x y z
  apply UInt32.toBitVec_inj.mp
  ext i hi
  simp only [md5G, UInt32.toBitVec_xor, UInt32.toBitVec_and, UInt32.toBitVec_or,
    UInt32.toBitVec_not, BitVec.getElem_xor, BitVec.getElem_and, BitVec.getElem_or,
    BitVec.getElem_not]
  cases x.toBitVec[i] <;> cases y.toBitVec[i] <;> cases z.toBitVec[i] <;> rfl

/-- The shifts of `STEP` are a rotation. -/
theorem step_rotate (x s : UInt32) (hs : 0 < s.toNat) (hlt : s.toNat < 32) :
    x <<< s ||| (x &&& 0xffffffff) >>> (32 - s) = rotateLeft x s.toNat := by
  have hback : (32 - s).toNat = 32 - s.toNat := by
    rw [UInt32.toNat_sub_of_le _ _ (UInt32.le_iff_toNat_le.mpr hlt.le)]
    rfl
  have hmask : x &&& 0xffffffff = x := by
    apply UInt32.toBitVec_inj.mp
    exact BitVec.and_allOnes
  have hleft : (s.toBitVec % 32).toNat = s.toNat := by
    rw [BitVec.toNat_umod]
    exact Nat.mod_eq_of_lt hlt
  have hright : ((32 - s).toBitVec % 32).toNat = 32 - s.toNat := by
    rw [BitVec.toNat_umod]
    show (32 - s).toNat % 32 = _
    rw [hback]
    exact Nat.mod_eq_of_lt (by omega)
  apply UInt32.toBitVec_inj.mp
  rw [hmask]
  simp only [UInt32.toBitVec_or, UInt32.toBitVec_shiftLeft, UInt32.toBitVec_shiftRight]
  rw [BitVec.shiftLeft_eq', BitVec.ushiftRight_eq', hleft, hright]
  show _ = x.toBitVec.rotateLeft s.toNat
  rw [BitVec.rotateLeft_def, Nat.mod_eq_of_lt hlt]

/-- A step of the code is an operation of the standard, its shift a rotation. -/
theorem md5_step_eq (f : UInt32 → UInt32 → UInt32 → UInt32) (a b c d x t s : UInt32)
    (hs : 0 < s.toNat) (hlt : s.toNat < 32) :
    md5Step f a b c d x t s = b + rotateLeft (a + f b c d + x + t) s.toNat := by
  have hsum : a + (f b c d + x + t) = a + f b c d + x + t := by
    rw [UInt32.add_assoc a, UInt32.add_assoc a]
  show (_ <<< s ||| (_ &&& 0xffffffff) >>> (32 - s)) + b = _
  rw [step_rotate _ _ hs hlt, hsum, UInt32.add_comm]

/-- A byte that is put above a word. -/
theorem or_byte_to_nat {word : UInt32} {k : Nat} (hword : word.toNat < 2 ^ k) (hk : k ≤ 24)
    (x : UInt8) :
    (word ||| x.toUInt32 <<< UInt32.ofNat k).toNat = word.toNat + 2 ^ k * x.toNat := by
  have hx : x.toNat < 2 ^ 8 := x.toNat_lt
  have hpow : 2 ^ k ≤ 2 ^ 24 := Nat.pow_le_pow_right (by decide) hk
  have hmod : k % 2 ^ 32 % 32 = k := by omega
  have hlt : 2 ^ k * x.toNat < 2 ^ 32 :=
    calc 2 ^ k * x.toNat ≤ 2 ^ 24 * x.toNat := Nat.mul_le_mul_right _ hpow
      _ < 2 ^ 32 := by omega
  rw [UInt32.toNat_or, UInt32.toNat_shiftLeft, UInt32.toNat_ofNat', hmod, UInt8.toNat_toUInt32,
    Nat.shiftLeft_eq, Nat.mul_comm, Nat.mod_eq_of_lt hlt, Nat.or_comm,
    ← Nat.two_pow_add_eq_or_of_lt hword, Nat.add_comm]

/-- Bytes that are put side by side make the word that has them as its digits. -/
theorem bytes_word (a b c d : UInt8) :
    a.toUInt32 ||| b.toUInt32 <<< 8 ||| c.toUInt32 <<< 16 ||| d.toUInt32 <<< 24 =
      littleWord [a, b, c, d] := by
  have ha : a.toUInt32.toNat < 2 ^ 8 := a.toNat_lt
  have hbyte := a.toNat_lt
  have hb := b.toNat_lt
  have hc := c.toNat_lt
  have htwo : (a.toUInt32 ||| b.toUInt32 <<< 8).toNat = a.toNat + 2 ^ 8 * b.toNat :=
    or_byte_to_nat (k := 8) ha (by decide) b
  have hthree : (a.toUInt32 ||| b.toUInt32 <<< 8 ||| c.toUInt32 <<< 16).toNat =
      (a.toUInt32 ||| b.toUInt32 <<< 8).toNat + 2 ^ 16 * c.toNat :=
    or_byte_to_nat (k := 16) (by omega) (by decide) c
  have hfour : (a.toUInt32 ||| b.toUInt32 <<< 8 ||| c.toUInt32 <<< 16 |||
      d.toUInt32 <<< 24).toNat =
      (a.toUInt32 ||| b.toUInt32 <<< 8 ||| c.toUInt32 <<< 16).toNat + 2 ^ 24 * d.toNat :=
    or_byte_to_nat (k := 24) (by omega) (by decide) d
  apply UInt32.toNat_inj.mp
  rw [little_word_to_nat (by simp), hfour, hthree, htwo]
  simp only [littleNat]
  omega

/-- The bytes of a word are read in the same order on all platforms. -/
theorem md5_word_eq (ptr : List UInt8) (n : Nat) :
    md5Word ptr n = littleWord ((ptr.drop (4 * n)).take 4) := by
  have hget : ∀ i, ptr.getD (n * 4 + i) 0 = (ptr.drop (4 * n)).getD i 0 := by
    intro i
    rw [List.getD_eq_getElem?_getD, List.getD_eq_getElem?_getD, List.getElem?_drop,
      Nat.mul_comm 4]
  have hfirst := hget 0
  unfold md5Word
  rw [Nat.add_zero] at hfirst
  rw [hfirst, hget 1, hget 2, hget 3, bytes_word]
  generalize ptr.drop (4 * n) = rest
  match rest with
  | [] | [_] | [_, _] | [_, _, _] => simp [littleWord, littleNat]
  | _ :: _ :: _ :: _ :: _ => rfl

/-- The four operations from `i` on, one after the other. -/
theorem operations_four (ptr : List UInt8) (i : Nat) (state : Md5State) :
    (List.range' i 4).foldl (operationAt ptr) state =
      operationAt ptr (operationAt ptr (operationAt ptr (operationAt ptr state (i + 0)) (i + 1))
        (i + 2)) (i + 3) := rfl

/-- Four lines of a round are the four operations from `i` on. -/
theorem md5_lines_eq {f : UInt32 → UInt32 → UInt32 → UInt32} {ptr : List UInt8}
    {s0 s1 s2 s3 t0 t1 t2 t3 : UInt32} {x0 x1 x2 x3 : Nat} (i : Nat)
    (hf : ∀ k < 4, roundFunction (i + k) = f)
    (hlines : [0, 1, 2, 3].map (fun k =>
      (roundWord (i + k), sineTable.getD (i + k) 0, roundShift (i + k))) =
        [(x0, t0, s0.toNat), (x1, t1, s1.toNat), (x2, t2, s2.toNat), (x3, t3, s3.toNat)])
    (hshifts : [s0, s1, s2, s3].all fun s => decide (0 < s.toNat ∧ s.toNat < 32))
    (state : Md5State) :
    md5Lines f ptr s0 s1 s2 s3 x0 t0 x1 t1 x2 t2 x3 t3 state =
      (List.range' i 4).foldl (operationAt ptr) state := by
  obtain ⟨a, b, c, d⟩ := state
  simp only [List.all_cons, Bool.and_eq_true, decide_eq_true_eq] at hshifts
  obtain ⟨h0, h1, h2, h3, -⟩ := hshifts
  simp only [List.map_cons, List.cons.injEq, Prod.mk.injEq] at hlines
  obtain ⟨⟨hx0, ht0, hs0⟩, ⟨hx1, ht1, hs1⟩, ⟨hx2, ht2, hs2⟩, ⟨hx3, ht3, hs3⟩, -⟩ := hlines
  rw [operations_four]
  unfold operationAt
  rw [hf 0 (by decide), hf 1 (by decide), hf 2 (by decide), hf 3 (by decide), hx0, hx1, hx2, hx3,
    ht0, ht1, ht2, ht3, hs0, hs1, hs2, hs3]
  simp only [md5Lines, operation, md5_word_eq, md5_step_eq _ _ _ _ _ _ _ _ h0.1 h0.2,
    md5_step_eq _ _ _ _ _ _ _ _ h1.1 h1.2, md5_step_eq _ _ _ _ _ _ _ _ h2.1 h2.2,
    md5_step_eq _ _ _ _ _ _ _ _ h3.1 h3.2]

section Rounds

variable (ptr : List UInt8) (state : Md5State)

/-- The first sixteen lines are operations 0 to 15. -/
theorem md5_round1_eq :
    md5Round1 ptr state = (List.range' 0 16).foldl (operationAt ptr) state := by
  have hf : ∀ i < 16, roundFunction i = md5F := by
    intro i hi
    funext x y z
    simp [roundFunction, hi, md5_f_eq]
  have hfour : ∀ i k, 0 ≤ i → i ≤ 12 → k < 4 → roundFunction (i + k) = md5F :=
    fun i k hle hi hk => hf _ (by omega)
  unfold md5Round1
  simp only
  rw [md5_lines_eq 12 (fun k => hfour _ k (by decide) (by decide)) (by decide) (by decide),
    md5_lines_eq 8 (fun k => hfour _ k (by decide) (by decide)) (by decide) (by decide),
    md5_lines_eq 4 (fun k => hfour _ k (by decide) (by decide)) (by decide) (by decide),
    md5_lines_eq 0 (fun k => hfour _ k (by decide) (by decide)) (by decide) (by decide)]
  simp only [← List.foldl_append]
  rfl

/-- The next sixteen lines are operations 16 to 31. -/
theorem md5_round2_eq :
    md5Round2 ptr state = (List.range' 16 16).foldl (operationAt ptr) state := by
  have hf : ∀ i, 16 ≤ i → i < 32 → roundFunction i = md5G := by
    intro i hle hi
    funext x y z
    simp [roundFunction, hi, hle.not_gt, md5_g_eq]
  have hfour : ∀ i k, 16 ≤ i → i ≤ 28 → k < 4 → roundFunction (i + k) = md5G :=
    fun i k hle hi hk => hf _ (by omega) (by omega)
  unfold md5Round2
  simp only
  rw [md5_lines_eq 28 (fun k => hfour _ k (by decide) (by decide)) (by decide) (by decide),
    md5_lines_eq 24 (fun k => hfour _ k (by decide) (by decide)) (by decide) (by decide),
    md5_lines_eq 20 (fun k => hfour _ k (by decide) (by decide)) (by decide) (by decide),
    md5_lines_eq 16 (fun k => hfour _ k (by decide) (by decide)) (by decide) (by decide)]
  simp only [← List.foldl_append]
  rfl

/-- The next sixteen lines are operations 32 to 47. -/
theorem md5_round3_eq :
    md5Round3 ptr state = (List.range' 32 16).foldl (operationAt ptr) state := by
  have hf : ∀ i, 32 ≤ i → i < 48 → roundFunction i = md5H := by
    intro i hle hi
    funext x y z
    simp [roundFunction, hi, hle.not_gt, show ¬ i < 16 by omega, md5H]
  have hfour : ∀ i k, 32 ≤ i → i ≤ 44 → k < 4 → roundFunction (i + k) = md5H :=
    fun i k hle hi hk => hf _ (by omega) (by omega)
  unfold md5Round3
  simp only
  rw [md5_lines_eq 44 (fun k => hfour _ k (by decide) (by decide)) (by decide) (by decide),
    md5_lines_eq 40 (fun k => hfour _ k (by decide) (by decide)) (by decide) (by decide),
    md5_lines_eq 36 (fun k => hfour _ k (by decide) (by decide)) (by decide) (by decide),
    md5_lines_eq 32 (fun k => hfour _ k (by decide) (by decide)) (by decide) (by decide)]
  simp only [← List.foldl_append]
  rfl

/-- The last sixteen lines are operations 48 to 63. -/
theorem md5_round4_eq :
    md5Round4 ptr state = (List.range' 48 16).foldl (operationAt ptr) state := by
  have hf : ∀ i, 48 ≤ i → roundFunction i = md5I := by
    intro i hle
    funext x y z
    simp [roundFunction, hle.not_gt, show ¬ i < 16 by omega, show ¬ i < 32 by omega, md5I]
  have hfour : ∀ i k, 48 ≤ i → i ≤ 60 → k < 4 → roundFunction (i + k) = md5I :=
    fun i k hle hi hk => hf _ (by omega)
  unfold md5Round4
  simp only
  rw [md5_lines_eq 60 (fun k => hfour _ k (by decide) (by decide)) (by decide) (by decide),
    md5_lines_eq 56 (fun k => hfour _ k (by decide) (by decide)) (by decide) (by decide),
    md5_lines_eq 52 (fun k => hfour _ k (by decide) (by decide)) (by decide) (by decide),
    md5_lines_eq 48 (fun k => hfour _ k (by decide) (by decide)) (by decide) (by decide)]
  simp only [← List.foldl_append]
  rfl

/-- The rounds are the operations. -/
theorem md5_rounds_eq :
    md5Round4 ptr (md5Round3 ptr (md5Round2 ptr (md5Round1 ptr state))) =
      (List.range 64).foldl (operationAt ptr) state := by
  rw [md5_round4_eq, md5_round3_eq, md5_round2_eq, md5_round1_eq]
  simp only [← List.foldl_append]
  rfl

end Rounds

/-- The unrolled block is the indexed one. -/
theorem md5_block_eq : md5Block = md5Compress := by
  funext state ptr
  unfold md5Block md5Compress
  rw [md5_rounds_eq]
  simp only [UInt32.add_comm]

/-! ## A message in pieces -/

section Buffer

variable {buffer : Vector UInt8 64} {start : Nat} {bytes : List UInt8}
  {h : start + bytes.length ≤ 64}

/-- A store replaces the bytes from its start on. -/
theorem md5_store_list : (md5Store buffer start bytes h).toList =
    buffer.toList.take start ++ bytes ++ buffer.toList.drop (start + bytes.length) := rfl

/-- What stands in front of the end of a copy. -/
theorem md5_store_take {n : Nat} (hn : start + bytes.length = n) :
    (md5Store buffer start bytes h).toList.take n = buffer.toList.take start ++ bytes := by
  rw [md5_store_list]
  refine List.take_left' ?_
  rw [List.length_append, List.length_take, Vector.length_toList]
  omega

end Buffer

/-- The mask `0x3f` is the remainder by the block length. -/
theorem and_3f_eq (n : Nat) : n &&& 0x3f = n % 64 := Nat.and_two_pow_sub_one_eq_mod n 6

/-- `body` on whole blocks and the rest of the data. -/
theorem md5_body_eq (ctx : Md5Ctx) (data : List UInt8) :
    md5Body ctx data (data.length - data.length % 64) =
      ({ ctx with state := (consume md5Block 64 ctx.state data).1 },
        (consume md5Block 64 ctx.state data).2) := by
  have hcount : (data.length - data.length % 64) / 64 = data.length / 64 := by omega
  unfold md5Body consume
  rw [hcount]

/-- `body` on one block. -/
theorem md5_body_one (ctx : Md5Ctx) {block : List UInt8} (hblock : block.length = 64) :
    (md5Body ctx block 64).1 = { ctx with state := md5Block ctx.state block } := by
  have h := md5_body_eq ctx block
  rw [consume_one hblock (by decide), hblock] at h
  rw [h]

/-- The end of `MD5_Update` takes the whole blocks and leaves the rest in the buffer. -/
theorem md5_update_blocks_eq (ctx : Md5Ctx) (data : List UInt8) :
    (md5UpdateBlocks ctx data).lo = ctx.lo ∧ (md5UpdateBlocks ctx data).hi = ctx.hi ∧
      ((md5UpdateBlocks ctx data).state,
        (md5UpdateBlocks ctx data).buffer.toList.take (data.length % 64)) =
          consume md5Block 64 ctx.state data := by
  by_cases hsize : 64 ≤ data.length
  · have hrest : (consume md5Block 64 ctx.state data).2.length = data.length % 64 :=
      consume_rest_length _ _
    have htake : ((consume md5Block 64 ctx.state data).2.take (data.length % 64)) =
        (consume md5Block 64 ctx.state data).2 := List.take_of_length_le hrest.le
    unfold md5UpdateBlocks
    simp only [hsize, ↓reduceDIte, and_3f_eq, md5_body_eq, htake]
    refine ⟨trivial, trivial, ?_⟩
    rw [md5_store_take (by omega)]
    rfl
  · have hrest : data.length % 64 = data.length := Nat.mod_eq_of_lt (by omega)
    unfold md5UpdateBlocks
    simp only [hsize, ↓reduceDIte]
    refine ⟨trivial, trivial, ?_⟩
    rw [md5_store_take (by omega), consume_short (by omega)]
    rfl

/-- The context after a message: the counters hold its length, and its whole blocks have been
compressed and what is left is in the buffer. -/
structure Md5Ctx.Took (ctx : Md5Ctx) (message : List UInt8) : Prop where
  lo : ctx.lo.toNat = message.length % 2 ^ 29
  hi : ctx.hi = UInt32.ofNat (message.length / 2 ^ 29)
  taken : (ctx.state, ctx.buffer.toList.take (message.length % 64)) =
    consume md5Block 64 md5Registers message

/-- A new context has taken no bytes. -/
theorem took_nothing (stack : Md5Ctx) : (md5Init stack).Took [] where
  lo := rfl
  hi := rfl
  taken := by
    rw [consume_nil]
    rfl

/-- The counters after another piece. -/
theorem md5_counters {lo : UInt32} {length : Nat} (hlo : lo.toNat = length % 2 ^ 29) (size : Nat) :
    (UInt32.ofNat ((lo.toNat + size) &&& 0x1fffffff)).toNat = (length + size) % 2 ^ 29 ∧
      (if UInt32.ofNat ((lo.toNat + size) &&& 0x1fffffff) < lo then
        UInt32.ofNat (length / 2 ^ 29) + 1 else UInt32.ofNat (length / 2 ^ 29)) +
          UInt32.ofNat (size >>> 29) = UInt32.ofNat ((length + size) / 2 ^ 29) := by
  have hmask : (lo.toNat + size) &&& 0x1fffffff = (lo.toNat + size) % 2 ^ 29 :=
    Nat.and_two_pow_sub_one_eq_mod _ 29
  have hnext : (UInt32.ofNat ((lo.toNat + size) &&& 0x1fffffff)).toNat =
      (length + size) % 2 ^ 29 := by
    rw [UInt32.toNat_ofNat', hmask]
    omega
  refine ⟨hnext, ?_⟩
  rw [Nat.shiftRight_eq_div_pow]
  split
  · rename_i hcarry
    rw [UInt32.lt_iff_toNat_lt, hnext, hlo] at hcarry
    -- the low parts of the two lengths add up to another `2 ^ 29`
    have hsum : (length + size) / 2 ^ 29 = length / 2 ^ 29 + 1 + size / 2 ^ 29 := by omega
    rw [hsum, UInt32.ofNat_add, UInt32.ofNat_add]
    rfl
  · rename_i hcarry
    rw [UInt32.lt_iff_toNat_lt, hnext, hlo] at hcarry
    have hsum : (length + size) / 2 ^ 29 = length / 2 ^ 29 + size / 2 ^ 29 := by omega
    rw [hsum, UInt32.ofNat_add]

/-- The part of `MD5_Update` after the counters takes the data behind what the buffer holds. -/
theorem md5_update_taken (ctx : Md5Ctx) (data : List UInt8) {used : Nat}
    (hused : ctx.lo.toNat % 64 = used) :
    ((md5Update ctx data).state,
      (md5Update ctx data).buffer.toList.take ((used + data.length) % 64)) =
        consume md5Block 64 ctx.state (ctx.buffer.toList.take used ++ data) := by
  have hlt : used < 64 := by omega
  have hlength : (ctx.buffer.toList.take used).length = used := by
    rw [List.length_take, Vector.length_toList]
    omega
  unfold md5Update
  simp only [and_3f_eq, hused]
  by_cases hzero : used = 0
  · subst hzero
    simp only [↓reduceIte, Nat.zero_add, List.take_zero, List.nil_append]
    exact (md5_update_blocks_eq _ data).2.2
  · simp only [hzero, ↓reduceIte]
    by_cases hsize : data.length < 64 - used
    · -- the piece fits into the buffer and leaves room
      simp only [hsize, ↓reduceDIte]
      rw [md5_store_take (by omega), consume_short (by rw [List.length_append, hlength]; omega)]
    · simp only [hsize, ↓reduceDIte]
      have hfree : (data.take (64 - used)).length = 64 - used := by
        rw [List.length_take]
        omega
      have hdrop : (data.drop (64 - used)).length % 64 = (used + data.length) % 64 := by
        rw [List.length_drop]
        omega
      have hblock : (ctx.buffer.toList.take used ++ data.take (64 - used)).length = 64 := by
        rw [List.length_append, hlength, hfree]
        omega
      -- the buffer is full and is compressed first
      have hfull : (md5Store ctx.buffer used (data.take (64 - used)) (by omega)).toList =
          ctx.buffer.toList.take used ++ data.take (64 - used) := by
        have hend : ctx.buffer.toList.drop 64 = [] := List.drop_eq_nil_of_le (by simp)
        rw [md5_store_list, hfree, show used + (64 - used) = 64 by omega, hend, List.append_nil]
      have hsplit : ctx.buffer.toList.take used ++ data =
          (ctx.buffer.toList.take used ++ data.take (64 - used)) ++ data.drop (64 - used) := by
        rw [List.append_assoc, List.take_append_drop]
      rw [md5_body_one _ (by rw [hfull]; exact hblock), hfull, hsplit,
        consume_block hblock (by decide), ← hdrop]
      exact (md5_update_blocks_eq _ _).2.2

/-- `md5_update` counts its bytes in `lo` and `hi`, whatever it buffers. -/
theorem md5_update_counters (ctx : Md5Ctx) (data : List UInt8) :
    (md5Update ctx data).lo = UInt32.ofNat ((ctx.lo.toNat + data.length) &&& 0x1fffffff) ∧
      (md5Update ctx data).hi =
        (if UInt32.ofNat ((ctx.lo.toNat + data.length) &&& 0x1fffffff) < ctx.lo then ctx.hi + 1
          else ctx.hi) + UInt32.ofNat (data.length >>> 29) := by
  unfold md5Update
  simp only
  split
  · exact ⟨(md5_update_blocks_eq _ data).1, (md5_update_blocks_eq _ data).2.1⟩
  · split
    · exact ⟨rfl, rfl⟩
    · exact ⟨(md5_update_blocks_eq _ _).1, (md5_update_blocks_eq _ _).2.1⟩

/-- `MD5_Update` with another piece of the message. -/
theorem Md5Ctx.Took.update {ctx : Md5Ctx} {message : List UInt8} (h : ctx.Took message)
    (data : List UInt8) : (md5Update ctx data).Took (message ++ data) := by
  have hcounters := md5_counters h.lo data.length
  have hafter := md5_update_counters ctx data
  have hused : ctx.lo.toNat % 64 = message.length % 64 := by
    rw [h.lo]
    omega
  constructor
  · rw [hafter.1, hcounters.1, List.length_append]
  · rw [hafter.2, h.hi, hcounters.2, List.length_append]
  · have htaken := md5_update_taken ctx data hused
    have hstate : ctx.state = (consume md5Block 64 md5Registers message).1 :=
      congrArg Prod.fst h.taken
    have hbuffer : ctx.buffer.toList.take (message.length % 64) =
        (consume md5Block 64 md5Registers message).2 := congrArg Prod.snd h.taken
    rw [consume_append (by decide), ← hstate, ← hbuffer, ← htaken, List.length_append,
      Nat.mod_add_mod]

/-! ## The result -/

/-- The bit behind the message. -/
theorem md5_set_take (buffer : Vector UInt8 64) {used : Nat} (h : used < 64) :
    (buffer.set used 0x80).toList.take (used + 1) = buffer.toList.take used ++ [0x80] := by
  have hlength : (buffer.toList.take used).length = used := by
    rw [List.length_take, Vector.length_toList]
    omega
  rw [Vector.toList_set, List.set_eq_take_append_cons_drop, if_pos (by simpa using h)]
  rw [← List.singleton_append, ← List.append_assoc]
  exact List.take_left' (by simp [hlength])

/-- The padding of a message up to its length, which fills one block or two. -/
theorem md5_pad_taken {ctx : Md5Ctx} {message : List UInt8} (h : ctx.Took message) :
    (md5Pad ctx).lo = ctx.lo ∧ (md5Pad ctx).hi = ctx.hi ∧
      ((md5Pad ctx).state, (md5Pad ctx).buffer.toList.take 56) =
        consume md5Block 64 md5Registers
          (message ++ 0x80 :: List.replicate ((119 - message.length % 64) % 64) 0) := by
  have hused : ctx.lo.toNat % 64 = message.length % 64 := by
    rw [h.lo]
    omega
  have hlt : message.length % 64 < 64 := Nat.mod_lt _ (by decide)
  have hstate : ctx.state = (consume md5Block 64 md5Registers message).1 :=
    congrArg Prod.fst h.taken
  have hbuffer : ctx.buffer.toList.take (message.length % 64) =
      (consume md5Block 64 md5Registers message).2 := congrArg Prod.snd h.taken
  have hlength : (ctx.buffer.toList.take (message.length % 64)).length = message.length % 64 := by
    rw [hbuffer, consume_rest_length]
  rw [consume_append (by decide), ← hstate, ← hbuffer]
  unfold md5Pad
  simp only [and_3f_eq, hused]
  generalize message.length % 64 = used at *
  by_cases hfree : 64 - (used + 1) < 8
  · simp only [hfree, ↓reduceDIte]
    refine ⟨rfl, rfl, ?_⟩
    have hzeros : (119 - used) % 64 = (64 - (used + 1)) + 56 := by omega
    have hfull : (md5Store (ctx.buffer.set used 0x80) (used + 1)
        (List.replicate (64 - (used + 1)) 0) (by simp; omega)).toList =
          ctx.buffer.toList.take used ++ 0x80 :: List.replicate (64 - (used + 1)) 0 := by
      have hend : (ctx.buffer.set used 0x80).toList.drop 64 = [] :=
        List.drop_eq_nil_of_le (by simp)
      rw [md5_store_list, List.length_replicate, show used + 1 + (64 - (used + 1)) = 64 by omega,
        hend, List.append_nil, md5_set_take _ hlt, List.append_assoc]
      rfl
    have hblock : (ctx.buffer.toList.take used ++
        0x80 :: List.replicate (64 - (used + 1)) 0).length = 64 := by
      rw [List.length_append, hlength, List.length_cons, List.length_replicate]
      omega
    rw [md5_body_one _ (by rw [hfull]; exact hblock), hfull, hzeros,
      ← List.replicate_append_replicate, ← List.cons_append, ← List.append_assoc,
      consume_block hblock (by decide), consume_short (by simp), md5_store_take (by simp)]
    rfl
  · simp only [hfree, ↓reduceDIte]
    refine ⟨trivial, trivial, ?_⟩
    have hzeros : (119 - used) % 64 = 64 - (used + 1) - 8 := by omega
    rw [md5_store_take (by rw [List.length_replicate]; omega), md5_set_take _ hlt, hzeros,
      List.append_assoc, consume_short]
    · rfl
    · rw [List.length_append, hlength, List.length_cons, List.length_replicate]
      omega

/-- `MD5_Final` writes the number of bits. -/
theorem md5_length_bytes {lo hi : UInt32} {length : Nat} (hlo : lo.toNat = length % 2 ^ 29)
    (hhi : hi = UInt32.ofNat (length / 2 ^ 29)) :
    wordBytes (lo <<< 3) ++ wordBytes hi =
      (List.range 8).map fun i => UInt8.ofNat (8 * length / 256 ^ i) := by
  have hlow : (lo <<< 3).toNat = 8 * (length % 2 ^ 29) := by
    rw [UInt32.toNat_shiftLeft, hlo, Nat.shiftLeft_eq]
    show length % 2 ^ 29 * 2 ^ 3 % 2 ^ 32 = _
    omega
  have hhigh : hi.toNat = length / 2 ^ 29 % 2 ^ 32 := by
    rw [hhi, UInt32.toNat_ofNat']
  have hbyte : ∀ (x k : UInt32) (n : Nat), x.toNat / 2 ^ (k.toNat % 32) % 256 = n % 256 →
      (x >>> k).toUInt8 = UInt8.ofNat n := by
    intro x k n h
    apply UInt8.toNat_inj.mp
    rw [UInt32.toNat_toUInt8, UInt32.toNat_shiftRight, Nat.shiftRight_eq_div_pow,
      UInt8.toNat_ofNat']
    exact h
  have hfirst : ∀ (x : UInt32) (n : Nat), x.toNat % 256 = n % 256 → x.toUInt8 = UInt8.ofNat n := by
    intro x n h
    apply UInt8.toNat_inj.mp
    rw [UInt32.toNat_toUInt8, UInt8.toNat_ofNat']
    exact h
  show [_, _, _, _, _, _, _, _] = [_, _, _, _, _, _, _, _]
  rw [hfirst (lo <<< 3) (8 * length / 256 ^ 0) (by rw [hlow]; omega),
    hbyte (lo <<< 3) 8 (8 * length / 256 ^ 1) (by rw [hlow]; show _ / 2 ^ 8 % _ = _; omega),
    hbyte (lo <<< 3) 16 (8 * length / 256 ^ 2) (by rw [hlow]; show _ / 2 ^ 16 % _ = _; omega),
    hbyte (lo <<< 3) 24 (8 * length / 256 ^ 3) (by rw [hlow]; show _ / 2 ^ 24 % _ = _; omega),
    hfirst hi (8 * length / 256 ^ 4) (by rw [hhigh]; omega),
    hbyte hi 8 (8 * length / 256 ^ 5) (by rw [hhigh]; show _ / 2 ^ 8 % _ = _; omega),
    hbyte hi 16 (8 * length / 256 ^ 6) (by rw [hhigh]; show _ / 2 ^ 16 % _ = _; omega),
    hbyte hi 24 (8 * length / 256 ^ 7) (by rw [hhigh]; show _ / 2 ^ 24 % _ = _; omega)]

/-- `MD5_Final` gives the digest of the message that the context took. -/
theorem md5_final_eq {ctx : Md5Ctx} {message : List UInt8} (h : ctx.Took message) :
    md5Final ctx = md5Digest message := by
  obtain ⟨hlo, hhi, htaken⟩ := md5_pad_taken h
  have hbytes : wordBytes ((md5Pad ctx).lo <<< 3) ++ wordBytes (md5Pad ctx).hi = _ :=
    md5_length_bytes (hlo ▸ h.lo) (hhi ▸ h.hi)
  have hlength : (wordBytes ((md5Pad ctx).lo <<< 3) ++ wordBytes (md5Pad ctx).hi).length = 8 := rfl
  have hfront : ((md5Pad ctx).buffer.toList.take 56).length = 56 := by simp
  have hfull : (md5Store (md5Pad ctx).buffer 56 (wordBytes ((md5Pad ctx).lo <<< 3) ++
      wordBytes (md5Pad ctx).hi) (by rw [hlength])).toList =
        (md5Pad ctx).buffer.toList.take 56 ++
          (wordBytes ((md5Pad ctx).lo <<< 3) ++ wordBytes (md5Pad ctx).hi) := by
    have hend : (md5Pad ctx).buffer.toList.drop 64 = [] := List.drop_eq_nil_of_le (by simp)
    rw [md5_store_list, hlength, hend, List.append_nil]
  have hblock : ((md5Pad ctx).buffer.toList.take 56 ++
      (wordBytes ((md5Pad ctx).lo <<< 3) ++ wordBytes (md5Pad ctx).hi)).length = 64 := by
    rw [List.length_append, hfront, hlength]
  have hstate : md5Block (md5Pad ctx).state ((md5Pad ctx).buffer.toList.take 56 ++
      (wordBytes ((md5Pad ctx).lo <<< 3) ++ wordBytes (md5Pad ctx).hi)) =
        (consume md5Compress 64 md5Registers (message ++ md5Padding message.length)).1 := by
    -- the last block is the one that ends with the length
    have hpadding : message ++ md5Padding message.length =
        (message ++ (0x80 : UInt8) :: List.replicate ((119 - message.length % 64) % 64) 0) ++
          (wordBytes ((md5Pad ctx).lo <<< 3) ++ wordBytes (md5Pad ctx).hi) := by
      rw [hbytes, List.append_assoc]
      rfl
    have hone : consume md5Block 64 (md5Pad ctx).state _ = _ := consume_one hblock (by decide) _
    rw [← md5_block_eq, hpadding, consume_append (by decide), ← htaken]
    exact (congrArg Prod.fst hone).symm
  unfold md5Final md5Digest
  simp only
  rw [md5_body_one _ (by rw [hfull]; exact hblock), hfull, hstate]

/-- However a message is cut into pieces, `MD5_Update` on each of them and `MD5_Final` give its MD5
digest, whatever was in the context before `MD5_Init`. -/
theorem md5_pieces (stack : Md5Ctx) (pieces : List (List UInt8)) :
    md5Final (pieces.foldl md5Update (md5Init stack)) = md5Digest pieces.flatten := by
  have htook : ∀ (pieces : List (List UInt8)) (ctx : Md5Ctx) (message : List UInt8),
      ctx.Took message → (pieces.foldl md5Update ctx).Took (message ++ pieces.flatten) := by
    intro pieces
    induction pieces with
    | nil =>
        intro ctx message h
        rwa [List.flatten_nil, List.append_nil]
    | cons piece rest ih =>
        intro ctx message h
        have hrest := ih _ _ (h.update piece)
        rwa [List.append_assoc, ← List.flatten_cons] at hrest
  exact md5_final_eq (htook pieces _ [] (took_nothing stack))

/-- `md5_signature` is the digest of its key, whatever the stack held. -/
theorem md5_signature_eq (stack : Md5Ctx) (key : List UInt8) :
    md5Signature stack key = md5Digest key :=
  md5_final_eq ((took_nothing stack).update key)

/-- What was on the stack does not show. -/
theorem hash_md5_stack (stack other : Md5Ctx) (key : List UInt8) :
    hashMd5 stack key = hashMd5 other key := by
  simp only [hashMd5, md5_signature_eq]

/-- The hash of a key is the first word of its MD5 digest, the lowest byte first. -/
theorem hash_md5_digest (stack : Md5Ctx) (key : List UInt8) :
    hashMd5 stack key = littleWord ((md5Digest key).take 4) := by
  have hmask : ∀ c : UInt8, c &&& 0xFF = c :=
    forall_byte (P := fun c => c &&& 0xFF = c) (by decide +kernel)
  have hreverse : ∀ a b c d : UInt8,
      d.toUInt32 <<< 24 ||| c.toUInt32 <<< 16 ||| b.toUInt32 <<< 8 ||| a.toUInt32 =
        littleWord [a, b, c, d] := by
    intro a b c d
    rw [← bytes_word, UInt32.or_comm _ a.toUInt32, UInt32.or_comm _ (b.toUInt32 <<< 8),
      UInt32.or_comm _ (c.toUInt32 <<< 16), ← UInt32.or_assoc, ← UInt32.or_assoc]
  unfold hashMd5
  simp only [md5_signature_eq, hmask, hreverse]
  rfl

end DynocClient
