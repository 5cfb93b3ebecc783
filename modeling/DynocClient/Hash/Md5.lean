import DynocClient.Hash.Basic
import DynocClient.Lib.Memory
import DynocClient.Lib.Streaming

/-!
# MD5

`hash-md5.c`. A context takes a message in pieces: whole blocks go through `body` at once, the rest
waits in a buffer of 64 bytes, and two counters hold the length. A copy into the buffer carries a
proof that it stays inside.

On x86 `SET` and `GET` load a word. Elsewhere `SET` puts the same word together from its bytes and
keeps it in `block` for `GET`.
-/

namespace DynocClient

open Lib Streaming

/-! ## `hash-md5.c` -/

/-- The four registers. -/
structure Md5State where
  a : UInt32
  b : UInt32
  c : UInt32
  d : UInt32
  deriving DecidableEq, Repr

/-- `MD5_CTX`. -/
structure Md5Ctx where
  lo : UInt32
  hi : UInt32
  state : Md5State
  buffer : Vector UInt8 64

/-- `F`. -/
def md5F (x y z : UInt32) : UInt32 := z ^^^ (x &&& (y ^^^ z))

/-- `G`. -/
def md5G (x y z : UInt32) : UInt32 := y ^^^ (z &&& (x ^^^ y))

/-- `H`. -/
def md5H (x y z : UInt32) : UInt32 := x ^^^ y ^^^ z

/-- `I`. -/
def md5I (x y z : UInt32) : UInt32 := y ^^^ (x ||| ~~~z)

/-- `STEP`: the new value of `a`. -/
def md5Step (f : UInt32 → UInt32 → UInt32 → UInt32) (a b c d x t s : UInt32) : UInt32 :=
  let a := a + (f b c d + x + t)
  -- the mask leaves a word of 32 bits as it is
  let a := a <<< s ||| (a &&& 0xffffffff) >>> (32 - s)
  a + b

/-- `SET` and `GET`. -/
def md5Word (ptr : List UInt8) (n : Nat) : UInt32 :=
  (ptr.getD (n * 4) 0).toUInt32 ||| (ptr.getD (n * 4 + 1) 0).toUInt32 <<< 8 |||
    (ptr.getD (n * 4 + 2) 0).toUInt32 <<< 16 ||| (ptr.getD (n * 4 + 3) 0).toUInt32 <<< 24

/-- Four lines of a round: the steps for `a`, `d`, `c` and `b`, each with the word it reads and its
constant. The rotations are the same in all such lines of a round. -/
def md5Lines (f : UInt32 → UInt32 → UInt32 → UInt32) (ptr : List UInt8) (s0 s1 s2 s3 : UInt32)
    (x0 : Nat) (t0 : UInt32) (x1 : Nat) (t1 : UInt32) (x2 : Nat) (t2 : UInt32)
    (x3 : Nat) (t3 : UInt32) (state : Md5State) : Md5State :=
  let ⟨a, b, c, d⟩ := state
  let a := md5Step f a b c d (md5Word ptr x0) t0 s0
  let d := md5Step f d a b c (md5Word ptr x1) t1 s1
  let c := md5Step f c d a b (md5Word ptr x2) t2 s2
  let b := md5Step f b c d a (md5Word ptr x3) t3 s3
  ⟨a, b, c, d⟩

/-- Round 1. -/
def md5Round1 (ptr : List UInt8) (state : Md5State) : Md5State :=
  let lines := md5Lines md5F ptr 7 12 17 22
  let state := lines 0 0xd76aa478 1 0xe8c7b756 2 0x242070db 3 0xc1bdceee state
  let state := lines 4 0xf57c0faf 5 0x4787c62a 6 0xa8304613 7 0xfd469501 state
  let state := lines 8 0x698098d8 9 0x8b44f7af 10 0xffff5bb1 11 0x895cd7be state
  lines 12 0x6b901122 13 0xfd987193 14 0xa679438e 15 0x49b40821 state

/-- Round 2. -/
def md5Round2 (ptr : List UInt8) (state : Md5State) : Md5State :=
  let lines := md5Lines md5G ptr 5 9 14 20
  let state := lines 1 0xf61e2562 6 0xc040b340 11 0x265e5a51 0 0xe9b6c7aa state
  let state := lines 5 0xd62f105d 10 0x02441453 15 0xd8a1e681 4 0xe7d3fbc8 state
  let state := lines 9 0x21e1cde6 14 0xc33707d6 3 0xf4d50d87 8 0x455a14ed state
  lines 13 0xa9e3e905 2 0xfcefa3f8 7 0x676f02d9 12 0x8d2a4c8a state

/-- Round 3. -/
def md5Round3 (ptr : List UInt8) (state : Md5State) : Md5State :=
  let lines := md5Lines md5H ptr 4 11 16 23
  let state := lines 5 0xfffa3942 8 0x8771f681 11 0x6d9d6122 14 0xfde5380c state
  let state := lines 1 0xa4beea44 4 0x4bdecfa9 7 0xf6bb4b60 10 0xbebfbc70 state
  let state := lines 13 0x289b7ec6 0 0xeaa127fa 3 0xd4ef3085 6 0x04881d05 state
  lines 9 0xd9d4d039 12 0xe6db99e5 15 0x1fa27cf8 2 0xc4ac5665 state

/-- Round 4. -/
def md5Round4 (ptr : List UInt8) (state : Md5State) : Md5State :=
  let lines := md5Lines md5I ptr 6 10 15 21
  let state := lines 0 0xf4292244 7 0x432aff97 14 0xab9423a7 5 0xfc93a039 state
  let state := lines 12 0x655b59c3 3 0x8f0ccc92 10 0xffeff47d 1 0x85845dd1 state
  let state := lines 8 0x6fa87e4f 15 0xfe2ce6e0 6 0xa3014314 13 0x4e0811a1 state
  lines 4 0xf7537e82 11 0xbd3af235 2 0x2ad7d2bb 9 0xeb86d391 state

/-- The body of the loop of `body`, on the 64 bytes at `ptr`. -/
def md5Block (saved : Md5State) (ptr : List UInt8) : Md5State :=
  let ⟨a, b, c, d⟩ := md5Round4 ptr (md5Round3 ptr (md5Round2 ptr (md5Round1 ptr saved)))
  ⟨a + saved.a, b + saved.b, c + saved.c, d + saved.d⟩

/-- `body`, which is called with sizes that are a positive multiple of 64 only. -/
def md5Body (ctx : Md5Ctx) (data : List UInt8) (size : Nat) : Md5Ctx × List UInt8 :=
  let (state, ptr) := compressBlocks md5Block 64 (size / 64) ctx.state data
  ({ ctx with state }, ptr)

/-- The registers at the start. -/
def md5Registers : Md5State := ⟨0x67452301, 0xefcdab89, 0x98badcfe, 0x10325476⟩

/-- `MD5_Init`. -/
def md5Init (ctx : Md5Ctx) : Md5Ctx := { ctx with state := md5Registers, lo := 0, hi := 0 }

/-- `memcpy` and `memset` into the buffer. -/
def md5Store (buffer : Vector UInt8 64) (start : Nat) (bytes : List UInt8)
    (h : start + bytes.length ≤ 64) : Vector UInt8 64 :=
  ⟨(buffer.toList.take start ++ bytes ++ buffer.toList.drop (start + bytes.length)).toArray, by
    simp
    omega⟩

/-- A position under the mask lies in the buffer. -/
theorem and_3f_lt (n : Nat) : n &&& 0x3f < 64 := Nat.lt_succ_of_le Nat.and_le_right

/-- The end of `MD5_Update`, when the buffer is empty. -/
def md5UpdateBlocks (ctx : Md5Ctx) (data : List UInt8) : Md5Ctx :=
  let size := data.length
  if h : 64 ≤ size then
    let (ctx, ptr) := md5Body ctx data (size - (size &&& 0x3f))
    { ctx with buffer := md5Store ctx.buffer 0 (ptr.take (size &&& 0x3f)) (by
        have hle := List.length_take_le (size &&& 0x3f) ptr
        have hlt := and_3f_lt size
        omega) }
  else { ctx with buffer := md5Store ctx.buffer 0 data (by omega) }

/-- `MD5_Update`. -/
def md5Update (ctx : Md5Ctx) (data : List UInt8) : Md5Ctx :=
  let savedLo := ctx.lo
  let size := data.length
  let lo := UInt32.ofNat ((savedLo.toNat + size) &&& 0x1fffffff)
  -- `lo` counts up to `2 ^ 29` bytes and then starts again
  let hi := if lo < savedLo then ctx.hi + 1 else ctx.hi
  let hi := hi + UInt32.ofNat (size >>> 29)
  let ctx := { ctx with lo, hi }
  let used := savedLo.toNat &&& 0x3f
  if used = 0 then md5UpdateBlocks ctx data
  else
    let free := 64 - used
    if h : size < free then { ctx with buffer := md5Store ctx.buffer used data (by omega) }
    else
      let ctx := { ctx with buffer := md5Store ctx.buffer used (data.take free) (by
        have hle := List.length_take_le free data
        have hlt := and_3f_lt savedLo.toNat
        omega) }
      md5UpdateBlocks (md5Body ctx ctx.buffer.toList 64).1 (data.drop free)

/-- The bytes of a word as `MD5_Final` writes them. -/
def wordBytes (x : UInt32) : List UInt8 :=
  [x.toUInt8, (x >>> 8).toUInt8, (x >>> 16).toUInt8, (x >>> 24).toUInt8]

/-- The part of `MD5_Final` before the length is written. -/
def md5Pad (ctx : Md5Ctx) : Md5Ctx :=
  let used := ctx.lo.toNat &&& 0x3f
  have hused : used < 64 := and_3f_lt _
  let ctx := { ctx with buffer := ctx.buffer.set used 0x80 }
  let used := used + 1
  let free := 64 - used
  if h : free < 8 then
    let ctx := { ctx with buffer := md5Store ctx.buffer used (List.replicate free 0) (by
      rw [List.length_replicate]
      omega) }
    -- the length does not fit into this block any more
    let ctx := (md5Body ctx ctx.buffer.toList 64).1
    { ctx with buffer := md5Store ctx.buffer 0 (List.replicate (64 - 8) 0) (by simp) }
  else { ctx with buffer := md5Store ctx.buffer used (List.replicate (free - 8) 0) (by
      rw [List.length_replicate]
      omega) }

/-- `MD5_Final`: the 16 bytes of `result`. -/
def md5Final (ctx : Md5Ctx) : List UInt8 :=
  let ctx := md5Pad ctx
  -- from here on `lo` and `hi` count bits
  let ctx := { ctx with lo := ctx.lo <<< 3 }
  let ctx := { ctx with
    buffer := md5Store ctx.buffer 56 (wordBytes ctx.lo ++ wordBytes ctx.hi) (by simp [wordBytes]) }
  let ctx := (md5Body ctx ctx.buffer.toList 64).1
  wordBytes ctx.state.a ++ wordBytes ctx.state.b ++ wordBytes ctx.state.c ++ wordBytes ctx.state.d

/-- `md5_signature`. The context lies on the stack and is not cleared. -/
def md5Signature (stack : Md5Ctx) (key : List UInt8) : List UInt8 :=
  md5Final (md5Update (md5Init stack) key)

/-- `hash_md5`. -/
def hashMd5 (stack : Md5Ctx) : HashFunc := fun key =>
  let results := md5Signature stack key
  (results.getD 3 0 &&& 0xFF).toUInt32 <<< 24 ||| (results.getD 2 0 &&& 0xFF).toUInt32 <<< 16 |||
    (results.getD 1 0 &&& 0xFF).toUInt32 <<< 8 ||| (results.getD 0 0 &&& 0xFF).toUInt32

end DynocClient
