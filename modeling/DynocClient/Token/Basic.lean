import DynocClient.Base

/-!
# Tokens

The functions of `dynoc-token.c`. A token is a sign word and up to four magnitude words, of
which the library only ever uses the first.
-/

namespace DynocClient

/-- `struct token`. `mag` has four words and `length` counts the ones in use. -/
structure Token where
  signum : UInt32
  length : UInt32
  mag : Vector UInt32 4
  length_le : length ≤ 4
  deriving DecidableEq

/-- `mag` has a first word. -/
theorem mag_first : 0 < 4 := by decide

/-- One word fits into `mag`. -/
theorem one_le_mag : (1 : UInt32) ≤ 4 := by decide

namespace Token

/-- The words in use. -/
def words (token : Token) : List UInt32 := token.mag.toList.take token.length.toNat

end Token

/-- The digits one call of `atoui` takes for a word. -/
def DIGITS_PER_INT : Nat := 10

/-- The loop of `atoui` from position `p`, with `n` bytes to go. -/
def atouiLoop (line : CString) : Nat → Nat → UInt32 → Except Fault UInt32
  | _, 0, value => pure value
  | p, n + 1, value => do
      let c ← line.read p
      if c < 48 ∨ c > 57 then pure 0
      else atouiLoop line (p + 1) n (value * 10 + (c - 48).toUInt32)

/-- The number denoted by the `n` bytes from position `p`, modulo `2 ^ 32`; 0 as soon as one of
them is not a digit. -/
def atoui (line : CString) (p n : Nat) : Except Fault UInt32 :=
  if n = 0 then pure 0 else atouiLoop line p n 0

/-- `buf[i]`. -/
def readWord (buf : Vector UInt32 4) (i : Nat) : Except Fault UInt32 :=
  if h : i < 4 then pure (buf.get ⟨i, h⟩) else throw .magAccess

/-- `buf[i] = word`. -/
def writeWord (buf : Vector UInt32 4) (i : Nat) (word : UInt32) :
    Except Fault (Vector UInt32 4) :=
  if h : i < 4 then pure (buf.set i word h) else throw .magAccess

/-- `radix_val` of `add_next_word`. -/
def radixVal : UInt32 := 0x17179149

/-- The first loop of `add_next_word`, over the words `i - 1` down to 0. -/
def multiplyWords (buf : Vector UInt32 4) : Nat → UInt64 → Except Fault (Vector UInt32 4)
  | 0, _ => pure buf
  | i + 1, carry => do
      let word ← readWord buf i
      -- the product is taken in 32 bits and only then widened
      let product : UInt64 := (radixVal * word).toUInt64 + carry
      let buf ← writeWord buf i product.toUInt32
      multiplyWords buf i (product >>> 32)

/-- The last loop of `add_next_word`: its index goes up from `i` while it is not negative, so it
ends only by leaving the array, `fuel` words later. -/
def carryWords (buf : Vector UInt32 4) : Nat → Nat → UInt64 → Except Fault (Vector UInt32 4)
  | 0, _, _ => throw .magAccess
  | fuel + 1, i, carry => do
      let word ← readWord buf i
      let sum : UInt64 := word.toUInt64 + carry
      let buf ← writeWord buf i sum.toUInt32
      carryWords buf fuel (i + 1) (sum >>> 32)

/-- `add_next_word`: multiply the first `len` words by the radix and add `nextInt`. -/
def addNextWord (buf : Vector UInt32 4) (len : Nat) (nextInt : UInt32) :
    Except Fault (Vector UInt32 4) := do
  let buf ← multiplyWords buf len 0
  if len = 0 then throw .magAccess
  let word ← readWord buf (len - 1)
  let sum : UInt64 := (word + nextInt).toUInt64
  let buf ← writeWord buf (len - 1) sum.toUInt32
  if 2 ≤ len then carryWords buf (4 - (len - 2)) (len - 2) (sum >>> 32) else pure buf

/-- `token_init`, which sets every field. -/
def tokenInit : Token := ⟨0, 0, Vector.replicate 4 0, by decide⟩

/-- The main loop of `token_parse` over the groups of `DIGITS_PER_INT` bytes from `p` to `q`. -/
def parseGroups (str : CString) (p q nwords : Nat) (buf : Vector UInt32 4) :
    Except Fault (Vector UInt32 4) :=
  if p < q then do
    let localInt ← atoui str p DIGITS_PER_INT
    let buf ← addNextWord buf nwords localInt
    parseGroups str (p + DIGITS_PER_INT) q nwords buf
  else pure buf
termination_by q - p
decreasing_by simp only [DIGITS_PER_INT]; omega

/-- The length of the first group: what is left of `digits` after whole groups, or a whole group
if nothing is. -/
def firstGroupLen (digits : UInt32) : Nat :=
  if digits.toNat % DIGITS_PER_INT = 0 then DIGITS_PER_INT else digits.toNat % DIGITS_PER_INT

/-- `token_parse`: the sign goes to `signum`, the number to `mag[0]`. -/
def tokenParse (str : CString) (len : Nat) (token : Token) : Except Fault Token := do
  let q := len
  let digits : UInt32 := UInt32.ofNat len
  let first ← str.read 0
  let (signum, p, digits) : UInt32 × Nat × UInt32 :=
    -- `signum = -1` in an unsigned field
    if first = 45 then (0xffffffff, 1, digits - 1)
    else if digits = 1 ∧ first = 48 then (0, 0, digits)
    else (1, 0, digits)
  let nwords := 1
  let word ← atoui str p (firstGroupLen digits)
  let buf ← writeWord token.mag (nwords - 1) word
  let buf ← parseGroups str (p + firstGroupLen digits) q nwords buf
  pure { token with signum, mag := buf }

/-- The loop of `token_cmp` over the words in use of two tokens of one length. -/
def tokenCmpWords : List UInt32 → List UInt32 → Int
  | a :: as, b :: bs =>
      if a ≠ b then (if a > b then 1 else -1) else tokenCmpWords as bs
  | _, _ => 0

/-- `token_cmp`: by sign word, then by length, then by the words, where two tokens of sign word
0 are equal whatever else they hold. -/
def tokenCmp (t1 t2 : Token) : Int :=
  if t1.signum = t2.signum then
    if t1.signum = 0 then 0
    else if t1.length = t2.length then tokenCmpWords t1.words t2.words
    else if t1.length > t2.length then 1 else -1
  else if t1.signum > t2.signum then 1 else -1

/-- `token_size`. -/
def tokenSize (token : Token) (tokenLen : UInt32) (h : tokenLen ≤ 4) : Token :=
  { token with length := tokenLen, length_le := h }

/-- `token_set_int`. -/
def tokenSetInt (token : Token) (val : UInt32) : Token :=
  { signum := if val > 0 then 1 else 0
    length := 1
    mag := token.mag.set 0 val mag_first
    length_le := one_le_mag }

end DynocClient
