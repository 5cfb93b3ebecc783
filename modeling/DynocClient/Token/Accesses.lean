import DynocClient.Lib.Traced
import DynocClient.Select.Calls
import DynocClient.Token.Order

/-!
# What `token_parse` reads and writes

`token_parse` and the functions it calls once more, with a record of every byte of the string
they read, every field and word of the token they write and every call of `add_next_word`. The
record changes nothing about the result (`token_parse_traced_result`). Keys come to
`token_parse` unchecked, so what is said here is said about every string.
-/

namespace DynocClient

open Lib Lib.Traced

/-- What is recorded. -/
inductive Access where
  /-- `p[0]` or `*line`, by its position in the string. -/
  | readByte (position : Nat)
  | writeSignum
  /-- `buf[i]`. -/
  | readWord (i : Nat)
  | writeWord (i : Nat)
  /-- A call of `add_next_word`, by its word count. -/
  | addNextWord (len : Nat)
  /-- A pass of the carry loop of `add_next_word`. -/
  | carry (i : Nat)
  deriving DecidableEq, Repr

/-! ## The functions with their accesses -/

/-- The loop of `atoui`. -/
def atouiLoopTraced (line : CString) : Nat → Nat → UInt32 → Traced Fault Access UInt32
  | _, 0, value => pure value
  | p, n + 1, value => do
      let c ← act (.readByte p) (line.read p)
      if c < 48 ∨ c > 57 then pure 0
      else atouiLoopTraced line (p + 1) n (value * 10 + (c - 48).toUInt32)

/-- `atoui`. -/
def atouiTraced (line : CString) (p n : Nat) : Traced Fault Access UInt32 :=
  if n = 0 then pure 0 else atouiLoopTraced line p n 0

/-- The first loop of `add_next_word`. -/
def multiplyWordsTraced (buf : Vector UInt32 4) :
    Nat → UInt64 → Traced Fault Access (Vector UInt32 4)
  | 0, _ => pure buf
  | i + 1, carry => do
      let word ← act (.readWord i) (readWord buf i)
      let product : UInt64 := (radixVal * word).toUInt64 + carry
      let buf ← act (.writeWord i) (writeWord buf i product.toUInt32)
      multiplyWordsTraced buf i (product >>> 32)

/-- The carry loop of `add_next_word`. -/
def carryWordsTraced (buf : Vector UInt32 4) :
    Nat → Nat → UInt64 → Traced Fault Access (Vector UInt32 4)
  | 0, i, _ => act (.carry i) (throw .magAccess)
  | fuel + 1, i, carry => do
      let word ← act (.carry i) (readWord buf i)
      let sum : UInt64 := word.toUInt64 + carry
      let buf ← act (.writeWord i) (writeWord buf i sum.toUInt32)
      carryWordsTraced buf fuel (i + 1) (sum >>> 32)

/-- `add_next_word`. -/
def addNextWordTraced (buf : Vector UInt32 4) (len : Nat) (nextInt : UInt32) :
    Traced Fault Access (Vector UInt32 4) := do
  act (.addNextWord len) (pure ())
  let buf ← multiplyWordsTraced buf len 0
  if len = 0 then silent (throw .magAccess)
  let word ← act (.readWord (len - 1)) (readWord buf (len - 1))
  let sum : UInt64 := (word + nextInt).toUInt64
  let buf ← act (.writeWord (len - 1)) (writeWord buf (len - 1) sum.toUInt32)
  if 2 ≤ len then carryWordsTraced buf (4 - (len - 2)) (len - 2) (sum >>> 32) else pure buf

/-- The main loop of `token_parse`. -/
def parseGroupsTraced (str : CString) (p q nwords : Nat) (buf : Vector UInt32 4) :
    Traced Fault Access (Vector UInt32 4) :=
  if p < q then do
    let localInt ← atouiTraced str p DIGITS_PER_INT
    let buf ← addNextWordTraced buf nwords localInt
    parseGroupsTraced str (p + DIGITS_PER_INT) q nwords buf
  else pure buf
termination_by q - p
decreasing_by simp only [DIGITS_PER_INT]; omega

/-- `token_parse`. -/
def tokenParseTraced (str : CString) (len : Nat) (token : Token) : Traced Fault Access Token := do
  let q := len
  let digits : UInt32 := UInt32.ofNat len
  let first ← act (.readByte 0) (str.read 0)
  let (signum, p, digits) : UInt32 × Nat × UInt32 :=
    if first = 45 then (0xffffffff, 1, digits - 1)
    else if digits = 1 ∧ first = 48 then (0, 0, digits)
    else (1, 0, digits)
  act .writeSignum (pure ())
  let nwords := 1
  let word ← atouiTraced str p (firstGroupLen digits)
  let buf ← act (.writeWord (nwords - 1)) (writeWord token.mag (nwords - 1) word)
  let buf ← parseGroupsTraced str (p + firstGroupLen digits) q nwords buf
  pure { token with signum, mag := buf }

/-! ## The record changes nothing -/

/-- Recording the accesses of the loop of `atoui` does not change its result. -/
theorem atoui_loop_traced_result (line : CString) (n p : Nat) (value : UInt32) :
    (atouiLoopTraced line p n value).result = atouiLoop line p n value := by
  induction n generalizing p value with
  | zero => rfl
  | succ n ih =>
      simp only [atouiLoopTraced, atouiLoop, result_bind, result_act, result_ite, result_pure, ih]

/-- Recording its accesses does not change the result of `atoui`. -/
theorem atoui_traced_result (line : CString) (p n : Nat) :
    (atouiTraced line p n).result = atoui line p n := by
  rw [atouiTraced, atoui, result_ite, atoui_loop_traced_result, result_pure]

/-- Recording its accesses does not change the result of the multiplication. -/
theorem multiply_words_traced_result (buf : Vector UInt32 4) (i : Nat) (carry : UInt64) :
    (multiplyWordsTraced buf i carry).result = multiplyWords buf i carry := by
  induction i generalizing buf carry with
  | zero => rfl
  | succ i ih => simp only [multiplyWordsTraced, multiplyWords, result_bind, result_act, ih]

/-- Recording its accesses does not change the result of the carry. -/
theorem carry_words_traced_result (buf : Vector UInt32 4) (fuel i : Nat) (carry : UInt64) :
    (carryWordsTraced buf fuel i carry).result = carryWords buf fuel i carry := by
  induction fuel generalizing buf i carry with
  | zero => rfl
  | succ fuel ih => simp only [carryWordsTraced, carryWords, result_bind, result_act, ih]

/-- Recording its accesses does not change the result of `add_next_word`. -/
theorem add_next_word_traced_result (buf : Vector UInt32 4) (len : Nat) (nextInt : UInt32) :
    (addNextWordTraced buf len nextInt).result = addNextWord buf len nextInt := by
  simp only [addNextWordTraced, addNextWord, result_bind, result_act, result_ite, result_silent,
    result_pure, multiply_words_traced_result, carry_words_traced_result]
  rfl

/-- Recording its accesses does not change the result of the loop over the groups. -/
theorem parse_groups_traced_result (str : CString) (p q nwords : Nat) (buf : Vector UInt32 4) :
    (parseGroupsTraced str p q nwords buf).result = parseGroups str p q nwords buf := by
  rw [parseGroupsTraced, parseGroups]
  split
  · have hrest (buf : Vector UInt32 4) :=
      parse_groups_traced_result str (p + DIGITS_PER_INT) q nwords buf
    simp only [result_bind, atoui_traced_result, add_next_word_traced_result, hrest]
  · rfl
termination_by q - p
decreasing_by simp only [DIGITS_PER_INT]; omega

/-- The run with a record returns what `token_parse` returns. -/
theorem token_parse_traced_result (str : CString) (len : Nat) (token : Token) :
    (tokenParseTraced str len token).result = tokenParse str len token := by
  simp only [tokenParseTraced, tokenParse, result_bind, result_act, result_pure,
    atoui_traced_result, parse_groups_traced_result]
  rfl

/-! ## What they do -/

/-- Of a string of this length no byte after the terminator is read, of `mag` only the first word
is used, and the carry loop does not run. -/
def Access.Allowed (len : Nat) : Access → Prop
  | .readByte position => position ≤ len
  | .writeSignum => True
  | .readWord i => i = 0
  | .writeWord i => i = 0
  | .addNextWord words => words = 1
  | .carry _ => False

/-- A byte that is a digit lies before the terminating one. -/
theorem lt_of_read_digit {line : CString} {p : Nat} {c : UInt8} (hp : p ≤ line.strlen)
    (hread : line.read p = .ok c) (hdigit : ¬ (c < 48 ∨ c > 57)) : p < line.strlen := by
  rcases Nat.lt_or_eq_of_le hp with hlt | rfl
  · exact hlt
  · rw [CString.read_terminator] at hread
    cases hread
    exact absurd (.inl (by decide)) hdigit

/-- `atoui` stops at the terminator, which is not a digit. -/
theorem atoui_loop_only_does (line : CString) (n p : Nat) (value : UInt32)
    (hp : p ≤ line.strlen) :
    OnlyDoes (Access.Allowed line.strlen) (atouiLoopTraced line p n value) := by
  induction n generalizing p value with
  | zero => exact only_does_pure value
  | succ n ih =>
      refine (only_does_act (Access.readByte p) (line.read p) hp).bind ?_
      intro c hread
      split
      · exact only_does_pure 0
      · next hdigit => exact ih (p + 1) _ (lt_of_read_digit hp hread hdigit)

/-- `atoui` reads nothing after the terminating byte. -/
theorem atoui_only_does (line : CString) (p n : Nat) (hp : p ≤ line.strlen) :
    OnlyDoes (Access.Allowed line.strlen) (atouiTraced line p n) := by
  unfold atouiTraced
  split
  · exact only_does_pure 0
  · exact atoui_loop_only_does line n p 0 hp

/-- `add_next_word` of a token of one word touches that word only. -/
theorem add_next_word_traced_one (buf : Vector UInt32 4) (nextInt : UInt32) :
    addNextWordTraced buf 1 nextInt = (do
      act (.addNextWord 1) (pure ())
      let buf ← multiplyWordsTraced buf 1 0
      let word ← act (.readWord 0) (readWord buf 0)
      let buf ← act (.writeWord 0) (writeWord buf 0 (word + nextInt).toUInt64.toUInt32)
      pure buf) := by
  rw [addNextWordTraced]
  rfl

/-- With one word `add_next_word` reads and writes that word, and its carry loop does not run. -/
theorem add_next_word_only_does (len : Nat) (buf : Vector UInt32 4) (nextInt : UInt32) :
    OnlyDoes (Access.Allowed len) (addNextWordTraced buf 1 nextInt) := by
  have hread (result : Except Fault UInt32) :
      OnlyDoes (Access.Allowed len) (act (.readWord 0) result) := only_does_act _ result rfl
  have hwrite (result : Except Fault (Vector UInt32 4)) :
      OnlyDoes (Access.Allowed len) (act (.writeWord 0) result) := only_does_act _ result rfl
  have hentry : OnlyDoes (Access.Allowed len)
      (act (.addNextWord 1) (pure () : Except Fault Unit)) := only_does_act _ _ rfl
  have hmultiply : OnlyDoes (Access.Allowed len) (multiplyWordsTraced buf 1 0) :=
    (hread _).bind fun word _ => (hwrite _).bind fun buf _ => only_does_pure buf
  rw [add_next_word_traced_one]
  refine hentry.bind fun _ _ => hmultiply.bind fun buf _ => ?_
  exact (hread _).bind fun word _ => hwrite _

/-- The loop over the groups stays in the string and in the first word. -/
theorem parse_groups_only_does (str : CString) (p : Nat) (buf : Vector UInt32 4) :
    OnlyDoes (Access.Allowed str.strlen) (parseGroupsTraced str p str.strlen 1 buf) := by
  rw [parseGroupsTraced]
  split
  · next hlt =>
      refine (atoui_only_does str p DIGITS_PER_INT (Nat.le_of_lt hlt)).bind ?_
      intro localInt _
      refine (add_next_word_only_does str.strlen buf localInt).bind ?_
      intro buf _
      exact parse_groups_only_does str (p + DIGITS_PER_INT) buf
  · exact only_does_pure buf
termination_by str.strlen - p
decreasing_by simp only [DIGITS_PER_INT]; omega

/-- `token_parse` stays in the string and in the first word. -/
theorem token_parse_only_does (str : CString) (token : Token) :
    OnlyDoes (Access.Allowed str.strlen) (tokenParseTraced str str.strlen token) := by
  refine (only_does_act (Access.readByte 0) (str.read 0) (Nat.zero_le str.strlen)).bind ?_
  intro first hread
  -- a string that starts with a sign is not empty
  have hsign : first = 45 → 1 ≤ str.strlen := by
    rintro rfl
    by_contra hempty
    have hzero : str.strlen = 0 := by omega
    rw [← hzero, CString.read_terminator] at hread
    exact absurd (Except.ok.inj hread) (by decide)
  obtain ⟨signum, p, digits, hchoice, hp⟩ : ∃ (signum : UInt32) (p : Nat) (digits : UInt32),
      (if first = 45 then ((0xffffffff, 1, UInt32.ofNat str.strlen - 1) : UInt32 × Nat × UInt32)
        else if UInt32.ofNat str.strlen = 1 ∧ first = 48 then (0, 0, UInt32.ofNat str.strlen)
        else (1, 0, UInt32.ofNat str.strlen)) = (signum, p, digits) ∧ p ≤ str.strlen := by
    split
    · next hfirst => exact ⟨_, _, _, rfl, hsign hfirst⟩
    · split <;> exact ⟨_, _, _, rfl, Nat.zero_le _⟩
  simp only [hchoice]
  have hsignum : OnlyDoes (Access.Allowed str.strlen)
      (act .writeSignum (pure () : Except Fault Unit)) := only_does_act _ _ trivial
  have hwrite (result : Except Fault (Vector UInt32 4)) :
      OnlyDoes (Access.Allowed str.strlen) (act (.writeWord 0) result) := only_does_act _ result rfl
  refine hsignum.bind fun _ _ => (atoui_only_does str p _ hp).bind fun word _ =>
    (hwrite _).bind fun buf _ => ?_
  exact (parse_groups_only_does str _ buf).bind fun buf _ => only_does_pure _

/-! ## The token looked up -/

/-- The two tokens have the same sign word, length and words in use. -/
structure Token.SameInUse (t u : Token) : Prop where
  signum_eq : t.signum = u.signum
  length_eq : t.length = u.length
  words_eq : t.words = u.words

/-- `token_cmp` reads no word from `len` on. -/
theorem token_cmp_same_in_use {t u : Token} (h : t.SameInUse u) (s : Token) :
    tokenCmp s t = tokenCmp s u := by
  rw [tokenCmp, tokenCmp, h.signum_eq, h.length_eq, h.words_eq]

/-- The search reads no word of its token from `len` on. -/
theorem select_loop_same_in_use {t u : Token} (h : t.SameInUse u) (continuum : List Continuum)
    (ncontinuum : UInt32) (left right : Int) :
    selectLoop continuum ncontinuum t left right =
      selectLoop continuum ncontinuum u left right := by
  rw [selectLoop, selectLoop.eq_def continuum ncontinuum u]
  split
  · next hlt =>
      have hup := select_loop_same_in_use h continuum ncontinuum
        (left + (right - left) / 2 + 1) right
      have hdown := select_loop_same_in_use h continuum ncontinuum left
        (left + (right - left) / 2)
      simp only [token_cmp_same_in_use h, hup, hdown]
  · rfl
termination_by (right - left).toNat

/-- The search sees of a token what is in use of it. -/
theorem select_continuum_same_in_use {t u : Token} (h : t.SameInUse u)
    (continuum : List Continuum) (ncontinuum : UInt32) :
    selectContinuum continuum ncontinuum t = selectContinuum continuum ncontinuum u := by
  simp only [selectContinuum, token_cmp_same_in_use h, select_loop_same_in_use h]

/-- Whatever was in the token before, what is in use of it afterwards is the hash of the key. -/
theorem key_token_same_in_use (hashFunc : HashFunc) (key : CString) (token : Token) :
    ∃ made, keyToken hashFunc key token = .ok made ∧
      made.SameInUse (searchToken hashFunc key) := by
  obtain ⟨parsed, hparse⟩ : ∃ parsed, tokenParse key key.strlen token = .ok parsed := by
    obtain ⟨signum, word, hparse⟩ := token_parse_total key token
    exact ⟨_, hparse⟩
  have hmade : keyToken hashFunc key token =
      .ok (tokenSetInt (tokenSize parsed 1 one_le_mag) (hashFunc key.bytes)) := by
    simp only [keyToken, hparse, bind, Except.bind, pure, Except.pure]
  have hwords : ∀ other : Token,
      (tokenSetInt other (hashFunc key.bytes)).words = [hashFunc key.bytes] := by
    intro other
    rw [Token.words_of_one rfl]
    exact congrArg (fun word => [word]) (first_of_set other.mag _)
  exact ⟨_, hmade, rfl, rfl, (hwords _).trans (hwords tokenInit).symm⟩

/-- `token_parse` on any key and any token returns, reads no byte after the terminator, writes
nothing but `signum` and the first word and never runs the carry loop. What `select_connection`
then looks up is the hash of the key. -/
theorem token_parse_safe (hashFunc : HashFunc) (key : CString) (token : Token) :
    (∃ signum word, (tokenParseTraced key key.strlen token).result =
        .ok { token with signum, mag := token.mag.set 0 word mag_first }) ∧
      (tokenParseTraced key key.strlen token).result = tokenParse key key.strlen token ∧
      OnlyDoes (Access.Allowed key.strlen) (tokenParseTraced key key.strlen token) ∧
      ∃ made, keyToken hashFunc key token = .ok made ∧
        made.SameInUse (tokenSetInt tokenInit (hashFunc key.bytes)) ∧
        ∀ continuum ncontinuum, selectContinuum continuum ncontinuum made =
          selectContinuum continuum ncontinuum (tokenSetInt tokenInit (hashFunc key.bytes)) := by
  have hresult := token_parse_traced_result key key.strlen token
  refine ⟨?_, hresult, token_parse_only_does key token, ?_⟩
  · rw [hresult]
    exact token_parse_total key token
  · obtain ⟨made, hmade, hsame⟩ := key_token_same_in_use hashFunc key token
    exact ⟨made, hmade, hsame, fun continuum ncontinuum =>
      select_continuum_same_in_use hsame continuum ncontinuum⟩

end DynocClient
