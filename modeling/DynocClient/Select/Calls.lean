import DynocClient.Select.Basic
import DynocClient.Token.Parse

/-!
# What a call of `select_connection` does

`select_connection_eq` takes a call apart: which rack it turns to depends on the cursor and the
two rack counts alone (`nextRack`), and what it looks up in the rack on the hash of the key
alone (`searchToken`). Each call that returns a connection brings the cursor closer to its end
(`select_connection_remaining`), so the calls of a command can be collected in a list, `offers`.
-/

namespace DynocClient

/-! ## The token looked up -/

/-- The token with the hash of the key as its word. -/
def searchToken (hashFunc : HashFunc) (key : CString) : Token :=
  tokenSetInt tokenInit (hashFunc key.bytes)

/-- No word but the first has been written. -/
def Token.Scratch (token : Token) : Prop :=
  token.mag.set 0 0 mag_first = tokenInit.mag.set 0 0 mag_first

/-- A new token is a scratch token. -/
theorem scratch_init : tokenInit.Scratch := rfl

/-- Once its first word is written, a scratch token is like a new one. -/
theorem Token.Scratch.set_zero {token : Token} (h : token.Scratch) (word : UInt32) :
    token.mag.set 0 word mag_first = tokenInit.mag.set 0 word mag_first := by
  calc token.mag.set 0 word mag_first
      = (token.mag.set 0 0 mag_first).set 0 word mag_first := by rw [Vector.set_set]
    _ = (tokenInit.mag.set 0 0 mag_first).set 0 word mag_first := by rw [h]
    _ = tokenInit.mag.set 0 word mag_first := by rw [Vector.set_set]

/-- The token of a search is a scratch token. -/
theorem scratch_search (hashFunc : HashFunc) (key : CString) :
    (searchToken hashFunc key).Scratch := by
  simp [Token.Scratch, searchToken, tokenSetInt, Vector.set_set]

/-- Every key has a token. -/
theorem key_token_total (hashFunc : HashFunc) (key : CString) (token : Token) :
    ∃ made, keyToken hashFunc key token = .ok made := by
  obtain ⟨signum, word, hparse⟩ := token_parse_total key token
  simp only [keyToken, hparse, bind, Except.bind, pure, Except.pure]
  exact ⟨_, rfl⟩

/-- Whatever `token_parse` makes of the key, the token looked up is that of its hash. -/
theorem key_token_eq (hashFunc : HashFunc) (key : CString) {token : Token} (h : token.Scratch) :
    keyToken hashFunc key token = .ok (searchToken hashFunc key) := by
  obtain ⟨signum, word, hparse⟩ := token_parse_total key token
  simp only [keyToken, hparse, bind, Except.bind, pure, Except.pure, tokenSize, tokenSetInt,
    searchToken, Vector.set_set, h.set_zero]

/-! ## The rack it turns to -/

/-- The datacenter and the rack index that a call turns to, if any. -/
def nextRack (dynoc : Dynoc) (cursor : Cursor) : Option (DcType × Datacenter × Nat) :=
  match dynoc.localDc with
  | none => none
  | some dc =>
      if cursor.rcIdx < dc.rackCount then some (.localDc, dc, cursor.rcIdx)
      else
        match cursor.dcType with
        | .localDc => dynoc.remoteDc.map fun dc => (.remoteDc, dc, 0)
        | .remoteDc => none

/-- The cursor after a rack of a datacenter has been offered. It keeps saying `REMOTE_DC` while
local racks are offered again. -/
def Cursor.after (cursor : Cursor) (token : Token) (dcType : DcType) (rack : Nat) : Cursor :=
  { token, dcType := if dcType = .remoteDc then .remoteDc else cursor.dcType, rcIdx := rack + 1 }

/-- What a call does to the rack it turns to. -/
def offerRack (token : Token) (dcType : DcType) (dc : Datacenter) (i : Nat) (cursor : Cursor) :
    Except Fault (Option Slot × Cursor) :=
  match dc.rack[i]? with
  | none => throw .rackAccess
  | some rack => do
      let index ← selectContinuum rack.continuum rack.ncontinuum token
      pure (some ⟨dcType, i, index.toNat⟩, cursor.after token dcType i)

/-- A call either finds no rack to turn to and returns `NULL`, or offers the owner in the rack. -/
theorem select_connection_eq {dynoc : Dynoc} {hashFunc : HashFunc}
    (hhash : dynoc.hashFunc = some hashFunc) {key : CString} {cursor : Cursor} {token : Token}
    (htoken : keyToken hashFunc key cursor.token = .ok token) :
    match nextRack dynoc cursor with
    | none => ∃ next, selectConnection dynoc key cursor = .ok (none, next)
    | some (dcType, dc, i) =>
        selectConnection dynoc key cursor = offerRack token dcType dc i cursor := by
  simp only [selectConnection, hhash, htoken, nextRack]
  cases hlocal : dynoc.localDc with
  | none => exact ⟨_, rfl⟩
  | some dc =>
      by_cases hlt : cursor.rcIdx < dc.rackCount
      · have hge : ¬ cursor.rcIdx ≥ dc.rackCount := Nat.not_le.mpr hlt
        simp only [hlt, if_true, hge, if_false, bind, Except.bind]
        rfl
      · have hge : cursor.rcIdx ≥ dc.rackCount := Nat.not_lt.mp hlt
        simp only [hlt, if_false, hge, if_true]
        cases hdcType : cursor.dcType with
        | remoteDc => exact ⟨_, rfl⟩
        | localDc =>
            cases hremote : dynoc.remoteDc with
            | none => exact ⟨_, rfl⟩
            | some remote => rfl

/-! ## The calls of a command -/

/-- What is left to offer: the local racks from the cursor on, and before the switch also one
remote rack and the local racks again. -/
def Cursor.remaining (dynoc : Dynoc) (cursor : Cursor) : Nat :=
  let rackCount := (dynoc.localDc.map Datacenter.rackCount).getD 0
  match cursor.dcType with
  | .localDc => (rackCount - cursor.rcIdx) + 1 + rackCount
  | .remoteDc => rackCount - cursor.rcIdx

/-- A call turns to the local rack that the index names or, when there is none and the cursor
has not been there, to remote rack 0. -/
theorem next_rack_cases {dynoc : Dynoc} {cursor : Cursor} {dcType : DcType} {dc : Datacenter}
    {i : Nat} (h : nextRack dynoc cursor = some (dcType, dc, i)) :
    (dcType = .localDc ∧ dynoc.localDc = some dc ∧ i = cursor.rcIdx ∧ i < dc.rackCount) ∨
      (dcType = .remoteDc ∧ dynoc.remoteDc = some dc ∧ i = 0 ∧ cursor.dcType = .localDc ∧
        ∃ localDc, dynoc.localDc = some localDc ∧ localDc.rackCount ≤ cursor.rcIdx) := by
  unfold nextRack at h
  cases hlocal : dynoc.localDc with
  | none => simp [hlocal] at h
  | some localDc =>
      simp only [hlocal] at h
      by_cases hlt : cursor.rcIdx < localDc.rackCount
      · obtain ⟨rfl, rfl, rfl⟩ : DcType.localDc = dcType ∧ localDc = dc ∧ cursor.rcIdx = i := by
          simpa [hlt] using h
        exact .inl ⟨rfl, rfl, rfl, hlt⟩
      · cases hdcType : cursor.dcType with
        | remoteDc => simp [hdcType, hlt] at h
        | localDc =>
            obtain ⟨remoteDc, hremote, rfl, rfl, rfl⟩ : ∃ remoteDc,
                dynoc.remoteDc = some remoteDc ∧ DcType.remoteDc = dcType ∧ remoteDc = dc ∧
                  0 = i := by
              simpa [hdcType, hlt] using h
            exact .inr ⟨rfl, hremote, rfl, rfl, localDc, rfl, Nat.not_lt.mp hlt⟩

/-- Each rack brings the cursor closer to the end. -/
theorem next_rack_remaining {dynoc : Dynoc} {cursor : Cursor} {dcType : DcType} {dc : Datacenter}
    {i : Nat} (h : nextRack dynoc cursor = some (dcType, dc, i)) (token : Token) :
    (cursor.after token dcType i).remaining dynoc < cursor.remaining dynoc := by
  rcases next_rack_cases h with ⟨rfl, hlocal, rfl, hlt⟩ |
    ⟨rfl, -, rfl, hdcType, localDc, hlocal, hge⟩
  · cases hdcType : cursor.dcType <;>
      simp only [Cursor.remaining, Cursor.after, hlocal, hdcType, Option.map_some,
        Option.getD_some, reduceCtorEq, if_false] <;>
      omega
  · simp only [Cursor.remaining, Cursor.after, hlocal, hdcType, Option.map_some,
      Option.getD_some, if_true]
    omega

/-- Everything that a call which returns a connection does to the cursor. -/
theorem select_connection_some {dynoc : Dynoc} {key : CString} {cursor next : Cursor}
    {slot : Slot} (h : selectConnection dynoc key cursor = .ok (some slot, next)) :
    ∃ hashFunc token dcType dc i rack index, dynoc.hashFunc = some hashFunc ∧
      keyToken hashFunc key cursor.token = .ok token ∧
      nextRack dynoc cursor = some (dcType, dc, i) ∧ dc.rack[i]? = some rack ∧
      selectContinuum rack.continuum rack.ncontinuum token = .ok index ∧
      slot = ⟨dcType, i, index.toNat⟩ ∧ next = cursor.after token dcType i := by
  cases hhash : dynoc.hashFunc with
  | none => simp [selectConnection, hhash, throw, throwThe, MonadExceptOf.throw] at h
  | some hashFunc =>
      obtain ⟨token, htoken⟩ := key_token_total hashFunc key cursor.token
      have heq := select_connection_eq hhash htoken
      cases hnext : nextRack dynoc cursor with
      | none =>
          rw [hnext] at heq
          obtain ⟨_, heq⟩ := heq
          simp [heq] at h
      | some target =>
          obtain ⟨dcType, dc, i⟩ := target
          rw [hnext] at heq
          simp only [heq, offerRack] at h
          cases hrack : dc.rack[i]? with
          | none => simp [hrack, throw, throwThe, MonadExceptOf.throw] at h
          | some rack =>
              cases hindex : selectContinuum rack.continuum rack.ncontinuum token with
              | error fault => simp [hrack, hindex, bind, Except.bind] at h
              | ok index =>
                  simp only [hrack, hindex, bind, Except.bind, pure, Except.pure,
                    Except.ok.injEq, Prod.mk.injEq, Option.some.injEq] at h
                  exact ⟨hashFunc, token, dcType, dc, i, rack, index, rfl, htoken, rfl, hrack,
                    hindex, h.1.symm, h.2.symm⟩

/-- Each slot offered brings the cursor closer to the end. -/
theorem select_connection_remaining {dynoc : Dynoc} {key : CString} {cursor next : Cursor}
    {slot : Slot} (h : selectConnection dynoc key cursor = .ok (some slot, next)) :
    next.remaining dynoc < cursor.remaining dynoc := by
  obtain ⟨_, token, dcType, dc, i, _, _, _, _, hnext, _, _, _, rfl⟩ := select_connection_some h
  exact next_rack_remaining hnext token

/-- The connections that the successive calls return up to the first `NULL`. -/
def offers (dynoc : Dynoc) (key : CString) (cursor : Cursor) : Except Fault (List Slot) :=
  match _h : selectConnection dynoc key cursor with
  | .error fault => throw fault
  | .ok (none, _) => pure []
  | .ok (some slot, next) => do
      let rest ← offers dynoc key next
      pure (slot :: rest)
termination_by cursor.remaining dynoc
decreasing_by exact select_connection_remaining _h

/-- Where no slot is offered the offers end. -/
theorem offers_none {dynoc : Dynoc} {key : CString} {cursor next : Cursor}
    (h : selectConnection dynoc key cursor = .ok (none, next)) :
    offers dynoc key cursor = .ok [] := by
  rw [offers]
  split <;> simp_all [pure, Except.pure]

/-- A slot offered is the first, and the others follow from the next cursor. -/
theorem offers_some {dynoc : Dynoc} {key : CString} {cursor next : Cursor} {slot : Slot}
    (h : selectConnection dynoc key cursor = .ok (some slot, next)) :
    offers dynoc key cursor = (offers dynoc key next).map (slot :: ·) := by
  rw [offers]
  split
  · simp_all
  · simp_all
  · rename_i hsome
    rw [h] at hsome
    cases hsome
    cases offers dynoc key next <;> rfl

/-- A fault is a fault of the offers. -/
theorem offers_error {dynoc : Dynoc} {key : CString} {cursor : Cursor} {fault : Fault}
    (h : selectConnection dynoc key cursor = .error fault) :
    offers dynoc key cursor = .error fault := by
  rw [offers]
  split <;> simp_all [throw, throwThe, MonadExceptOf.throw]

/-- The calls behind a list of connections: it is empty if the first call returns `NULL`. -/
theorem select_of_offers_nil {dynoc : Dynoc} {key : CString} {cursor : Cursor}
    (h : offers dynoc key cursor = .ok []) :
    ∃ next, selectConnection dynoc key cursor = .ok (none, next) := by
  cases hcall : selectConnection dynoc key cursor with
  | error fault => simp [offers_error hcall] at h
  | ok result =>
      obtain ⟨slot, next⟩ := result
      cases slot with
      | none => exact ⟨next, rfl⟩
      | some slot =>
          rw [offers_some hcall] at h
          cases hrest : offers dynoc key next <;> simp [hrest, Except.map] at h

/-- It begins with what the first call returns, and the later calls return the rest. -/
theorem select_of_offers_cons {dynoc : Dynoc} {key : CString} {cursor : Cursor} {slot : Slot}
    {rest : List Slot} (h : offers dynoc key cursor = .ok (slot :: rest)) :
    ∃ next, selectConnection dynoc key cursor = .ok (some slot, next) ∧
      offers dynoc key next = .ok rest := by
  cases hcall : selectConnection dynoc key cursor with
  | error fault => simp [offers_error hcall] at h
  | ok result =>
      obtain ⟨found, next⟩ := result
      cases found with
      | none => simp [offers_none hcall] at h
      | some found =>
          rw [offers_some hcall] at h
          cases hrest : offers dynoc key next with
          | error fault => simp [hrest, Except.map] at h
          | ok tail =>
              obtain ⟨rfl, rfl⟩ : found = slot ∧ tail = rest := by
                simpa [hrest, Except.map] using h
              exact ⟨next, rfl, hrest⟩

end DynocClient
