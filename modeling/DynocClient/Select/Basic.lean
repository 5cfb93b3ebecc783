import DynocClient.Setup.Basic

/-!
# Choosing the connection for a key

`select_continuum` and `select_connection`. The `token`, `dc_type` and `rc_idx` that a command
passes by pointer are one value, the `Cursor`, that each call hands to the next.
-/

namespace DynocClient

/-! ## `select_continuum` -/

/-- `continuum[i]`, of which the elements `0 .. ncontinuum - 1` are there to be read. -/
def readContinuum (continuum : List Continuum) (ncontinuum : UInt32) (i : Int) :
    Except Fault Continuum :=
  if 0 ≤ i ∧ i < ncontinuum.toNat then
    match continuum[i.toNat]? with
    | some element => pure element
    | none => throw .continuumAccess
  else throw .continuumAccess

/-- The loop of `select_continuum`, with `left` and `right` as positions. -/
def selectLoop (continuum : List Continuum) (ncontinuum : UInt32) (token : Token)
    (left right : Int) : Except Fault UInt32 :=
  if left < right then
    let middle := left + (right - left) / 2
    match readContinuum continuum ncontinuum middle with
    | .error fault => throw fault
    | .ok element =>
        let cmp := tokenCmp element.token token
        if cmp = 0 then pure element.index
        else if cmp < 0 then selectLoop continuum ncontinuum token (middle + 1) right
        else selectLoop continuum ncontinuum token left middle
  else do
    let element ← readContinuum continuum ncontinuum right
    pure element.index
termination_by (right - left).toNat

/-- `select_continuum`. -/
def selectContinuum (continuum : List Continuum) (ncontinuum : UInt32) (token : Token) :
    Except Fault UInt32 := do
  let left : Int := 0
  -- with no element this is the position before the array
  let right : Int := ncontinuum.toNat - 1
  let last ← readContinuum continuum ncontinuum right
  if tokenCmp last.token token < 0 then
    let first ← readContinuum continuum ncontinuum left
    pure first.index
  else
    let first ← readContinuum continuum ncontinuum left
    if 0 ≤ tokenCmp first.token token then pure first.index
    else selectLoop continuum ncontinuum token left right

/-! ## `select_connection` -/

/-- The variables of a command that `select_connection` changes. `rc_idx` never passes
`rack_count` by more than one, so it cannot wrap. -/
structure Cursor where
  token : Token
  dcType : DcType
  rcIdx : Nat
  deriving DecidableEq

/-- The cursor every command starts with. -/
def Cursor.start : Cursor := { token := tokenInit, dcType := .localDc, rcIdx := 0 }

/-- The token that `select_connection` looks up, made in the command's own `struct token`. -/
def keyToken (hashFunc : HashFunc) (key : CString) (token : Token) : Except Fault Token := do
  let token ← tokenParse key key.strlen token
  let hash := hashFunc key.bytes
  pure (tokenSetInt (tokenSize token 1 one_le_mag) hash)

/-- `&dc->rack[(*rc_idx)++]` and the connection of its owner, where `dc` is the datacenter stored
as `dcType`. -/
def pickRack (dcType : DcType) (dc : Datacenter) (cursor : Cursor) :
    Except Fault (Option Slot × Cursor) :=
  match dc.rack[cursor.rcIdx]? with
  | none => throw .rackAccess
  | some rack => do
      let index ← selectContinuum rack.continuum rack.ncontinuum cursor.token
      pure (some ⟨dcType, cursor.rcIdx, index.toNat⟩, { cursor with rcIdx := cursor.rcIdx + 1 })

/-- `select_connection`. It starts from `dc_type ? local_dc : remote_dc`, where `dc_type` is the
pointer and never `NULL`; so this is the local datacenter in every call. -/
def selectConnection (dynoc : Dynoc) (key : CString) (cursor : Cursor) :
    Except Fault (Option Slot × Cursor) :=
  match dynoc.hashFunc with
  | none => throw .nullHash
  | some hashFunc => do
      let token ← keyToken hashFunc key cursor.token
      let cursor := { cursor with token }
      match dynoc.localDc with
      | none => pure (none, cursor)
      | some dc =>
          if cursor.rcIdx ≥ dc.rackCount then
            match cursor.dcType with
            | .localDc =>
                let cursor := { cursor with dcType := .remoteDc, rcIdx := 0 }
                match dynoc.remoteDc with
                | none => pure (none, cursor)
                -- the index is not compared with the `rack_count` of this datacenter
                | some dc => pickRack .remoteDc dc cursor
            | .remoteDc => pure (none, cursor)
          else pickRack .localDc dc cursor

end DynocClient
