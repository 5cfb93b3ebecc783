import DynocClient.Lib.Runs
import DynocClient.Token.Basic
import Mathlib.Logic.Function.Basic

/-!
# The client and the calls that set it up

The structures of `dynoc-core.h` and the functions of `dynoc-core.c` that fill them:
`dynoc_init`, `dynoc_datacenter_init`, `dynoc_rack_init` and `dynoc_add_node`.

A connection slot `&dc->rack[i].redis_conn_pool[j]` is an address, `Slot`, and the
`redis_connection` structs are a memory indexed by it, because they are what commands and
reconnect passes share and write. All else is a value. The arrays `rack` and `continuum` are
lists: the length of the first is `rack_count`, the second holds the elements written so far,
and `calloc` gave it room for `node_count` of them.

Contexts are the handles that hiredis hands out, numbered in the order it does.
-/

namespace DynocClient

/-- A `redisContext *` that is not `NULL`. -/
abbrev Ctx := Nat

/-- `struct redis_connection`, without its lock. -/
structure RedisConnection where
  status : Status
  ctx : Option Ctx
  deriving DecidableEq, Repr

/-- The address of a `redis_connection`: `redis_conn_pool[node]` of `rack[rack]` of the
datacenter of a type. -/
structure Slot where
  dcType : DcType
  rack : Nat
  node : Nat
  deriving DecidableEq, Repr

/-- `struct endpoint`. A host is `NULL` in an element that `calloc` zeroed and no call filled. -/
structure Endpoint where
  host : Option CString
  port : Int32
  pass : Option CString
  deriving DecidableEq

/-- `struct continuum`, without `value`, which nothing uses. -/
structure Continuum where
  index : UInt32
  endpoint : Endpoint
  token : Token
  deriving DecidableEq

/-- `struct rack`, without the pointer `redis_conn_pool`. -/
structure Rack where
  name : Option CString
  nodeCount : UInt32
  ncontinuum : UInt32
  continuum : List Continuum
  deriving DecidableEq

/-- `struct datacenter`; `rack_count` is the length of `rack`. -/
structure Datacenter where
  name : CString
  rack : List Rack
  dcType : DcType
  deriving DecidableEq

/-- `hash_type_t`, the functions of `HASH_CODEC`. -/
inductive HashType where
  | oneAtATime | md5 | crc16 | crc32 | crc32a | fnv1_64 | fnv1a_64 | fnv1_32 | fnv1a_32
  | hsieh | murmur | jenkins | murmur3 | invalid
  deriving DecidableEq, Repr

/-- `hash_func_t` on the bytes of a key. Its `int` result goes into a `uint32_t` unchanged. -/
abbrev HashFunc := List UInt8 → UInt32

/-- `struct dynoc`, without the thread id. -/
structure Dynoc where
  hashType : HashType
  hashFunc : Option HashFunc
  localDc : Option Datacenter
  remoteDc : Option Datacenter

/-- A `struct dynoc` together with the memory of its connection slots. -/
structure Client where
  dynoc : Dynoc
  conn : Slot → RedisConnection

/-- The arguments of `dynoc_add_node` that describe a node. -/
structure Node where
  ip : CString
  port : Int32
  pass : Option CString
  tokenStr : CString
  deriving DecidableEq

/-- The number of racks `calloc` made room for. -/
def Datacenter.rackCount (dc : Datacenter) : Nat := dc.rack.length

/-- `dc_type ? dynoc->local_dc : dynoc->remote_dc`. -/
def Dynoc.dc (dynoc : Dynoc) : DcType → Option Datacenter
  | .localDc => dynoc.localDc
  | .remoteDc => dynoc.remoteDc

/-- Store a datacenter under its type. -/
def Dynoc.setDc (dynoc : Dynoc) (dcType : DcType) (dc : Datacenter) : Dynoc :=
  match dcType with
  | .localDc => { dynoc with localDc := some dc }
  | .remoteDc => { dynoc with remoteDc := some dc }

/-- Store a datacenter under its type in the client. -/
def Client.withDc (client : Client) (dcType : DcType) (dc : Datacenter) : Client :=
  { client with dynoc := client.dynoc.setDc dcType dc }

/-- `dynoc_init`; the memory the slots will lie in is whatever it is. -/
def dynocInit (conn : Slot → RedisConnection) : Client :=
  { dynoc := { hashType := .murmur, hashFunc := none, localDc := none, remoteDc := none }
    conn }

/-- A rack as `calloc` leaves it. -/
def zeroRack : Rack := { name := none, nodeCount := 0, ncontinuum := 0, continuum := [] }

/-- A datacenter as `dynoc_datacenter_init` makes it. -/
def newDatacenter (rackCount : UInt32) (name : CString) (dcType : DcType) : Datacenter :=
  { name, rack := List.replicate rackCount.toNat zeroRack, dcType }

/-- `dynoc_datacenter_init`, which does nothing to a datacenter that exists. `allocated` says
whether its `malloc` succeeds. -/
def dynocDatacenterInit (client : Client) (allocated : Bool) (rackCount : UInt32)
    (name : CString) (dcType : DcType) : Client × Int :=
  match client.dynoc.dc dcType with
  | some _ => (client, 0)
  | none =>
      if allocated then (client.withDc dcType (newDatacenter rackCount name dcType), 0)
      else (client, -1)

/-- What `dynoc_rack_init` makes of the rack it finds. -/
def initRack (nodeCount : UInt32) (name : CString) : Rack :=
  { name := some name, nodeCount, ncontinuum := 0, continuum := [] }

/-- The slots of a new rack start `INVALID` and without a context. -/
def initSlots (conn : Slot → RedisConnection) (dcType : DcType) (rack : Nat)
    (nodeCount : UInt32) : Slot → RedisConnection := fun slot =>
  if slot.dcType = dcType ∧ slot.rack = rack ∧ slot.node < nodeCount.toNat then
    { status := .invalid, ctx := none }
  else conn slot

/-- `dynoc_rack_init`: the first rack without a name gets this one. Without such a rack nothing
happens, and the call returns 0 all the same. -/
def dynocRackInit (client : Client) (nodeCount : UInt32) (name : CString) (dcType : DcType) :
    Except Fault (Client × Int) :=
  match client.dynoc.dc dcType with
  | none => throw .nullDatacenter
  | some dc =>
      match dc.rack.findIdx? fun rack => rack.name.isNone with
      | none => pure (client, 0)
      | some i =>
          let dc := { dc with rack := dc.rack.set i (initRack nodeCount name) }
          let conn := initSlots client.conn dcType i nodeCount
          pure ({ client.withDc dcType dc with conn }, 0)

/-- `continuum_init`. -/
def continuumInit (node : Node) (index : UInt32) : Except Fault Continuum := do
  let token := tokenSize tokenInit 1 one_le_mag
  let token ← tokenParse node.tokenStr node.tokenStr.strlen token
  pure { index, token, endpoint := { host := some node.ip, port := node.port, pass := node.pass } }

/-- `continuum[i] = element`. The list keeps what is written past the allocation too, so that the
model can tell whether that happens. -/
def writeContinuum (continuum : List Continuum) (i : Nat) (element : Continuum) :
    List Continuum :=
  if i < continuum.length then continuum.set i element else continuum ++ [element]

/-- The loop body of `dynoc_add_node` on a rack of the name. -/
def addNodeToRack (node : Node) (rack : Rack) : Except Fault Rack := do
  let index := rack.ncontinuum
  let element ← continuumInit node index
  pure { rack with
    continuum := writeContinuum rack.continuum index.toNat element
    ncontinuum := rack.ncontinuum + 1 }

/-- The loop of `dynoc_add_node`, which goes on after a rack that has the name. -/
def addNodeLoop (node : Node) (rcName : CString) : List Rack → Except Fault (List Rack)
  | [] => pure []
  | rack :: racks => do
      let rack ← if rack.name = some rcName then addNodeToRack node rack else pure rack
      let racks ← addNodeLoop node rcName racks
      pure (rack :: racks)

/-- `dynoc_add_node`. -/
def dynocAddNode (client : Client) (node : Node) (rcName : CString) (dcType : DcType) :
    Except Fault (Client × Int) :=
  match client.dynoc.dc dcType with
  | none => throw .nullDatacenter
  | some dc => do
      let racks ← addNodeLoop node rcName dc.rack
      pure (client.withDc dcType { dc with rack := racks }, 0)

/-! ## Setup scripts -/

/-- A call of a setup script. -/
inductive SetupCall where
  | datacenterInit (allocated : Bool) (rackCount : UInt32) (name : CString) (dcType : DcType)
  | rackInit (nodeCount : UInt32) (name : CString) (dcType : DcType)
  | addNode (node : Node) (rcName : CString) (dcType : DcType)
  deriving DecidableEq

/-- Make the call: the client after it, and the value it returns. -/
def SetupCall.exec (client : Client) : SetupCall → Except Fault (Client × Int)
  | .datacenterInit allocated rackCount name dcType =>
      pure (dynocDatacenterInit client allocated rackCount name dcType)
  | .rackInit nodeCount name dcType => dynocRackInit client nodeCount name dcType
  | .addNode node rcName dcType => dynocAddNode client node rcName dcType

/-- A call as a step of a script; a fault has no next state. -/
def setupStep (client : Client) (call : SetupCall) : Option Client :=
  match call.exec client with
  | .ok (next, _) => some next
  | .error _ => none

end DynocClient
