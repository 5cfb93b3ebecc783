import DynocClient.Connection.World
import DynocClient.Lib.Comparator
import DynocClient.Lib.Sweep

/-!
# Opening and reopening the connections

`redis_connection_pool_init`, `dynoc_start` and `reconnect_datacenter`. Their loops go over the
slots in order, each with the endpoint it is to be connected to. The `status` variable lives
outside the loop, so it is what one turn carries to the next.
-/

namespace DynocClient

open Lib

/-- What a new connection meets: the outcome of the connect and of the `AUTH`. -/
structure Dial where
  connect : ConnectOutcome
  auth : Answer
  deriving DecidableEq, Repr

/-- What a reconnect pass meets at a slot. -/
structure Reconnect where
  ping : Answer
  dial : Dial
  deriving DecidableEq, Repr

/-- Open a connection for a slot, the part that the loop bodies of `redis_connection_pool_init`
and `reconnect_datacenter` share. `status` is the variable of the loop. -/
def dial (world : World) (slot : Slot) (endpoint : Endpoint) (outcome : Dial)
    (status : Status) : Status × World :=
  let (ctx, world) := world.redisConnect slot endpoint outcome.connect
  match outcome.connect with
  | .null | .err => (status, world.redisFree slot ctx)
  | .connected =>
      let (status, world) : Status × World :=
        match endpoint.pass with
        | none => (status, world)
        | some pass =>
            let (reply, world) := world.redisCommand slot ctx (.auth pass) outcome.auth
            -- the reply to an accepted `AUTH` is not freed, a refused one keeps its context
            if outcome.auth.accepted then (.valid, world)
            else (.invalid, world.freeReply slot reply)
      (status, world.write slot ⟨status, ctx⟩)

/-! ## `dynoc_start` -/

/-- `cmp`, the comparator given to `qsort`. -/
def cmp (ct1 ct2 : Continuum) : Int := tokenCmp ct1.token ct2.token

/-- The elements `0 .. ncontinuum - 1` sorted, and each given its position as index. -/
def sortContinuum (qsort : Qsort Continuum) (rack : Rack) : Rack :=
  let n := rack.ncontinuum.toNat
  let sorted := qsort.sort cmp (rack.continuum.take n)
  { rack with
    continuum := (sorted.mapIdx fun i element => { element with index := UInt32.ofNat i }) ++
      rack.continuum.drop n }

/-- The slots that `redis_connection_pool_init` goes through. -/
def Rack.poolTargets (dcType : DcType) (i : Nat) (rack : Rack) : List (Slot × Endpoint) :=
  (rack.continuum.take rack.ncontinuum.toNat).mapIdx fun j element =>
    (⟨dcType, i, j⟩, element.endpoint)

/-- The loop of `redis_connection_pool_init`. -/
def dialAll (dials : Slot → Dial) :
    List (Slot × Endpoint) → Status → World → Status × World :=
  loop fun (slot, endpoint) status world => dial world slot endpoint (dials slot) status

/-- `redis_connection_pool_init` on `rack[i]` of a datacenter. -/
def redisConnectionPoolInit (qsort : Qsort Continuum) (dials : Slot → Dial) (dcType : DcType)
    (i : Nat) (rack : Rack) (world : World) : Rack × World :=
  let rack := sortContinuum qsort rack
  (rack, (dialAll dials (rack.poolTargets dcType i) .valid world).2)

/-- The loop of `dynoc_start` over the racks of a datacenter, from `rack[i]` on. -/
def poolInitRacks (qsort : Qsort Continuum) (dials : Slot → Dial) (dcType : DcType) :
    Nat → List Rack → World → List Rack × World
  | _, [], world => ([], world)
  | i, rack :: racks, world =>
      let (rack, world) := redisConnectionPoolInit qsort dials dcType i rack world
      let (racks, world) := poolInitRacks qsort dials dcType (i + 1) racks world
      (rack :: racks, world)

/-- What `dynoc_start` does with one of its datacenters. -/
def startDatacenter (qsort : Qsort Continuum) (dials : Slot → Dial) (dcType : DcType) :
    Option Datacenter → World → Option Datacenter × World
  | none, world => (none, world)
  | some dc, world =>
      let (racks, world) := poolInitRacks qsort dials dcType 0 dc.rack world
      (some { dc with rack := racks }, world)

/-- `get_hash_func`, where `hashAlgos` is the table `hash_algos`. -/
def getHashFunc (hashAlgos : HashType → HashFunc) (hashType : HashType) : Option HashFunc :=
  if hashType = .invalid then none else some (hashAlgos hashType)

/-- `dynoc_start`, up to the thread it creates: the client's topology from then on, and the first
state of its connections. -/
def dynocStart (hashAlgos : HashType → HashFunc) (qsort : Qsort Continuum)
    (dials : Slot → Dial) (client : Client) : Dynoc × World :=
  let hashFunc := getHashFunc hashAlgos client.dynoc.hashType
  let (localDc, world) :=
    startDatacenter qsort dials .localDc client.dynoc.localDc (.initial client.conn)
  let (remoteDc, world) := startDatacenter qsort dials .remoteDc client.dynoc.remoteDc world
  ({ client.dynoc with hashFunc, localDc, remoteDc }, world)

/-! ## `reconnect_datacenter` -/

/-- The endpoint of `continuum[j]`; `calloc` left those that no call filled zeroed. -/
def Rack.endpointAt (rack : Rack) (j : Nat) : Endpoint :=
  match rack.continuum[j]? with
  | some element => element.endpoint
  | none => { host := none, port := 0, pass := none }

/-- The slots that `reconnect_datacenter` goes through, all `node_count` of each rack. -/
def Datacenter.reconnectTargets (dcType : DcType) (dc : Datacenter) : List (Slot × Endpoint) :=
  (dc.rack.mapIdx fun i rack =>
    (List.range rack.nodeCount.toNat).map fun j => (⟨dcType, i, j⟩, rack.endpointAt j)).flatten

/-- The first `if` of the loop body: a slot whose `PING` gets no reply is reset. -/
def pingSlot (world : World) (slot : Slot) (answer : Answer) : World :=
  match (world.conn slot).status with
  | .invalid => world
  | .valid =>
      let ctx := (world.conn slot).ctx
      let (reply, world) := world.redisCommand slot ctx .ping answer
      match reply with
      | some _ => world.freeReply slot reply
      | none => (world.redisFree slot ctx).write slot ⟨.invalid, none⟩

/-- The loop body of `reconnect_datacenter`, one critical section. -/
def reconnectSlot (world : World) (slot : Slot) (endpoint : Endpoint) (outcome : Reconnect)
    (status : Status) : Status × World :=
  let world := pingSlot (world.lock slot) slot outcome.ping
  let (status, world) :=
    match (world.conn slot).status with
    | .invalid => dial world slot endpoint outcome.dial status
    | .valid => (status, world)
  (status, world.unlock slot)

/-- The two loops of `reconnect_datacenter`, as one over all slots. -/
def reconnectAll (outcomes : Slot → Reconnect) :
    List (Slot × Endpoint) → Status → World → Status × World :=
  loop fun (slot, endpoint) status world =>
    reconnectSlot world slot endpoint (outcomes slot) status

/-- `reconnect_datacenter`, not interrupted by a command. -/
def reconnectDatacenter (outcomes : Slot → Reconnect) (dcType : DcType) (dc : Datacenter)
    (world : World) : World :=
  (reconnectAll outcomes (dc.reconnectTargets dcType) .valid world).2

/-! ## What opening a connection does -/

/-- The value of the loop's `status` after a connect that succeeded. -/
def dialStatus (endpoint : Endpoint) (outcome : Dial) (status : Status) : Status :=
  match endpoint.pass with
  | none => status
  | some _ => if outcome.auth.accepted then .valid else .invalid

section Dial

variable (world : World) (slot : Slot) (endpoint : Endpoint) {outcome : Dial} (status : Status)

/-- A connect that fails leaves the slots and the loop's `status` alone. -/
theorem dial_failed (h : outcome.connect ≠ .connected) :
    (dial world slot endpoint outcome status).1 = status ∧
      (dial world slot endpoint outcome status).2.conn = world.conn := by
  cases hconnect : outcome.connect with
  | connected => exact absurd hconnect h
  | null | err => simp [dial, hconnect, World.redisConnect]

/-- A connect that fails gives back the context it may have got. -/
theorem dial_failed_ctxs (h : outcome.connect ≠ .connected) :
    (dial world slot endpoint outcome status).2.ctxs = world.ctxs ∨
      (dial world slot endpoint outcome status).2.ctxs =
        world.ctxs.acquire.release world.ctxs.issued := by
  cases hconnect : outcome.connect with
  | connected => exact absurd hconnect h
  | null => exact .inl (by simp [dial, hconnect, World.redisConnect, World.redisFree])
  | err => exact .inr (by simp [dial, hconnect, World.redisConnect])

/-- A connect that succeeds puts a fresh context into the slot, with the status that `AUTH`, or
the loop's `status`, decides. -/
theorem dial_connected (h : outcome.connect = .connected) :
    (dial world slot endpoint outcome status).1 = dialStatus endpoint outcome status ∧
      (dial world slot endpoint outcome status).2.conn = Function.update world.conn slot
        ⟨dialStatus endpoint outcome status, some world.ctxs.issued⟩ ∧
      (dial world slot endpoint outcome status).2.ctxs = world.ctxs.acquire := by
  cases hpass : endpoint.pass with
  | none => simp [dial, h, World.redisConnect, hpass, dialStatus, World.write]
  | some pass =>
      simp only [dial, h, World.redisConnect, hpass, dialStatus]
      split <;> simp [World.write]

/-- A dial changes no other slot. -/
theorem dial_other {other : Slot} (outcome : Dial) (h : other ≠ slot) :
    (dial world slot endpoint outcome status).2.conn other = world.conn other := by
  by_cases hconnect : outcome.connect = .connected
  · rw [(dial_connected world slot endpoint status hconnect).2.1, Function.update_of_ne h]
  · rw [(dial_failed world slot endpoint status hconnect).2]

end Dial

/-! ## What a turn of the reconnect pass does -/

/-- The slot is `VALID` and answers `PING`. -/
def Alive (world : World) (slot : Slot) (answer : Answer) : Prop :=
  (world.conn slot).status = .valid ∧ answer.reply ≠ none

instance (world : World) (slot : Slot) (answer : Answer) :
    Decidable (Alive world slot answer) :=
  inferInstanceAs (Decidable (_ ∧ _))

section Ping

variable {world : World} {slot : Slot} {answer : Answer}

/-- A slot that is not `VALID` is sent no `PING`. -/
theorem ping_slot_invalid (h : (world.conn slot).status = .invalid) :
    pingSlot world slot answer = world := by
  unfold pingSlot
  rw [h]

/-- A slot that answers keeps its connection. -/
theorem ping_slot_alive (h : Alive world slot answer) :
    (pingSlot world slot answer).conn = world.conn ∧
      (pingSlot world slot answer).ctxs = world.ctxs := by
  obtain ⟨hvalid, hreply⟩ := h
  cases htype : answer.reply with
  | none => exact absurd htype hreply
  | some type => simp [pingSlot, hvalid, World.redisCommand, htype]

/-- A slot that does not answer gives up its context. -/
theorem ping_slot_lost (hvalid : (world.conn slot).status = .valid) (h : answer.reply = none) :
    pingSlot world slot answer =
      ((world.emit slot (.command (world.conn slot).ctx .ping answer)).redisFree slot
        (world.conn slot).ctx).write slot ⟨.invalid, none⟩ := by
  simp [pingSlot, hvalid, World.redisCommand, h]

/-- After the `PING` a slot is `VALID` exactly if it was alive, and no other slot has changed. -/
theorem ping_slot_conn (world : World) (slot : Slot) (answer : Answer) :
    (((pingSlot world slot answer).conn slot).status = .valid ↔ Alive world slot answer) ∧
      ∀ other, other ≠ slot → (pingSlot world slot answer).conn other = world.conn other := by
  cases hstatus : (world.conn slot).status with
  | invalid =>
      rw [ping_slot_invalid hstatus]
      exact ⟨⟨fun h => by simp [hstatus] at h, fun h => h.1⟩, fun _ _ => rfl⟩
  | valid =>
      by_cases hreply : answer.reply = none
      · rw [ping_slot_lost hstatus hreply]
        refine ⟨?_, fun other hother => ?_⟩
        · simp [Alive, hreply]
        · rw [World.write_other _ _ _ _ hother]
          simp
      · have halive : Alive world slot answer := ⟨hstatus, hreply⟩
        rw [(ping_slot_alive halive).1]
        exact ⟨⟨fun _ => halive, fun h => h.1⟩, fun _ _ => rfl⟩

variable {endpoint : Endpoint} {outcome : Reconnect} {status : Status}

/-- The turn of a slot that is alive. -/
theorem reconnect_slot_alive (h : Alive world slot outcome.ping) :
    reconnectSlot world slot endpoint outcome status =
      (status, (pingSlot (world.lock slot) slot outcome.ping).unlock slot) := by
  have hvalid := (ping_slot_conn (world.lock slot) slot outcome.ping).1.mpr h
  simp only [reconnectSlot, hvalid]

/-- The turn of a slot that is not: a new connection is dialled. -/
theorem reconnect_slot_dial (h : ¬ Alive world slot outcome.ping) :
    reconnectSlot world slot endpoint outcome status =
      ((dial (pingSlot (world.lock slot) slot outcome.ping) slot endpoint outcome.dial status).1,
        (dial (pingSlot (world.lock slot) slot outcome.ping) slot endpoint outcome.dial
          status).2.unlock slot) := by
  have hinvalid : ((pingSlot (world.lock slot) slot outcome.ping).conn slot).status = .invalid := by
    cases hstatus : ((pingSlot (world.lock slot) slot outcome.ping).conn slot).status with
    | invalid => rfl
    | valid => exact absurd ((ping_slot_conn (world.lock slot) slot outcome.ping).1.mp hstatus) h
  simp only [reconnectSlot, hinvalid]

/-- A turn changes no other slot. -/
theorem reconnect_slot_other {other : Slot} (h : other ≠ slot) :
    (reconnectSlot world slot endpoint outcome status).2.conn other = world.conn other := by
  have hping := (ping_slot_conn (world.lock slot) slot outcome.ping).2 other h
  by_cases halive : Alive world slot outcome.ping
  · rw [reconnect_slot_alive halive]
    exact hping
  · rw [reconnect_slot_dial halive]
    exact (dial_other _ slot endpoint status outcome.dial h).trans hping

end Ping

end DynocClient
