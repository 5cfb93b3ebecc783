import DynocClient.Connection.Pool

/-!
# Which endpoint each slot is dialled to

The connects in the trace, each with its slot. `dynoc_start` makes exactly those that
`Dynoc.poolTargets` reads off the topology it leaves (`dynoc_start_connects`), and a reconnect
pass only some of `Datacenter.reconnectTargets` (`reconnect_all_connects`).
-/

namespace DynocClient

open Lib

/-- The endpoint, if the call connects to one. -/
def ExternalCall.connectsTo : ExternalCall → Option Endpoint
  | .connect endpoint _ => some endpoint
  | _ => none

namespace World

/-- The connects so far. -/
def connects (world : World) : List (Slot × Endpoint) :=
  world.trace.filterMap fun event => event.call.connectsTo.map fun endpoint =>
    (event.slot, endpoint)

/-- A call adds its connect, if it is one, at the end. -/
theorem connects_emit (world : World) (slot : Slot) (call : ExternalCall) :
    (world.emit slot call).connects =
      world.connects ++ (call.connectsTo.map fun endpoint => (slot, endpoint)).toList := by
  unfold connects emit
  rw [List.filterMap_append]
  cases h : call.connectsTo <;> simp [h]

/-- The connects are read from the trace alone. -/
theorem connects_of_trace {world other : World} (h : world.trace = other.trace) :
    world.connects = other.connects := by
  simp only [connects, h]

/-- A write to a connection makes no connect. -/
@[simp] theorem connects_write (world : World) (slot : Slot) (redisConn : RedisConnection) :
    (world.write slot redisConn).connects = world.connects := rfl

/-- Taking a lock makes no connect. -/
@[simp] theorem connects_lock (world : World) (slot : Slot) :
    (world.lock slot).connects = world.connects := by
  rw [lock, connects_emit]
  exact List.append_nil _

/-- Releasing a lock makes no connect. -/
@[simp] theorem connects_unlock (world : World) (slot : Slot) :
    (world.unlock slot).connects = world.connects := by
  rw [unlock, connects_emit]
  exact List.append_nil _

/-- `redisFree` makes no connect. -/
@[simp] theorem connects_redis_free (world : World) (slot : Slot) (ctx : Option Ctx) :
    (world.redisFree slot ctx).connects = world.connects := by
  cases ctx with
  | none => rfl
  | some ctx =>
      rw [redisFree, connects_emit]
      exact List.append_nil _

/-- `freeReplyObject` makes no connect. -/
@[simp] theorem connects_free_reply (world : World) (slot : Slot) (reply : Option Reply) :
    (world.freeReply slot reply).connects = world.connects := by
  cases reply with
  | none => rfl
  | some reply =>
      rw [freeReply, connects_emit]
      exact List.append_nil _

/-- A command makes no connect. -/
@[simp] theorem connects_redis_command (world : World) (slot : Slot) (ctx : Option Ctx)
    (request : Request) (answer : Answer) :
    (world.redisCommand slot ctx request answer).2.connects = world.connects := by
  have htrace : (world.redisCommand slot ctx request answer).2.trace =
      (world.emit slot (.command ctx request answer)).trace := redis_command_trace ..
  rw [connects_of_trace htrace, connects_emit]
  exact List.append_nil _

/-- `redisConnectWithTimeout` makes one connect, also where it fails. -/
@[simp] theorem connects_redis_connect (world : World) (slot : Slot) (endpoint : Endpoint)
    (outcome : ConnectOutcome) :
    (world.redisConnect slot endpoint outcome).2.connects =
      world.connects ++ [(slot, endpoint)] := by
  cases outcome <;> exact connects_emit _ _ _

end World

/-- A dial makes one connect, whatever its outcome and the AUTH after it. -/
theorem dial_connects (world : World) (slot : Slot) (endpoint : Endpoint) (outcome : Dial)
    (status : Status) :
    (dial world slot endpoint outcome status).2.connects =
      world.connects ++ [(slot, endpoint)] := by
  unfold dial
  cases outcome.connect with
  | null | err => simp
  | connected =>
      cases endpoint.pass with
      | none => simp
      | some pass => cases outcome.auth.accepted <;> simp

/-- The slots that `dynoc_start` goes through in a datacenter whose racks it has sorted, from
rack `i` on. -/
def poolTargetsFrom (dcType : DcType) (i : Nat) (racks : List Rack) : List (Slot × Endpoint) :=
  (racks.mapIdx fun k rack => rack.poolTargets dcType (i + k)).flatten

/-- The targets of a datacenter are those of its first rack, then those of the others. -/
theorem pool_targets_from_cons (dcType : DcType) (i : Nat) (rack : Rack) (racks : List Rack) :
    poolTargetsFrom dcType i (rack :: racks) =
      rack.poolTargets dcType i ++ poolTargetsFrom dcType (i + 1) racks := by
  simp only [poolTargetsFrom, List.mapIdx_cons, List.flatten_cons, Nat.add_zero, Nat.add_assoc,
    Nat.add_comm 1]

/-- All of them. -/
def Dynoc.poolTargets (dynoc : Dynoc) (dcType : DcType) : List (Slot × Endpoint) :=
  match dynoc.dc dcType with
  | none => []
  | some dc => poolTargetsFrom dcType 0 dc.rack

/-- `dynoc_start` dials the slots of the elements below `ncontinuum`, each to the endpoint of
its own element. -/
theorem mem_pool_targets {dynoc : Dynoc} {dcType : DcType} {slot : Slot} {endpoint : Endpoint} :
    (slot, endpoint) ∈ dynoc.poolTargets dcType ↔ slot.dcType = dcType ∧
      ∃ dc rack element, dynoc.dc dcType = some dc ∧ dc.rack[slot.rack]? = some rack ∧
        slot.node < rack.ncontinuum.toNat ∧ rack.continuum[slot.node]? = some element ∧
        element.endpoint = endpoint := by
  unfold Dynoc.poolTargets
  cases hdc : dynoc.dc dcType with
  | none => simp
  | some dc =>
      simp only [poolTargetsFrom, Rack.poolTargets, List.mem_flatten, Nat.zero_add]
      constructor
      · intro h
        obtain ⟨targets, htargets, hmem⟩ := h
        obtain ⟨i, hi, rfl⟩ := List.mem_mapIdx.mp htargets
        obtain ⟨j, hj, heq⟩ := List.mem_mapIdx.mp hmem
        obtain ⟨rfl, rfl⟩ := Prod.mk.inj heq
        have htake := hj
        rw [List.length_take, Nat.lt_min] at htake
        refine ⟨rfl, dc, dc.rack[i], _, rfl, List.getElem?_eq_getElem hi, htake.1,
          List.getElem?_eq_getElem htake.2, ?_⟩
        rw [List.getElem_take]
      · intro h
        obtain ⟨rfl, found, rack, element, hfound, hrack, hlt, helement, rfl⟩ := h
        obtain rfl := Option.some.inj hfound
        obtain ⟨hi, rfl⟩ := List.getElem?_eq_some_iff.mp hrack
        obtain ⟨hj, rfl⟩ := List.getElem?_eq_some_iff.mp helement
        refine ⟨_, List.mem_mapIdx.mpr ⟨slot.rack, hi, rfl⟩,
          List.mem_mapIdx.mpr ⟨slot.node, ?_, ?_⟩⟩
        · rw [List.length_take]
          omega
        · rw [List.getElem_take]

/-- A pass dials the slots below `node_count`, each to the endpoint that the element of that
index has, or to none past the elements. -/
theorem mem_reconnect_targets {dc : Datacenter} {dcType : DcType} {slot : Slot}
    {endpoint : Endpoint} :
    (slot, endpoint) ∈ dc.reconnectTargets dcType ↔ slot.dcType = dcType ∧
      ∃ rack, dc.rack[slot.rack]? = some rack ∧ slot.node < rack.nodeCount.toNat ∧
        endpoint = rack.endpointAt slot.node := by
  simp only [Datacenter.reconnectTargets, List.mem_flatten]
  constructor
  · intro h
    obtain ⟨targets, htargets, hmem⟩ := h
    obtain ⟨i, hi, rfl⟩ := List.mem_mapIdx.mp htargets
    obtain ⟨j, hj, heq⟩ := List.mem_map.mp hmem
    obtain ⟨rfl, rfl⟩ := Prod.mk.inj heq
    exact ⟨rfl, dc.rack[i], List.getElem?_eq_getElem hi, List.mem_range.mp hj, rfl⟩
  · intro h
    obtain ⟨rfl, rack, hrack, hlt, rfl⟩ := h
    obtain ⟨hi, rfl⟩ := List.getElem?_eq_some_iff.mp hrack
    exact ⟨_, List.mem_mapIdx.mpr ⟨slot.rack, hi, rfl⟩,
      List.mem_map.mpr ⟨slot.node, List.mem_range.mpr hlt, rfl⟩⟩

/-! ## No slot is among the targets twice -/

/-- Targets in different racks are different. -/
theorem rack_targets_nodup {lists : List (List (Slot × Endpoint))}
    (hnodup : ∀ targets ∈ lists, (targets.map Prod.fst).Nodup)
    (hrack : ∀ i, ∀ h : i < lists.length, ∀ target ∈ lists[i], target.1.rack = i) :
    (lists.flatten.map Prod.fst).Nodup := by
  rw [List.map_flatten, List.nodup_flatten]
  constructor
  · intro slots hslots
    obtain ⟨targets, htargets, rfl⟩ := List.mem_map.mp hslots
    exact hnodup targets htargets
  · refine List.pairwise_iff_getElem.mpr (fun i k hi hk hik => ?_)
    rw [List.length_map] at hi hk
    simp only [List.disjoint_left, List.getElem_map]
    intro slot hleft hright
    obtain ⟨first, hfirst, rfl⟩ := List.mem_map.mp hleft
    obtain ⟨second, hsecond, heq⟩ := List.mem_map.mp hright
    have hi := hrack i hi first hfirst
    have hk := hrack k hk second hsecond
    rw [heq] at hk
    omega

/-- No slot of a rack is dialled twice. -/
theorem Rack.pool_targets_nodup (dcType : DcType) (i : Nat) (rack : Rack) :
    ((rack.poolTargets dcType i).map Prod.fst).Nodup := by
  refine List.pairwise_iff_getElem.mpr (fun j k hj hk hjk => ?_)
  simp only [Rack.poolTargets, List.getElem_map, List.getElem_mapIdx, ne_eq, Slot.mk.injEq,
    true_and]
  omega

/-- `dynoc_start` dials no slot twice. -/
theorem Dynoc.pool_targets_nodup (dynoc : Dynoc) :
    ((dynoc.poolTargets .localDc ++ dynoc.poolTargets .remoteDc).map Prod.fst).Nodup := by
  have hside : ∀ dcType, ((dynoc.poolTargets dcType).map Prod.fst).Nodup := by
    intro dcType
    unfold poolTargets
    cases dynoc.dc dcType with
    | none => exact List.nodup_nil
    | some dc =>
        refine rack_targets_nodup (fun targets htargets => ?_) (fun i hi target htarget => ?_)
        · obtain ⟨i, hi, rfl⟩ := List.mem_mapIdx.mp htargets
          exact dc.rack[i].pool_targets_nodup dcType (0 + i)
        · rw [List.getElem_mapIdx] at htarget
          obtain ⟨j, hj, rfl⟩ := List.mem_mapIdx.mp htarget
          exact Nat.zero_add i
  rw [List.map_append]
  refine (hside .localDc).append (hside .remoteDc) (List.disjoint_left.mpr ?_)
  intro slot hlocal hremote
  obtain ⟨target, htarget, rfl⟩ := List.mem_map.mp hlocal
  obtain ⟨other, hother, heq⟩ := List.mem_map.mp hremote
  have hlocal := (mem_pool_targets.mp htarget).1
  rw [← heq, (mem_pool_targets.mp hother).1] at hlocal
  cases hlocal

/-- A pass turns to no slot twice. -/
theorem Datacenter.reconnect_targets_nodup (dcType : DcType) (dc : Datacenter) :
    ((dc.reconnectTargets dcType).map Prod.fst).Nodup := by
  refine rack_targets_nodup (fun targets htargets => ?_) (fun i hi target htarget => ?_)
  · obtain ⟨i, hi, rfl⟩ := List.mem_mapIdx.mp htargets
    rw [List.map_map]
    refine List.nodup_range.map (fun j k h => ?_)
    simpa using h
  · rw [List.getElem_mapIdx] at htarget
    obtain ⟨j, -, rfl⟩ := List.mem_map.mp htarget
    rfl

/-! ## The dials of `dynoc_start` -/

section Rule

variable {K : List (Slot × Endpoint) → World → Prop} {dials : Slot → Dial}
  (hdial : ∀ slot endpoint status rest world, K ((slot, endpoint) :: rest) world →
    K rest (dial world slot endpoint (dials slot) status).2)
include hdial

/-- Dials that keep `K` from target to target keep it over a list of targets. -/
theorem dial_all_rule {targets rest : List (Slot × Endpoint)}
    (status : Status) {world : World} (h : K (targets ++ rest) world) :
    K rest (dialAll dials targets status world).2 := by
  induction targets generalizing status world with
  | nil => exact h
  | cons target targets ih => exact ih _ (hdial _ _ _ _ _ h)

/-- Dials that keep `K` keep it over the racks of `redis_connection_pool_init`, with the sorted
elements as targets. -/
theorem pool_init_racks_rule (qsort : Qsort Continuum) (dcType : DcType)
    (i : Nat) (racks : List Rack) {rest : List (Slot × Endpoint)} {world : World}
    (h : K (poolTargetsFrom dcType i (poolInitRacks qsort dials dcType i racks world).1 ++ rest)
      world) :
    K rest (poolInitRacks qsort dials dcType i racks world).2 := by
  induction racks generalizing i world with
  | nil => exact h
  | cons rack racks ih =>
      simp only [poolInitRacks, redisConnectionPoolInit, pool_targets_from_cons,
        List.append_assoc] at h
      exact ih (i + 1) (dial_all_rule hdial .valid h)

/-- Dials that keep `K` keep it over one datacenter of `dynoc_start`. -/
theorem start_datacenter_rule (qsort : Qsort Continuum)
    (dcType : DcType) (dc : Option Datacenter) {rest : List (Slot × Endpoint)} {world : World}
    (h : K ((match (startDatacenter qsort dials dcType dc world).1 with
      | none => []
      | some dc => poolTargetsFrom dcType 0 dc.rack) ++ rest) world) :
    K rest (startDatacenter qsort dials dcType dc world).2 := by
  cases dc with
  | none => exact h
  | some dc => exact pool_init_racks_rule hdial qsort dcType 0 dc.rack h

/-- The rule for `dynoc_start`: what holds of the slots to be dialled and the fresh world, and is
kept when the first of them has been dialled, holds when none is left. -/
theorem dynoc_start_rule (hashAlgos : HashType → HashFunc) (qsort : Qsort Continuum)
    (client : Client)
    (h : K ((dynocStart hashAlgos qsort dials client).1.poolTargets .localDc ++
      (dynocStart hashAlgos qsort dials client).1.poolTargets .remoteDc) (.initial client.conn)) :
    K [] (dynocStart hashAlgos qsort dials client).2 := by
  refine start_datacenter_rule hdial qsort .remoteDc client.dynoc.remoteDc ?_
  rw [List.append_nil]
  exact start_datacenter_rule hdial qsort .localDc client.dynoc.localDc h

end Rule

/-- `dynoc_start` dials the local slots and then the remote ones, each once. -/
theorem dynoc_start_connects (hashAlgos : HashType → HashFunc) (qsort : Qsort Continuum)
    (dials : Slot → Dial) (client : Client) :
    (dynocStart hashAlgos qsort dials client).2.connects =
      (dynocStart hashAlgos qsort dials client).1.poolTargets .localDc ++
        (dynocStart hashAlgos qsort dials client).1.poolTargets .remoteDc := by
  let targets := (dynocStart hashAlgos qsort dials client).1.poolTargets .localDc ++
    (dynocStart hashAlgos qsort dials client).1.poolTargets .remoteDc
  have h := dynoc_start_rule (K := fun rest world => world.connects ++ rest = targets) ?_
    hashAlgos qsort client rfl
  · rwa [List.append_nil] at h
  · intro slot endpoint status rest world h
    rw [dial_connects, List.append_assoc]
    exact h

/-! ## Reconnect passes -/

/-- A PING makes no connect, answered or not. -/
theorem ping_slot_connects (world : World) (slot : Slot) (answer : Answer) :
    (pingSlot world slot answer).connects = world.connects := by
  unfold pingSlot
  cases (world.conn slot).status with
  | invalid => rfl
  | valid =>
      cases hreply : (world.redisCommand slot (world.conn slot).ctx .ping answer).1 <;>
        simp [hreply]

/-- A turn dials its own slot or none. -/
theorem reconnect_slot_connects (world : World) (slot : Slot) (endpoint : Endpoint)
    (outcome : Reconnect) (status : Status) :
    (reconnectSlot world slot endpoint outcome status).2.connects = world.connects ++
      if Alive world slot outcome.ping then [] else [(slot, endpoint)] := by
  by_cases h : Alive world slot outcome.ping
  · rw [reconnect_slot_alive h, if_pos h, List.append_nil]
    simp [ping_slot_connects]
  · rw [reconnect_slot_dial h, if_neg h]
    simp [ping_slot_connects, dial_connects]

/-- A pass dials some of its slots, each at most once and to the endpoint of its own element. -/
theorem reconnect_all_connects (outcomes : Slot → Reconnect) (targets : List (Slot × Endpoint))
    (status : Status) (world : World) :
    ∃ dialled, dialled.Sublist targets ∧
      (reconnectAll outcomes targets status world).2.connects = world.connects ++ dialled := by
  induction targets generalizing status world with
  | nil => exact ⟨[], List.Sublist.refl _, (List.append_nil _).symm⟩
  | cons target rest ih =>
      obtain ⟨dialled, hsub, hrest⟩ := ih
        (reconnectSlot world target.1 target.2 (outcomes target.1) status).1
        (reconnectSlot world target.1 target.2 (outcomes target.1) status).2
      rw [reconnect_slot_connects, List.append_assoc] at hrest
      refine ⟨_, ?_, hrest⟩
      split
      · exact hsub.cons _
      · exact hsub.cons_cons _

end DynocClient
