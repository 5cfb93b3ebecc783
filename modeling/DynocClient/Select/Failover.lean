import DynocClient.Connection.Status
import DynocClient.Select.Topology

/-!
# The order in which racks are offered

`offers_eq` computes the connections that the `select_connection` calls of a command return.
Since each call starts from the local datacenter, a command that has been through the local
racks is offered one remote rack, then the local racks from the second on again, and never
another remote rack. `failover_order_iff` and `sole_remote_never_offered` say what this means
for the failover order and for a client that has only a remote datacenter.
-/

namespace DynocClient

open Lib

/-! ## The racks on offer -/

/-- The connection of the key's owner in a rack. -/
def ownerSlot (dynoc : Dynoc) (token : Token) (dcType : DcType) (i : Nat) : Slot :=
  let index :=
    match (dynoc.dc dcType).bind fun dc => dc.rack[i]? with
    | some rack => selectContinuum rack.continuum rack.ncontinuum token
    | none => .error .rackAccess
  ⟨dcType, i, match index with
    | .ok index => index.toNat
    | .error _ => 0⟩

/-- The racks offered from rack `i` of the local datacenter on. -/
def localRacks (dc : Datacenter) (i : Nat) : List (DcType × Nat) :=
  (List.range' i (dc.rackCount - i)).map fun i => (.localDc, i)

/-- The racks offered to a command that has the cursor. -/
def racksOnOffer (dynoc : Dynoc) (cursor : Cursor) : List (DcType × Nat) :=
  match dynoc.localDc with
  | none => []
  | some dc =>
      localRacks dc cursor.rcIdx ++
        match cursor.dcType, dynoc.remoteDc with
        | .localDc, some _ => (.remoteDc, 0) :: localRacks dc 1
        | _, _ => []

/-- The local racks go on with the next one. -/
theorem local_racks_cons {dc : Datacenter} {i : Nat} (h : i < dc.rackCount) :
    localRacks dc i = (.localDc, i) :: localRacks dc (i + 1) := by
  have hcount : dc.rackCount - i = dc.rackCount - (i + 1) + 1 := by omega
  simp only [localRacks, hcount, List.range'_succ, List.map_cons]

/-- After the last rack no local rack is left. -/
theorem local_racks_nil {dc : Datacenter} {i : Nat} (h : dc.rackCount ≤ i) :
    localRacks dc i = [] := by
  have hcount : dc.rackCount - i = 0 := by omega
  simp only [localRacks, hcount, List.range'_zero, List.map_nil]

section NextRack

variable {dynoc : Dynoc} {cursor : Cursor}

/-- The rack a call turns to is the first of those on offer, and the others stay on offer. -/
theorem next_rack_some {dcType : DcType} {dc : Datacenter} {i : Nat}
    (h : nextRack dynoc cursor = some (dcType, dc, i)) (token : Token) :
    racksOnOffer dynoc cursor =
      (dcType, i) :: racksOnOffer dynoc (cursor.after token dcType i) := by
  rcases next_rack_cases h with ⟨rfl, hlocal, rfl, hlt⟩ |
    ⟨rfl, hremote, rfl, hdcType, localDc, hlocal, hge⟩
  · simp only [racksOnOffer, hlocal, Cursor.after, local_racks_cons hlt, reduceCtorEq,
      if_false, List.cons_append]
  · simp only [racksOnOffer, hlocal, hremote, hdcType, Cursor.after, local_racks_nil hge,
      if_true, List.nil_append, Nat.zero_add, List.append_nil]

/-- Where the code finds no next rack none is on offer. -/
theorem next_rack_none (h : nextRack dynoc cursor = none) : racksOnOffer dynoc cursor = [] := by
  unfold nextRack at h
  cases hlocal : dynoc.localDc with
  | none => simp [racksOnOffer, hlocal]
  | some localDc =>
      by_cases hlt : cursor.rcIdx < localDc.rackCount
      · simp [hlocal, hlt] at h
      · cases hdcType : cursor.dcType <;> cases hremote : dynoc.remoteDc <;>
          simp_all [racksOnOffer, local_racks_nil]

/-- It lies in its datacenter, except that the remote one may have no rack. -/
theorem next_rack_lt {dcType : DcType} {dc : Datacenter} {i : Nat}
    (h : nextRack dynoc cursor = some (dcType, dc, i)) :
    dynoc.dc dcType = some dc ∧ (i < dc.rackCount ∨ dcType = .remoteDc ∧ i = 0) := by
  rcases next_rack_cases h with ⟨rfl, hlocal, -, hlt⟩ | ⟨rfl, hremote, rfl, -, -⟩
  · exact ⟨hlocal, .inl hlt⟩
  · exact ⟨hremote, .inr ⟨rfl, rfl⟩⟩

/-- Every connection that a call returns is that of a node: the search faults in a rack without
elements, and elsewhere finds one that is counted. -/
theorem select_connection_is_node (hstarted : Started dynoc) {key : CString} {next : Cursor}
    {slot : Slot} (h : selectConnection dynoc key cursor = .ok (some slot, next)) :
    dynoc.IsNode slot := by
  obtain ⟨_, token, dcType, dc, i, rack, index, -, -, hnext, hrack, hselect, rfl, -⟩ :=
    select_connection_some h
  have hdc := (next_rack_lt hnext).1
  have hpos : 0 < rack.ncontinuum.toNat := by
    refine Nat.pos_of_ne_zero (fun hzero => ?_)
    have hempty : rack.ncontinuum = 0 := UInt32.toNat_inj.mp hzero
    rw [hempty, select_continuum_empty] at hselect
    cases hselect
  obtain ⟨found, hfound, hlt⟩ :=
    (hstarted.indexed hdc (List.mem_of_getElem? hrack)).select hpos token
  obtain rfl : found = index := Except.ok.inj (hfound.symm.trans hselect)
  exact ⟨dc, rack, hdc, hrack, hlt⟩

end NextRack

section Offers

variable {dynoc : Dynoc} (hstarted : Started dynoc) (hpopulated : dynoc.Populated)
include hstarted hpopulated

/-- A rack that is there gets offered with the owner of the key. -/
theorem offer_rack_eq {dcType : DcType} {dc : Datacenter} {i : Nat}
    (hdc : dynoc.dc dcType = some dc) (hi : i < dc.rackCount) (token : Token)
    (cursor : Cursor) :
    offerRack token dcType dc i cursor =
      .ok (some (ownerSlot dynoc token dcType i), cursor.after token dcType i) := by
  have hrack : dc.rack[i]? = some dc.rack[i] := List.getElem?_eq_getElem hi
  have hmem : dc.rack[i] ∈ dc.rack := List.getElem_mem hi
  obtain ⟨index, hselect, -⟩ := (hstarted.indexed hdc hmem).select
    (hpopulated dcType dc hdc _ hmem) token
  simp only [offerRack, ownerSlot, hdc, Option.bind_some, hrack, hselect, bind, Except.bind,
    pure, Except.pure]

/-- The calls offer the owners in the racks on offer, in this order, and then return `NULL`. -/
theorem offers_eq (hremote : ∀ dc, dynoc.remoteDc = some dc → 0 < dc.rackCount)
    {hashFunc : HashFunc} (hhash : dynoc.hashFunc = some hashFunc) (key : CString)
    (cursor : Cursor) (hscratch : cursor.token.Scratch) :
    offers dynoc key cursor = .ok ((racksOnOffer dynoc cursor).map fun (dcType, i) =>
      ownerSlot dynoc (searchToken hashFunc key) dcType i) := by
  have hcall := select_connection_eq hhash (key_token_eq hashFunc key hscratch)
  cases hnext : nextRack dynoc cursor with
  | none =>
      rw [hnext] at hcall
      obtain ⟨next, hcall⟩ := hcall
      rw [offers_none hcall, next_rack_none hnext, List.map_nil]
  | some target =>
      obtain ⟨dcType, dc, i⟩ := target
      obtain ⟨hdc, hrange⟩ := next_rack_lt hnext
      have hi : i < dc.rackCount := by
        rcases hrange with hlt | ⟨rfl, rfl⟩
        · exact hlt
        · exact hremote dc hdc
      rw [hnext] at hcall
      have hoffer := hcall.trans (offer_rack_eq hstarted hpopulated hdc hi _ cursor)
      -- the token written by this call is the one the next call writes again
      have hrest := offers_eq hremote hhash key
        (cursor.after (searchToken hashFunc key) dcType i) (scratch_search hashFunc key)
      rw [offers_some hoffer, hrest, next_rack_some hnext (searchToken hashFunc key)]
      rfl
termination_by cursor.remaining dynoc
decreasing_by exact next_rack_remaining hnext _

end Offers

/-! ## The failover order -/

/-- The racks in the order a command should be offered them. -/
def failoverOrder (localCount remoteCount : Nat) : List (DcType × Nat) :=
  (List.range localCount).map (fun i => (.localDc, i)) ++
    (List.range remoteCount).map (fun i => (.remoteDc, i))

/-- The rack a connection belongs to. -/
def Slot.place (slot : Slot) : DcType × Nat := (slot.dcType, slot.rack)

/-- What a command is offered when both datacenters are there. -/
theorem racks_on_offer_start {dynoc : Dynoc} {localDc remoteDc : Datacenter}
    (hlocal : dynoc.localDc = some localDc) (hremote : dynoc.remoteDc = some remoteDc) :
    racksOnOffer dynoc .start = localRacks localDc 0 ++ (.remoteDc, 0) :: localRacks localDc 1 := by
  simp only [racksOnOffer, hlocal, hremote, Cursor.start]

/-- The racks offered are in failover order exactly if there is one of each kind. -/
theorem failover_order_eq_iff {localDc remoteDc : Datacenter} (hcount : 1 ≤ localDc.rackCount) :
    localRacks localDc 0 ++ (.remoteDc, 0) :: localRacks localDc 1 =
        failoverOrder localDc.rackCount remoteDc.rackCount ↔
      localDc.rackCount = 1 ∧ remoteDc.rackCount = 1 := by
  have hlocal : localRacks localDc 0 =
      (List.range localDc.rackCount).map fun i => (DcType.localDc, i) := by
    simp only [localRacks, Nat.sub_zero, List.range_eq_range']
  rw [failoverOrder, hlocal, List.append_cancel_left_eq]
  constructor
  · intro h
    have hlength := congrArg List.length h
    simp only [localRacks, List.length_cons, List.length_map, List.length_range',
      List.length_range] at hlength
    -- a second local rack would be offered where only remote ones belong
    have hone : localDc.rackCount = 1 := by
      by_contra hne
      have hsecond : (DcType.localDc, 1) ∈ (List.range remoteDc.rackCount).map fun i =>
          (DcType.remoteDc, i) := by
        rw [← h, local_racks_cons (by omega)]
        simp
      simp at hsecond
    omega
  · intro hcase
    obtain ⟨hone, hone'⟩ := hcase
    simp [localRacks, hone, hone', List.range_succ]

/-- The calls of a command offer every rack once, the local ones first, exactly for clients with
one local and one remote rack. -/
theorem failover_order_iff {dynoc : Dynoc} (hstarted : Started dynoc)
    (hpopulated : dynoc.Populated) {localDc remoteDc : Datacenter}
    (hlocal : dynoc.localDc = some localDc) (hremote : dynoc.remoteDc = some remoteDc)
    (hlocalCount : 1 ≤ localDc.rackCount) (hremoteCount : 1 ≤ remoteDc.rackCount)
    (key : CString) :
    (∃ slots, offers dynoc key .start = .ok slots ∧
      slots.map Slot.place = failoverOrder localDc.rackCount remoteDc.rackCount) ↔
      localDc.rackCount = 1 ∧ remoteDc.rackCount = 1 := by
  obtain ⟨hashFunc, hhash⟩ := hstarted.hash
  have hracks : ∀ dc, dynoc.remoteDc = some dc → 0 < dc.rackCount := by
    intro dc hdc
    rw [hremote] at hdc
    cases hdc
    exact hremoteCount
  rw [offers_eq hstarted hpopulated hracks hhash key .start scratch_init,
    racks_on_offer_start hlocal hremote, ← failover_order_eq_iff hlocalCount]
  simp only [Except.ok.injEq, exists_eq_left', List.map_map]
  have hplace : (Slot.place ∘ fun (dcType, i) =>
      ownerSlot dynoc (searchToken hashFunc key) dcType i) = id := rfl
  rw [hplace, List.map_id]

/-- A rack of three nodes, set up as `examples/multi-thread-example.c` does. -/
def exampleRack (ip name : String) (dcType : DcType) : List SetupCall :=
  let addNode (port : Int32) (token : String) : SetupCall :=
    .addNode ⟨.ofAscii ip, port, some (.ofAscii "1024xxx!yy"), .ofAscii token⟩ (.ofAscii name)
      dcType
  [.rackInit 3 (.ofAscii name) dcType, addNode 6501 "1431655765", addNode 6502 "2863311530",
    addNode 6503 "4294967295"]

/-- The topology of `examples/multi-thread-example.c` with these remote racks. -/
def multiThreadExample (remoteRacks : List (String × String)) : List SetupCall :=
  [.datacenterInit true 1 (.ofAscii "local_dc") .localDc,
    .datacenterInit true (UInt32.ofNat remoteRacks.length) (.ofAscii "remote_dc") .remoteDc] ++
  exampleRack "113.107.149.188" "rack1" .localDc ++
  (remoteRacks.map fun (ip, name) => exampleRack ip name .remoteDc).flatten

/-- The example with its first remote rack only. -/
def twoRackClient : Dynoc :=
  (launch (multiThreadExample [("61.145.54.225", "rack1")])).get (by decide +kernel)

/-- The example as it is. -/
def threeRackClient : Dynoc :=
  (launch (multiThreadExample [("61.145.54.225", "rack1"), ("58.215.169.12", "rack2")])).get
    (by decide +kernel)

/-- With one rack each the local rack is offered before the remote one. -/
theorem failover_order_two_racks :
    ∃ slots, offers twoRackClient (.ofAscii "thread00") .start = .ok slots ∧
      slots.map Slot.place =
        failoverOrder (twoRackClient.localDc.get (by decide +kernel)).rackCount
          (twoRackClient.remoteDc.get (by decide +kernel)).rackCount := by
  have hstarted : Started twoRackClient := launch_started (Option.some_get _).symm
  have hpopulated : twoRackClient.Populated := by decide +kernel
  exact (failover_order_iff hstarted hpopulated (Option.some_get _).symm
    (Option.some_get _).symm (by decide +kernel) (by decide +kernel) _).mpr
      ⟨by decide +kernel, by decide +kernel⟩

/-- The example's own topology: remote rack 1 is never offered. -/
theorem second_remote_rack_skipped :
    Started threeRackClient ∧ threeRackClient.Populated ∧
      threeRackClient.localDc.map Datacenter.rackCount = some 1 ∧
      threeRackClient.remoteDc.map Datacenter.rackCount = some 2 ∧
      ¬ ∃ slots, offers threeRackClient (.ofAscii "thread00") .start = .ok slots ∧
        slots.map Slot.place = failoverOrder 1 2 := by
  refine ⟨launch_started (Option.some_get _).symm, by decide +kernel, by decide +kernel,
    by decide +kernel, ?_⟩
  intro h
  obtain ⟨slots, hoffers, horder⟩ := h
  have hseen : (offers threeRackClient (.ofAscii "thread00") .start).map (List.map Slot.place) =
      .ok [(.localDc, 0), (.remoteDc, 0)] := by decide +kernel
  rw [hoffers] at hseen
  have hplaces : slots.map Slot.place = [(.localDc, 0), (.remoteDc, 0)] := Except.ok.inj hseen
  rw [horder] at hplaces
  exact absurd hplaces (by decide)

/-! ## A client with one datacenter -/

/-- The call, made for a datacenter of this type. -/
def SetupCall.register (dcType : DcType) : SetupCall → SetupCall
  | .datacenterInit allocated rackCount name _ =>
      .datacenterInit allocated rackCount name dcType
  | .rackInit nodeCount name _ => .rackInit nodeCount name dcType
  | .addNode node rcName _ => .addNode node rcName dcType

/-- The type the call is made for. -/
def SetupCall.dcType : SetupCall → DcType
  | .datacenterInit _ _ _ dcType | .rackInit _ _ dcType | .addNode _ _ dcType => dcType

/-- Registering a call elsewhere makes it a call of that datacenter. -/
theorem register_dc_type (dcType : DcType) (call : SetupCall) :
    (call.register dcType).dcType = dcType := by
  cases call <;> rfl

/-- A call for one type makes no datacenter of the other. -/
theorem register_step {dcType other : DcType} (hother : other ≠ dcType)
    {client next : Client} {call : SetupCall} (hnone : client.dynoc.dc other = none)
    (hstep : setupStep client (call.register dcType) = some next) :
    next.dynoc.dc other = none := by
  have htype := register_dc_type dcType call
  have hkept : ∀ dc, (client.withDc dcType dc).dynoc.dc other = none := by
    intro dc
    rw [Client.with_dc_other _ _ hother, hnone]
  rcases setup_step_cases hstep with ⟨rfl, -⟩ | ⟨_, _, found, hcall, -, rfl⟩ |
    ⟨_, _, found, _, _, hcall, -, -, rfl⟩ | ⟨_, _, found, _, hcall, -, rfl⟩
  · exact hnone
  all_goals
    rw [hcall] at htype
    obtain rfl : found = dcType := htype
    exact hkept _

/-- A script for one type makes no datacenter of the other. -/
theorem register_run {dcType other : DcType} (hother : other ≠ dcType) {calls : List SetupCall}
    {client final : Client} (hnone : client.dynoc.dc other = none)
    (hrun : runFrom setupStep client (calls.map (SetupCall.register dcType)) = some final) :
    final.dynoc.dc other = none := by
  induction calls generalizing client with
  | nil =>
      cases hrun
      exact hnone
  | cons call calls ih =>
      obtain ⟨next, hstep, hrest⟩ := run_from_cons.mp hrun
      exact ih (register_step hother hnone hstep) hrest

/-- The racks and nodes that the calls of a command offer. -/
def offered (dynoc : Dynoc) (key : CString) : Except Fault (List (Nat × Nat)) :=
  (offers dynoc key .start).map fun slots => slots.map fun slot => (slot.rack, slot.node)

/-- Without a local datacenter the first call returns `NULL`. -/
theorem offered_without_local {dynoc : Dynoc} (hlocal : dynoc.localDc = none)
    {hashFunc : HashFunc} (hhash : dynoc.hashFunc = some hashFunc) (key : CString) :
    offered dynoc key = .ok [] := by
  have hscratch : Cursor.start.token.Scratch := scratch_init
  have hcall := select_connection_eq hhash (key_token_eq hashFunc key hscratch)
  have hnext : nextRack dynoc .start = none := by simp only [nextRack, hlocal]
  rw [hnext] at hcall
  obtain ⟨next, hcall⟩ := hcall
  rw [offered, offers_none hcall]
  rfl

/-- With the local datacenter alone the calls return the owner of the key in each rack. -/
theorem offered_without_remote {dynoc : Dynoc} (hstarted : Started dynoc)
    (hpopulated : dynoc.Populated) {dc : Datacenter} (hlocal : dynoc.localDc = some dc)
    (hremote : dynoc.remoteDc = none) {hashFunc : HashFunc}
    (hhash : dynoc.hashFunc = some hashFunc) (key : CString) :
    offered dynoc key = .ok ((List.range dc.rackCount).map fun i =>
      (i, (ownerSlot dynoc (searchToken hashFunc key) .localDc i).node)) := by
  have hracks : racksOnOffer dynoc .start =
      (List.range dc.rackCount).map fun i => (.localDc, i) := by
    simp only [racksOnOffer, hlocal, hremote, Cursor.start, localRacks, Nat.sub_zero,
      List.append_nil, List.range_eq_range']
  rw [offered, offers_eq hstarted hpopulated (by simp [hremote]) hhash key .start scratch_init,
    hracks]
  simp only [Except.map, List.map_map]
  rfl

/-- One datacenter set up by the same calls, once as local and once as remote: the local one
offers the owner of the key in each rack, the remote one nothing. -/
theorem sole_remote_never_offered (hashAlgos : HashType → HashFunc) (qsort : Qsort Continuum)
    (dials : Slot → Dial) (conn : Slot → RedisConnection) (calls : List SetupCall)
    {localOnly remoteOnly : Client}
    (hlocalRun : runFrom setupStep (dynocInit conn)
      (calls.map (SetupCall.register .localDc)) = some localOnly)
    (hremoteRun : runFrom setupStep (dynocInit conn)
      (calls.map (SetupCall.register .remoteDc)) = some remoteOnly)
    {dc : Datacenter} (hdc : localOnly.dynoc.localDc = some dc) (hcount : 1 ≤ dc.rackCount)
    (hnodes : ∀ rack ∈ dc.rack, 0 < rack.ncontinuum.toNat) (key : CString) :
    let startedLocal := (dynocStart hashAlgos qsort dials localOnly).1
    let startedRemote := (dynocStart hashAlgos qsort dials remoteOnly).1
    (∃ hashFunc, startedLocal.hashFunc = some hashFunc ∧
      offered startedLocal key = .ok ((List.range dc.rackCount).map fun i =>
        (i, (ownerSlot startedLocal (searchToken hashFunc key) .localDc i).node))) ∧
      offered startedRemote key = .ok [] ∧
      ¬ offered startedRemote key = offered startedLocal key := by
  intro startedLocal startedRemote
  have hstartedLocal : Started startedLocal := ⟨_, _, _, _, localOnly, ⟨_, hlocalRun⟩, rfl⟩
  have hstartedRemote : Started startedRemote := ⟨_, _, _, _, remoteOnly, ⟨_, hremoteRun⟩, rfl⟩
  obtain ⟨hashFunc, hhash⟩ := hstartedLocal.hash
  obtain ⟨remoteHash, hremoteHash⟩ := hstartedRemote.hash
  have hlocal : startedLocal.localDc = some (dc.start qsort) :=
    dynoc_start_some hashAlgos qsort dials localOnly .localDc hdc
  have hnoRemote : startedLocal.remoteDc = none :=
    dynoc_start_none hashAlgos qsort dials localOnly .remoteDc
      (register_run (by decide) rfl hlocalRun)
  have hnoLocal : startedRemote.localDc = none :=
    dynoc_start_none hashAlgos qsort dials remoteOnly .localDc
      (register_run (by decide) rfl hremoteRun)
  have hpopulated : startedLocal.Populated := by
    intro dcType found hfound rack hrack
    cases dcType with
    | remoteDc => exact absurd (hnoRemote.symm.trans hfound) (by simp)
    | localDc =>
        obtain rfl : dc.start qsort = found := Option.some.inj (hlocal.symm.trans hfound)
        obtain ⟨before, hbefore, rfl⟩ := List.mem_map.mp hrack
        exact hnodes before hbefore
  have hoffered := offered_without_remote hstartedLocal hpopulated hlocal hnoRemote hhash key
  have hnone := offered_without_local hnoLocal hremoteHash key
  have hracks : (dc.start qsort).rackCount = dc.rackCount := List.length_map _
  rw [hracks] at hoffered
  refine ⟨⟨hashFunc, hhash, hoffered⟩, hnone, ?_⟩
  rw [hnone, hoffered, Except.ok.injEq]
  intro hnil
  have hlength := congrArg List.length hnil
  simp only [List.length_nil, List.length_map, List.length_range] at hlength
  omega

/-- The calls for a datacenter of one rack. -/
def soleRackCalls : List SetupCall :=
  .datacenterInit true 1 (.ofAscii "dc") .localDc ::
    exampleRack "113.107.149.188" "rack1" .localDc

/-- The client they make, for a datacenter of either type. -/
def soleRackClient (dcType : DcType) : Client :=
  (runFrom setupStep (dynocInit fun _ => ⟨.invalid, none⟩)
    (soleRackCalls.map (SetupCall.register dcType))).get (by cases dcType <;> decide +kernel)

/-- That client started; every key hashes to 1. -/
def soleRackDynoc (dcType : DcType) : Dynoc :=
  (dynocStart (fun _ _ => 1) (.insertion Continuum) (authDials .data)
    (soleRackClient dcType)).1

/-- One rack registered as remote is not offered as a local one is. -/
theorem sole_remote_one_rack :
    ¬ offered (soleRackDynoc .remoteDc) (.ofAscii "key") =
      offered (soleRackDynoc .localDc) (.ofAscii "key") := by
  have hlocalRun : runFrom setupStep (dynocInit fun _ => ⟨.invalid, none⟩)
      (soleRackCalls.map (SetupCall.register .localDc)) = some (soleRackClient .localDc) :=
    (Option.some_get _).symm
  have hremoteRun : runFrom setupStep (dynocInit fun _ => ⟨.invalid, none⟩)
      (soleRackCalls.map (SetupCall.register .remoteDc)) = some (soleRackClient .remoteDc) :=
    (Option.some_get _).symm
  have hdc : (soleRackClient .localDc).dynoc.localDc =
      some ((soleRackClient .localDc).dynoc.localDc.get (by decide +kernel)) :=
    (Option.some_get _).symm
  exact (sole_remote_never_offered (fun _ _ => 1) (.insertion Continuum) (authDials .data) _
    soleRackCalls hlocalRun hremoteRun hdc (by decide +kernel) (by decide +kernel) _).2.2

/-- That rack is offered once as local, and not so as remote. -/
theorem sole_remote_rack_unreachable :
    offered (soleRackDynoc .localDc) (.ofAscii "key") = .ok [(0, 0)] ∧
      ¬ offered (soleRackDynoc .remoteDc) (.ofAscii "key") =
        offered (soleRackDynoc .localDc) (.ofAscii "key") := by
  decide +kernel

end DynocClient
