import DynocClient.Setup.Calls

/-!
# The capacity of a rack

`dynoc_rack_init` allocates `node_count` elements and `dynoc_add_node` writes the next one
without comparing the two counts. `capacity_iff_room` says exactly when the arrays suffice: a
setup script keeps every rack within its capacity if and only if each `dynoc_add_node` call
finds room in every rack it writes to.
-/

namespace DynocClient

open Lib

/-- The count agrees with the elements written. -/
def Rack.Counted (rack : Rack) : Prop :=
  rack.ncontinuum.toNat = rack.continuum.length

/-- The rack stays within its allocation of `node_count` elements: the count does, every element
that was written lies inside, and so does every access below the count to `continuum` or
`redis_conn_pool`. -/
structure Rack.Fits (rack : Rack) : Prop where
  count : rack.ncontinuum ≤ rack.nodeCount
  written : rack.continuum.length ≤ rack.nodeCount.toNat
  access : ∀ i < rack.ncontinuum.toNat, i < rack.nodeCount.toNat

/-- Every rack the call would write a node to has an element left. -/
def HasRoom (client : Client) : SetupCall → Prop
  | .addNode _ rcName dcType =>
      ∀ dc ∈ client.dynoc.dc dcType, ∀ rack ∈ dc.rack, rack.name = some rcName →
        rack.ncontinuum < rack.nodeCount
  | _ => True

instance (client : Client) : (call : SetupCall) → Decidable (HasRoom client call)
  | .addNode _ rcName dcType =>
      inferInstanceAs (Decidable (∀ dc ∈ client.dynoc.dc dcType, ∀ rack ∈ dc.rack,
        rack.name = some rcName → rack.ncontinuum < rack.nodeCount))
  | .datacenterInit .. | .rackInit .. => isTrue trivial

/-- Below another 32-bit number the successor does not wrap. -/
theorem to_nat_succ_of_lt {a b : UInt32} (h : a < b) : (a + 1).toNat = a.toNat + 1 := by
  have hlt : a.toNat < b.toNat := UInt32.lt_iff_toNat_lt.mp h
  have hbound := b.toNat_lt
  have hone : (1 : UInt32).toNat = 1 := rfl
  rw [UInt32.toNat_add, hone, Nat.mod_eq_of_lt (by omega)]

/-- A rack not yet initialised counts its elements. -/
theorem Rack.counted_zero : zeroRack.Counted := rfl

/-- A rack just initialised counts its elements. -/
theorem Rack.counted_init (nodeCount : UInt32) (name : CString) :
    (initRack nodeCount name).Counted := rfl

/-- A rack not yet initialised has no more elements than it has room for. -/
theorem Rack.fits_zero : zeroRack.Fits :=
  ⟨UInt32.le_refl _, Nat.zero_le _, fun _ h => absurd h (Nat.not_lt_zero _)⟩

/-- A rack just initialised has no more elements than it has room for. -/
theorem Rack.fits_init (nodeCount : UInt32) (name : CString) :
    (initRack nodeCount name).Fits :=
  ⟨UInt32.le_iff_toNat_le.mpr (Nat.zero_le _), Nat.zero_le _,
    fun _ h => absurd h (Nat.not_lt_zero _)⟩

namespace Rack

variable {rack : Rack} {node : Node} {rcName : CString}

/-- A node goes to the end of a counted rack. -/
theorem Counted.add_node_continuum (h : rack.Counted) (hname : rack.name = some rcName) :
    (rack.addNode node rcName).continuum =
      rack.continuum ++ [node.element rack.ncontinuum] := by
  rw [add_node_of_name hname, h]
  exact write_continuum_length _ _

/-- A node added where there is room is counted. -/
theorem Counted.add_node (h : rack.Counted) (hname : rack.name = some rcName)
    (hroom : rack.ncontinuum < rack.nodeCount) : (rack.addNode node rcName).Counted := by
  unfold Counted
  rw [h.add_node_continuum hname, add_node_of_name hname, List.length_append,
    to_nat_succ_of_lt hroom, h]
  rfl

/-- Where there is room a node fits. -/
theorem Counted.fits_add_node (hcount : rack.Counted)
    (hname : rack.name = some rcName) (hroom : rack.ncontinuum < rack.nodeCount) :
    (rack.addNode node rcName).Fits := by
  have hlt : rack.ncontinuum.toNat < rack.nodeCount.toNat := UInt32.lt_iff_toNat_lt.mp hroom
  have hsucc : (rack.addNode node rcName).ncontinuum.toNat = rack.ncontinuum.toNat + 1 := by
    rw [add_node_of_name hname]
    exact to_nat_succ_of_lt hroom
  have hlen : (rack.addNode node rcName).continuum.length = rack.ncontinuum.toNat + 1 := by
    rw [hcount.add_node_continuum hname, hcount, List.length_append]
    rfl
  refine ⟨UInt32.le_iff_toNat_le.mpr ?_, ?_, fun i hi => ?_⟩
  all_goals simp only [add_node_node_count]; omega

/-- Where there is no room the node is written outside the allocation. -/
theorem Counted.room_of_fits (hcount : rack.Counted) (hname : rack.name = some rcName)
    (h : (rack.addNode node rcName).Fits) : rack.ncontinuum < rack.nodeCount := by
  have hwritten := h.written
  rw [hcount.add_node_continuum hname, add_node_node_count, List.length_append, ← hcount]
    at hwritten
  exact UInt32.lt_iff_toNat_lt.mpr hwritten

end Rack

/-- The counts agree with the elements in every rack, as long as every node finds room. -/
theorem counted_step {client next : Client} {call : SetupCall}
    (h : client.AllRacks Rack.Counted) (hroom : HasRoom client call)
    (hstep : setupStep client call = some next) : next.AllRacks Rack.Counted := by
  refine h.step hstep Rack.counted_zero Rack.counted_init ?_
  rintro node rcName dcType dc rfl hdc rack hrack hcount hname
  exact hcount.add_node hname (hroom dc hdc rack hrack hname)

/-- A call within capacity keeps the elements within the room. -/
theorem fits_step {client next : Client} {call : SetupCall}
    (h : client.AllRacks Rack.Fits) (hcount : client.AllRacks Rack.Counted)
    (hroom : HasRoom client call) (hstep : setupStep client call = some next) :
    next.AllRacks Rack.Fits := by
  refine h.step hstep Rack.fits_zero Rack.fits_init ?_
  rintro node rcName dcType dc rfl hdc rack hrack - hname
  exact (hcount dcType dc hdc rack hrack).fits_add_node hname (hroom dc hdc rack hrack hname)

/-- A script whose nodes all find room leaves every rack counted and within its capacity. -/
theorem fits_of_room {conn : Slot → RedisConnection} {calls : List SetupCall} {client : Client}
    (hrun : runFrom setupStep (dynocInit conn) calls = some client)
    (hroom : EachStep setupStep HasRoom (dynocInit conn) calls) :
    client.AllRacks Rack.Fits ∧ client.AllRacks Rack.Counted := by
  let Kept (client : Client) : Prop := client.AllRacks Rack.Fits ∧ client.AllRacks Rack.Counted
  have hstart : Kept (dynocInit conn) := ⟨all_racks_init _ _, all_racks_init _ _⟩
  refine hroom.invariant hrun hstart (fun state call next hstate hcall hstep => ?_)
  exact ⟨fits_step hstate.1 hstate.2 hcall hstep, counted_step hstate.2 hcall hstep⟩

/-- A step that keeps every rack within its capacity found room. -/
theorem room_of_fits_step {client : Client} {call : SetupCall}
    (hcount : client.AllRacks Rack.Counted)
    (h : ∀ next, setupStep client call = some next → next.AllRacks Rack.Fits) :
    HasRoom client call := by
  cases call with
  | datacenterInit | rackInit => exact trivial
  | addNode node rcName dcType =>
      intro dc hdc rack hrack hname
      have hfits := h _ (setup_step_add_node hdc) dcType _ (Client.with_dc_same _ _ _)
        (rack.addNode node rcName) (List.mem_map_of_mem hrack)
      exact (hcount dcType dc hdc rack hrack).room_of_fits hname hfits

/-- In every setup script from `dynoc_init`: every rack is within its capacity in every state if
and only if every `dynoc_add_node` call finds room in each rack of the name. -/
theorem capacity_iff_room (conn : Slot → RedisConnection) (calls : List SetupCall) :
    Throughout setupStep (Client.AllRacks Rack.Fits) (dynocInit conn) calls ↔
      EachStep setupStep HasRoom (dynocInit conn) calls := by
  refine throughout_iff_each_step (I := Client.AllRacks Rack.Counted) (D := fun _ _ => True)
    ?_ ?_ (all_racks_init _ _) (all_racks_init _ _) (each_step_of_forall (fun _ _ => trivial) _ _)
  · intro client call next hcount _ hroom hstep
    exact counted_step hcount hroom hstep
  · intro client call hcount hfits _
    exact ⟨fun hroom next hstep => fits_step hfits hcount hroom hstep,
      room_of_fits_step hcount⟩

/-- One node more than `dynoc_rack_init` made room for. -/
def overfullScript : List SetupCall :=
  let name : CString := .ofAscii "r"
  let node : Node := ⟨.ofAscii "1", 8102, none, .ofAscii "1"⟩
  [.datacenterInit true 1 name .localDc, .rackInit 1 name .localDc,
    .addNode node name .localDc, .addNode node name .localDc]

/-- The second node of `overfullScript` is written past the end of the array. -/
theorem overfull_script_overflows :
    ¬ Throughout setupStep (Client.AllRacks Rack.Fits)
      (dynocInit fun _ => ⟨.invalid, none⟩) overfullScript := by
  intro h
  have hview : ((runFrom setupStep (dynocInit fun _ => ⟨.invalid, none⟩) overfullScript).bind
      fun client => client.dynoc.localDc.bind fun dc => dc.rack.head?.map
        fun rack => (rack.ncontinuum, rack.nodeCount)) = some (2, 1) := by decide +kernel
  obtain ⟨client, hrun, hdc⟩ := Option.bind_eq_some_iff.mp hview
  obtain ⟨dc, hlocal, hhead⟩ := Option.bind_eq_some_iff.mp hdc
  obtain ⟨rack, hrack, hcounts⟩ := Option.map_eq_some_iff.mp hhead
  have hcount := (h.last hrun .localDc dc hlocal rack (List.mem_of_head? hrack)).count
  rw [Prod.mk.injEq] at hcounts
  rw [hcounts.1, hcounts.2] at hcount
  exact absurd hcount (by decide)

end DynocClient
