import DynocClient.Select.Failover

/-!
# Lookups inside the topology

A command whose connections all fail goes through every cursor that `Visited` describes.
`lookup_safe_iff` says for which topologies all its lookups stay inside: the index is compared
with the rack count of the local datacenter only, and the search takes it for granted that a
rack holds a node, so every rack that is ever on offer has to be there and to hold one.
-/

namespace DynocClient

/-- The cursors that the calls of a command go through as long as no connection works. -/
inductive Visited (dynoc : Dynoc) (key : CString) : Cursor → Prop where
  | start : Visited dynoc key .start
  | call {cursor next : Cursor} {slot : Slot} (h : Visited dynoc key cursor)
      (hcall : selectConnection dynoc key cursor = .ok (some slot, next)) :
      Visited dynoc key next

/-- The call reads nothing outside the topology and returns `NULL` or a connection of a node that
a rack of the topology holds. -/
structure SafeCall (dynoc : Dynoc) (key : CString) (cursor : Cursor) : Prop where
  returns : ∃ result, selectConnection dynoc key cursor = .ok result
  inside : ∀ slot next, selectConnection dynoc key cursor = .ok (some slot, next) →
    ∃ dc rack, dynoc.dc slot.dcType = some dc ∧ slot.rack < dc.rackCount ∧
      dc.rack[slot.rack]? = some rack ∧ slot.node < rack.ncontinuum.toNat ∧
      rack.ncontinuum.toNat ≤ rack.nodeCount.toNat

/-- The rack is there and holds a node. -/
def Dynoc.Holds (dynoc : Dynoc) (place : DcType × Nat) : Prop :=
  ∃ dc rack, dynoc.dc place.1 = some dc ∧ dc.rack[place.2]? = some rack ∧
    0 < rack.ncontinuum.toNat

/-- There is no local datacenter, or every rack of it holds a node and so does the first rack of
the remote one, if that is there. -/
def Dynoc.Complete (dynoc : Dynoc) : Prop :=
  ∀ localDc ∈ dynoc.localDc,
    (∀ rack ∈ localDc.rack, 0 < rack.ncontinuum.toNat) ∧
    ∀ remoteDc ∈ dynoc.remoteDc, ∃ rack ∈ remoteDc.rack[0]?, 0 < rack.ncontinuum.toNat

instance (dynoc : Dynoc) : Decidable dynoc.Complete :=
  inferInstanceAs (Decidable (∀ localDc ∈ dynoc.localDc,
    (∀ rack ∈ localDc.rack, 0 < rack.ncontinuum.toNat) ∧
    ∀ remoteDc ∈ dynoc.remoteDc, ∃ rack ∈ remoteDc.rack[0]?, 0 < rack.ncontinuum.toNat))

section Lookup

variable {dynoc : Dynoc} (hstarted : StartedInRoom dynoc) {key : CString}

/-- The token of a cursor is a scratch token throughout. -/
theorem visited_scratch {cursor : Cursor} (h : Visited dynoc key cursor) :
    cursor.token.Scratch := by
  induction h with
  | start => exact scratch_init
  | call _ hcall ih =>
      obtain ⟨hashFunc, token, dcType, dc, i, rack, index, -, htoken, -, -, -, -, rfl⟩ :=
        select_connection_some hcall
      rw [key_token_eq hashFunc key ih] at htoken
      obtain rfl := Except.ok.inj htoken
      exact scratch_search hashFunc key

include hstarted

/-- A call that turns to a rack which holds a node is safe. -/
theorem safe_call_of_holds {cursor : Cursor} (hscratch : cursor.token.Scratch)
    (hholds : ∀ dcType dc i, nextRack dynoc cursor = some (dcType, dc, i) →
      dynoc.Holds (dcType, i)) : SafeCall dynoc key cursor := by
  obtain ⟨hashFunc, hhash⟩ := hstarted.started.hash
  have htoken := key_token_eq hashFunc key hscratch
  have hcall := select_connection_eq hhash htoken
  cases hnext : nextRack dynoc cursor with
  | none =>
      rw [hnext] at hcall
      obtain ⟨next, hcall⟩ := hcall
      exact ⟨⟨_, hcall⟩, fun slot next hsome => by simp [hcall] at hsome⟩
  | some target =>
      obtain ⟨dcType, dc, i⟩ := target
      obtain ⟨found, rack, hfound, hrack, hpos⟩ := hholds dcType dc i hnext
      obtain rfl : dc = found := Option.some.inj ((next_rack_lt hnext).1.symm.trans hfound)
      have hmem : rack ∈ dc.rack := List.mem_of_getElem? hrack
      obtain ⟨index, hselect, hlt⟩ := (hstarted.started.indexed hfound hmem).select hpos
        (searchToken hashFunc key)
      rw [hnext] at hcall
      simp only [offerRack, hrack, hselect, bind, Except.bind, pure, Except.pure] at hcall
      refine ⟨⟨_, hcall⟩, fun slot next hsome => ?_⟩
      rw [hcall] at hsome
      obtain ⟨rfl, rfl⟩ : ⟨dcType, i, index.toNat⟩ = slot ∧ _ = next := by
        simpa using hsome
      exact ⟨dc, rack, hfound, (List.getElem?_eq_some_iff.mp hrack).1, hrack, hlt,
        hstarted.count_le hfound hmem⟩

/-- A safe call turns to a rack that holds a node. -/
theorem holds_of_safe_call {cursor : Cursor} (h : SafeCall dynoc key cursor) {dcType : DcType}
    {dc : Datacenter} {i : Nat} (hnext : nextRack dynoc cursor = some (dcType, dc, i)) :
    dynoc.Holds (dcType, i) ∧ ∃ slot next token,
      selectConnection dynoc key cursor = .ok (some slot, next) ∧
      next = cursor.after token dcType i := by
  obtain ⟨hashFunc, hhash⟩ := hstarted.started.hash
  obtain ⟨token, htoken⟩ := key_token_total hashFunc key cursor.token
  obtain ⟨result, hreturns⟩ := h.returns
  have hcall := select_connection_eq hhash htoken
  rw [hnext, hreturns] at hcall
  cases hrack : dc.rack[i]? with
  | none => simp [offerRack, hrack, throw, throwThe, MonadExceptOf.throw] at hcall
  | some rack =>
      cases hselect : selectContinuum rack.continuum rack.ncontinuum token with
      | error fault => simp [offerRack, hrack, hselect, bind, Except.bind] at hcall
      | ok index =>
          simp only [offerRack, hrack, hselect, bind, Except.bind, pure, Except.pure,
            Except.ok.injEq] at hcall
          subst hcall
          refine ⟨⟨dc, rack, (next_rack_lt hnext).1, hrack, ?_⟩, _, _, token, hreturns, rfl⟩
          -- an empty rack would have been searched at the position before its first
          by_contra hzero
          have hempty : rack.ncontinuum = 0 := by
            rw [← UInt32.toNat_inj]
            exact Nat.eq_zero_of_not_pos hzero
          rw [hempty, select_continuum_empty] at hselect
          cases hselect

/-- If all lookups of a command are safe, every rack on offer to it holds a node. -/
theorem holds_of_safe_calls (hsafe : ∀ cursor, Visited dynoc key cursor → SafeCall dynoc key cursor)
    {cursor : Cursor} (hvisited : Visited dynoc key cursor) :
    ∀ place ∈ racksOnOffer dynoc cursor, dynoc.Holds place := by
  cases hnext : nextRack dynoc cursor with
  | none =>
      rw [next_rack_none hnext]
      exact fun _ hmem => absurd hmem List.not_mem_nil
  | some target =>
      obtain ⟨dcType, dc, i⟩ := target
      obtain ⟨hholds, slot, next, token, hcall, rfl⟩ :=
        holds_of_safe_call hstarted (hsafe cursor hvisited) hnext
      rw [next_rack_some hnext token, List.forall_mem_cons]
      exact ⟨hholds, holds_of_safe_calls hsafe (hvisited.call hcall)⟩
termination_by cursor.remaining dynoc
decreasing_by exact next_rack_remaining hnext token

omit hstarted in
/-- If every rack on offer at the start holds a node, so does every rack on offer later. -/
theorem visited_holds (hholds : ∀ place ∈ racksOnOffer dynoc .start, dynoc.Holds place)
    {cursor : Cursor} (hvisited : Visited dynoc key cursor) :
    ∀ place ∈ racksOnOffer dynoc cursor, dynoc.Holds place := by
  induction hvisited with
  | start => exact hholds
  | call _ hcall ih =>
      obtain ⟨_, token, dcType, dc, i, _, _, -, -, hnext, -, -, -, rfl⟩ :=
        select_connection_some hcall
      rw [next_rack_some hnext token, List.forall_mem_cons] at ih
      exact ih.2

end Lookup

/-- The local racks on offer are those from the cursor on. -/
theorem mem_local_racks {dc : Datacenter} {i : Nat} {place : DcType × Nat} :
    place ∈ localRacks dc i ↔ ∃ j, i ≤ j ∧ j < dc.rackCount ∧ place = (.localDc, j) := by
  simp only [localRacks, List.mem_map, List.mem_range'_1]
  constructor
  · intro h
    obtain ⟨j, hj, rfl⟩ := h
    exact ⟨j, by omega, by omega, rfl⟩
  · intro h
    obtain ⟨j, hle, hlt, rfl⟩ := h
    exact ⟨j, by omega, rfl⟩

/-- The local racks on offer hold a node exactly if all local racks do. -/
theorem local_racks_hold_iff {dynoc : Dynoc} {dc : Datacenter} (hlocal : dynoc.localDc = some dc) :
    (∀ place ∈ localRacks dc 0, dynoc.Holds place) ↔
      ∀ rack ∈ dc.rack, 0 < rack.ncontinuum.toNat := by
  constructor
  · intro h rack hrack
    obtain ⟨j, hj, rfl⟩ := List.getElem_of_mem hrack
    obtain ⟨found, rack, hfound, hget, hpos⟩ :=
      h (.localDc, j) (mem_local_racks.mpr ⟨j, Nat.zero_le j, hj, rfl⟩)
    obtain rfl : dc = found := Option.some.inj (hlocal.symm.trans hfound)
    rw [List.getElem?_eq_getElem hj] at hget
    cases hget
    exact hpos
  · intro h place hplace
    obtain ⟨j, -, hlt, rfl⟩ := mem_local_racks.mp hplace
    have hj : j < dc.rack.length := hlt
    exact ⟨dc, dc.rack[j], hlocal, List.getElem?_eq_getElem hj, h _ (List.getElem_mem hj)⟩

/-- The racks on offer at the start are the local ones and remote rack 0. -/
theorem complete_iff (dynoc : Dynoc) :
    (∀ place ∈ racksOnOffer dynoc .start, dynoc.Holds place) ↔ dynoc.Complete := by
  unfold Dynoc.Complete racksOnOffer
  cases hlocal : dynoc.localDc with
  | none => simp
  | some localDc =>
      have hracks := local_racks_hold_iff hlocal
      cases hremote : dynoc.remoteDc with
      | none => simpa [Cursor.start] using hracks
      | some remoteDc =>
          have hfirst : dynoc.Holds (.remoteDc, 0) ↔
              ∃ rack ∈ remoteDc.rack[0]?, 0 < rack.ncontinuum.toNat := by
            simp only [Dynoc.Holds, Dynoc.dc, hremote, Option.some.injEq, Option.mem_def,
              exists_and_left, exists_eq_left']
          -- the second round of local racks asks for nothing new
          have hagain : (∀ place ∈ localRacks localDc 0, dynoc.Holds place) →
              ∀ place ∈ localRacks localDc 1, dynoc.Holds place := by
            intro h place hplace
            obtain ⟨j, -, hlt, rfl⟩ := mem_local_racks.mp hplace
            exact h _ (mem_local_racks.mpr ⟨j, Nat.zero_le j, hlt, rfl⟩)
          simp only [Cursor.start, List.forall_mem_append, List.forall_mem_cons, hfirst, hracks,
            Option.mem_def, Option.some.injEq, forall_eq']
          exact ⟨fun h => ⟨h.1, h.2.1⟩,
            fun h => ⟨h.1, h.2, hagain (hracks.mpr h.1)⟩⟩

/-- In every started client, the lookups of a command over any failures stay inside the topology
exactly if every local rack and the first remote rack hold a node. -/
theorem lookup_safe_iff {dynoc : Dynoc} (hstarted : StartedInRoom dynoc) (key : CString) :
    (∀ cursor, Visited dynoc key cursor → SafeCall dynoc key cursor) ↔ dynoc.Complete := by
  rw [← complete_iff dynoc]
  constructor
  · intro hsafe
    exact holds_of_safe_calls hstarted hsafe .start
  · intro hholds cursor hvisited
    refine safe_call_of_holds hstarted (visited_scratch hvisited) (fun dcType dc i hnext => ?_)
    have hplaces := visited_holds hholds hvisited
    rw [next_rack_some hnext tokenInit] at hplaces
    exact hplaces _ List.mem_cons_self

/-- The client with two racks is complete, and all its lookups are safe. -/
theorem lookup_safe_two_racks :
    twoRackClient.Complete ∧ ∀ cursor, Visited twoRackClient (.ofAscii "thread00") cursor →
      SafeCall twoRackClient (.ofAscii "thread00") cursor := by
  have hcomplete : twoRackClient.Complete := by decide +kernel
  have hstarted : StartedInRoom twoRackClient :=
    launch_in_room (Option.some_get _).symm (by decide +kernel)
  exact ⟨hcomplete, (lookup_safe_iff hstarted _).mpr hcomplete⟩

/-- A datacenter made for two racks of which one has been set up. -/
def halfBuiltClient : Dynoc :=
  (launch (.datacenterInit true 2 (.ofAscii "local_dc") .localDc ::
    exampleRack "113.107.149.188" "rack1" .localDc)).get (by decide +kernel)

/-- The first failover goes to the rack that has not been set up and reads before its array. -/
theorem half_built_rack_searched :
    StartedInRoom halfBuiltClient ∧
      ¬ ∀ cursor, Visited halfBuiltClient (.ofAscii "thread00") cursor →
        SafeCall halfBuiltClient (.ofAscii "thread00") cursor := by
  refine ⟨launch_in_room (Option.some_get _).symm (by decide +kernel), fun hsafe => ?_⟩
  let second : Cursor := { token := tokenSetInt tokenInit 8, dcType := .localDc, rcIdx := 1 }
  have hfirst : selectConnection halfBuiltClient (.ofAscii "thread00") .start =
      .ok (some ⟨.localDc, 0, 0⟩, second) := by decide +kernel
  have hfault : selectConnection halfBuiltClient (.ofAscii "thread00") second =
      .error .continuumAccess := by decide +kernel
  obtain ⟨result, hreturns⟩ := (hsafe second (.call .start hfirst)).returns
  rw [hfault] at hreturns
  cases hreturns

end DynocClient
