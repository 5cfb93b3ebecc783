import DynocClient.Command.Basic
import DynocClient.Select.Lookup

/-!
# The meaning of a command

A command goes through the connections on offer until one of them accepts. `command_meaning`
says what comes of it for every pattern of answers: which connection decides the result, what
each connection visited is left as, and what was locked, sent and freed on the way. The eleven
functions are instances of one statement, because they run one loop (`Command.call_eq`).
-/

namespace DynocClient

open Lib

/-! ## The results -/

/-- The command returns 0, or the reply. -/
def ReturnKind.IsSuccess (kind : ReturnKind) (reply : Reply) (returned : Returned) : Prop :=
  match kind with
  | .code => returned = .code 0
  | .reply => returned = .reply (some reply)

/-- The command returns -1, or `NULL`. -/
def ReturnKind.IsFailure (kind : ReturnKind) (returned : Returned) : Prop :=
  match kind with
  | .code => returned = .code (-1)
  | .reply => returned = .reply none

/-- What the code returns on a reply with data is the success of its kind. -/
theorem succeeded_is_success (kind : ReturnKind) (reply : Reply) :
    kind.IsSuccess reply (kind.succeeded (some reply)) := by
  cases kind <;> rfl

/-- What the code returns after the last slot is the failure of its kind. -/
theorem failed_is_failure (kind : ReturnKind) : kind.IsFailure kind.failed := by
  cases kind <;> rfl

/-! ## The connections visited -/

section Visits

variable (kind : ReturnKind) (request : Request)

/-- The loop of a command over the connections it is offered. -/
def attemptAll : List Slot → (Nat → Answer) → World → Returned × World
  | [], _, world => (kind.failed, world)
  | slot :: rest, answers, world =>
      match attempt kind request world slot (answers 0) with
      | (some returned, world) => (returned, world)
      | (none, world) => attemptAll rest (fun i => answers (i + 1)) world

/-- The world after an attempt at each of the connections. -/
def visitAll : List Slot → (Nat → Answer) → World → World
  | [], _, world => world
  | slot :: rest, answers, world =>
      visitAll rest (fun i => answers (i + 1)) (attempt kind request world slot (answers 0)).2

/-- A command runs through the connections that the calls of `select_connection` return. -/
theorem command_loop_eq {dynoc : Dynoc} {key : CString} {cursor : Cursor} {slots : List Slot}
    (h : offers dynoc key cursor = .ok slots) (answers : Nat → Answer) (world : World) :
    commandLoop kind request dynoc key cursor answers world =
      .ok (attemptAll kind request slots answers world) := by
  induction slots generalizing cursor answers world with
  | nil =>
      obtain ⟨next, hcall⟩ := select_of_offers_nil h
      rw [command_loop_none answers world hcall]
      rfl
  | cons slot rest ih =>
      obtain ⟨next, hcall, hrest⟩ := select_of_offers_cons h
      rw [command_loop_some answers world hcall, attemptAll]
      rcases attempt kind request world slot (answers 0) with ⟨_ | returned, final⟩
      · exact ih hrest _ _
      · rfl

end Visits

section Reached

variable (kind : ReturnKind) (request : Request) (answers : Nat → Answer) (world : World)

/-- After attempts at the connections `before`, this one is `VALID` and answers as the command
needs. -/
def AcceptedAt (before : List Slot) (slot : Slot) : Prop :=
  ((visitAll kind request before answers world).conn slot).status = .valid ∧
    (answers before.length).accepted = true

/-- After attempts at the connections `before`, this one is `VALID` and does not. -/
def RefusedAt (before : List Slot) (slot : Slot) : Prop :=
  Refused (visitAll kind request before answers world) slot (answers before.length)

/-- What is sent in attempts at these connections. -/
def sends : List Slot → (Nat → Answer) → World → List Event
  | [], _, _ => []
  | slot :: rest, answers, world =>
      (if (world.conn slot).status = .valid then
        [⟨slot, .command (world.conn slot).ctx request (answers 0)⟩]
      else []) ++
        sends rest (fun i => answers (i + 1)) (attempt kind request world slot (answers 0)).2

/-- The connections visited decide the result: the last of them is the first one that accepts,
or they are all that were offered and none accepts. -/
inductive Decides (slots : List Slot) : List Slot → Returned → Prop where
  | success {before after : List Slot} {slot : Slot} {returned : Returned}
      (hslots : slots = before ++ slot :: after)
      (haccepted : AcceptedAt kind request answers world before slot)
      (hfirst : ∀ earlier other later, before = earlier ++ other :: later →
        ¬ AcceptedAt kind request answers world earlier other)
      (hreturned : kind.IsSuccess
        ⟨(visitAll kind request before answers world).replies.issued, .data⟩ returned) :
      Decides slots (before ++ [slot]) returned
  | failure {returned : Returned} (hnone : ∀ before slot after, slots = before ++ slot :: after →
        ¬ AcceptedAt kind request answers world before slot)
      (hreturned : kind.IsFailure returned) :
      Decides slots slots returned

/-- The connections visited, the result and the final world of a command. -/
structure Meaning (slots visited : List Slot) (returned : Returned)
    (final : World) : Prop where
  decides : Decides kind request answers world slots visited returned
  /-- Every connection that was `VALID` when reached and did not accept is reset, and its
  context has been freed once. -/
  reset : ∀ before slot after, visited = before ++ slot :: after →
    RefusedAt kind request answers world before slot →
    final.conn slot = ⟨.invalid, none⟩ ∧
      ∃ ctx, (world.conn slot).ctx = some ctx ∧ final.ctxs.released.count ctx = 1
  /-- No other connection changes. -/
  frame : ∀ slot, (∀ before after, visited = before ++ slot :: after →
    ¬ RefusedAt kind request answers world before slot) → final.conn slot = world.conn slot
  /-- No context is opened, and only those of the connections that are reset are freed. -/
  contexts : final.ctxs.issued = world.ctxs.issued ∧
    ∀ ctx, (∀ before slot after, visited = before ++ slot :: after →
      RefusedAt kind request answers world before slot → (world.conn slot).ctx ≠ some ctx) →
      final.ctxs.released.count ctx = world.ctxs.released.count ctx
  /-- The locks of the visited connections are taken and released one after the other, and the
  request goes to the ones that are `VALID` when reached and to no other. -/
  trace : ∃ events, final.trace = world.trace ++ events ∧
    events.filter (fun event => event.call.isMutex) =
      visited.flatMap (fun slot => [⟨slot, .lock⟩, ⟨slot, .unlock⟩]) ∧
    events.filter (fun event => event.call.isCommand) =
      sends kind request visited answers world

end Reached

/-! ## Contexts of their own -/

/-- Of these slots, each `VALID` one has a live context that no other of them holds. -/
def OwnContexts (slots : Slot → Prop) (world : World) : Prop :=
  ∀ slot, slots slot → (world.conn slot).status = .valid →
    ∃ ctx, (world.conn slot).ctx = some ctx ∧ world.ctxs.Live ctx ∧
      ∀ other, slots other → other ≠ slot → (world.conn other).ctx ≠ some ctx

section Own

variable {kind : ReturnKind} {request : Request} {slots : Slot → Prop} {world : World}

/-- An attempt keeps the contexts of the slots apart. -/
theorem OwnContexts.attempt (h : OwnContexts slots world) {slot : Slot} (hslot : slots slot)
    (answer : Answer) : OwnContexts slots (attempt kind request world slot answer).2 := by
  by_cases hrefused : Refused world slot answer
  · obtain ⟨ctx, hctx, -, hown⟩ := h slot hslot hrefused.1
    obtain ⟨hconn, hfreed⟩ := attempt_refused kind request hrefused
    intro other hother hvalid
    have hne : other ≠ slot := by
      rintro rfl
      simp [hconn] at hvalid
    rw [attempt_other kind request hne] at hvalid ⊢
    obtain ⟨held, hheld, hlive, hsole⟩ := h other hother hvalid
    refine ⟨held, hheld, ?_, fun third hthird hthirdNe => ?_⟩
    · rw [hfreed ctx hctx]
      refine Ledger.live_release.mpr ⟨hlive, ?_⟩
      rintro rfl
      exact hown other hother hne hheld
    · by_cases hthirdSlot : third = slot
      · rw [hthirdSlot, hconn, Function.update_self]
        simp
      · rw [attempt_other kind request hthirdSlot]
        exact hsole third hthird hthirdNe
  · obtain ⟨hconn, hctxs⟩ := attempt_kept kind request hrefused
    intro other hother hvalid
    rw [hconn] at hvalid ⊢
    rw [hctxs]
    exact h other hother hvalid

/-- A connection that is `INVALID` when a command begins stays as it is. -/
theorem visit_all_invalid {slot : Slot} (visited : List Slot) (answers : Nat → Answer)
    (h : (world.conn slot).status = .invalid) :
    (visitAll kind request visited answers world).conn slot = world.conn slot := by
  induction visited generalizing answers world with
  | nil => rfl
  | cons first rest ih =>
      have hfirst : (DynocClient.attempt kind request world first (answers 0)).2.conn slot =
          world.conn slot := by
        by_cases hslot : slot = first
        · subst hslot
          rw [attempt_invalid h]
          rfl
        · exact attempt_other kind request hslot
      rw [visitAll, ih _ (by rw [hfirst, h]), hfirst]

/-- The connections have contexts of their own again when a command is through with them. -/
theorem OwnContexts.visit_all {visited : List Slot} (hvisited : ∀ slot ∈ visited, slots slot)
    {answers : Nat → Answer} (hown : OwnContexts slots world) :
    OwnContexts slots (visitAll kind request visited answers world) := by
  induction visited generalizing answers world with
  | nil => exact hown
  | cons first rest ih =>
      obtain ⟨hfirst, hrest⟩ := List.forall_mem_cons.mp hvisited
      exact ih hrest (hown.attempt hfirst _)

/-- No attempt opens a context. -/
theorem visit_all_issued {visited : List Slot} (hvisited : ∀ slot ∈ visited, slots slot)
    {answers : Nat → Answer} (hown : OwnContexts slots world) :
    (visitAll kind request visited answers world).ctxs.issued = world.ctxs.issued := by
  induction visited generalizing answers world with
  | nil => rfl
  | cons first rest ih =>
      obtain ⟨hfirst, hrest⟩ := List.forall_mem_cons.mp hvisited
      rw [visitAll, ih hrest (hown.attempt hfirst _)]
      by_cases hrefused : Refused world first (answers 0)
      · obtain ⟨held, hheld, -, -⟩ := hown first hfirst hrefused.1
        rw [(attempt_refused kind request hrefused).2 held hheld, Ledger.release_issued]
      · rw [(attempt_kept kind request hrefused).2]

/-- A context that no refused connection holds is not freed. -/
theorem visit_all_count {visited : List Slot} (hvisited : ∀ slot ∈ visited, slots slot)
    {answers : Nat → Answer} (hown : OwnContexts slots world) {ctx : Ctx}
    (h : ∀ before slot after, visited = before ++ slot :: after →
      RefusedAt kind request answers world before slot → (world.conn slot).ctx ≠ some ctx) :
    (visitAll kind request visited answers world).ctxs.released.count ctx =
      world.ctxs.released.count ctx := by
  induction visited generalizing answers world with
  | nil => rfl
  | cons first rest ih =>
      obtain ⟨hfirst, hrest⟩ := List.forall_mem_cons.mp hvisited
      rw [visitAll, ih hrest (hown.attempt hfirst _)]
      · by_cases hrefused : Refused world first (answers 0)
        · obtain ⟨held, hheld, -, -⟩ := hown first hfirst hrefused.1
          rw [(attempt_refused kind request hrefused).2 held hheld, Ledger.release_released,
            List.count_cons_of_ne]
          rintro rfl
          exact h [] first rest rfl hrefused hheld
        · rw [(attempt_kept kind request hrefused).2]
      · intro before slot after hsplit hrefused
        -- the first attempt gives no connection a context
        rcases attempt_conn kind request world first (answers 0) slot with hkept | hreset
        · rw [hkept]
          exact h (first :: before) slot after (by rw [hsplit]; rfl) hrefused
        · rw [hreset]
          simp

/-- Every refused connection is reset, and its context is freed once. -/
theorem visit_all_reset {visited before after : List Slot} {slot : Slot}
    (hvisited : ∀ slot ∈ visited, slots slot) {answers : Nat → Answer}
    (hown : OwnContexts slots world) (hsplit : visited = before ++ slot :: after)
    (hrefused : RefusedAt kind request answers world before slot) :
    (visitAll kind request visited answers world).conn slot = ⟨.invalid, none⟩ ∧
      ∃ ctx, (world.conn slot).ctx = some ctx ∧
        (visitAll kind request visited answers world).ctxs.released.count ctx = 1 := by
  subst hsplit
  induction before generalizing answers world with
  | nil =>
      obtain ⟨hslot, hafter⟩ := List.forall_mem_cons.mp hvisited
      have hfirst : Refused world slot (answers 0) := hrefused
      obtain ⟨hconn, hfreed⟩ := attempt_refused kind request hfirst
      obtain ⟨ctx, hctx, hlive, hsole⟩ := hown slot hslot hfirst.1
      have hreset : (attempt kind request world slot (answers 0)).2.conn slot =
          ⟨.invalid, none⟩ := by
        rw [hconn, Function.update_self]
      refine ⟨?_, ctx, hctx, ?_⟩
      · show (visitAll kind request after _ _).conn slot = _
        rw [visit_all_invalid after _ (by rw [hreset]), hreset]
      · show (visitAll kind request after _ _).ctxs.released.count ctx = 1
        -- no connection holds the freed context any more
        rw [visit_all_count hafter (hown.attempt hslot _), hfreed ctx hctx,
          Ledger.release_released, List.count_cons_self, List.count_eq_zero_of_not_mem hlive.2]
        intro earlier other later hsplit _
        by_cases hne : other = slot
        · subst hne
          rw [hreset]
          simp
        · rw [attempt_other kind request hne]
          exact hsole other (hafter other (by rw [hsplit]; simp)) hne
  | cons first before ih =>
      obtain ⟨hfirst, hrest⟩ := List.forall_mem_cons.mp hvisited
      obtain ⟨hreset, ctx, hctx, hcount⟩ := ih (hown.attempt hfirst _) hrefused hrest
      refine ⟨hreset, ctx, ?_, hcount⟩
      -- the slot holds a context, so the first attempt has not reset it
      rcases attempt_conn kind request world first (answers 0) slot with hkept | hgone
      · rwa [hkept] at hctx
      · rw [hgone] at hctx
        cases hctx

/-- A connection that is never refused stays as it is. -/
theorem visit_all_frame {visited : List Slot} {answers : Nat → Answer} {slot : Slot}
    (h : ∀ before after, visited = before ++ slot :: after →
      ¬ RefusedAt kind request answers world before slot) :
    (visitAll kind request visited answers world).conn slot = world.conn slot := by
  induction visited generalizing answers world with
  | nil => rfl
  | cons first rest ih =>
      have hfirst : (attempt kind request world first (answers 0)).2.conn slot =
          world.conn slot := by
        by_cases hslot : slot = first
        · subst hslot
          have hkept : ¬ Refused world slot (answers 0) := h [] rest rfl
          rw [(attempt_kept kind request hkept).1]
        · exact attempt_other kind request hslot
      rw [visitAll, ih, hfirst]
      intro before after hsplit
      exact h (first :: before) after (by rw [hsplit]; rfl)

/-- A visit adds a lock and an unlock for each slot, with what it sends between. -/
theorem visit_all_trace (visited : List Slot) (answers : Nat → Answer) (world : World) :
    ∃ events, (visitAll kind request visited answers world).trace = world.trace ++ events ∧
      events.filter (fun event => event.call.isMutex) =
        visited.flatMap (fun slot => [⟨slot, .lock⟩, ⟨slot, .unlock⟩]) ∧
      events.filter (fun event => event.call.isCommand) =
        sends kind request visited answers world := by
  induction visited generalizing answers world with
  | nil => exact ⟨[], (List.append_nil _).symm, rfl, rfl⟩
  | cons first rest ih =>
      obtain ⟨inside, hinside, hmutex, hcommand⟩ :=
        attempt_trace kind request world first (answers 0)
      obtain ⟨events, hevents, hmutexes, hcommands⟩ := ih (fun i => answers (i + 1))
        (attempt kind request world first (answers 0)).2
      refine ⟨⟨first, .lock⟩ :: inside ++ [⟨first, .unlock⟩] ++ events, ?_, ?_, ?_⟩
      · rw [visitAll, hevents, hinside]
        simp only [List.append_assoc, List.cons_append]
      · simp [List.filter_cons, hmutex, hmutexes]
      · simp [hcommand, hcommands, sends]

/-- A first attempt that decides is the only one. -/
theorem attempt_all_some {first : Slot} {rest : List Slot} {answers : Nat → Answer}
    {returned : Returned}
    (h : (attempt kind request world first (answers 0)).1 = some returned) :
    attemptAll kind request (first :: rest) answers world =
      (returned, visitAll kind request [first] answers world) := by
  rw [attemptAll]
  rcases hattempt : attempt kind request world first (answers 0) with ⟨_ | found, final⟩
  · simp [hattempt] at h
  · obtain rfl : found = returned := by simpa [hattempt] using h
    simp [visitAll, hattempt]

/-- A first attempt that does not decide is followed by the others. -/
theorem attempt_all_none {first : Slot} {rest : List Slot} {answers : Nat → Answer}
    (h : (attempt kind request world first (answers 0)).1 = none) :
    attemptAll kind request (first :: rest) answers world =
      attemptAll kind request rest (fun i => answers (i + 1))
        (attempt kind request world first (answers 0)).2 := by
  rw [attemptAll]
  rcases hattempt : attempt kind request world first (answers 0) with ⟨_ | found, final⟩
  · rfl
  · simp [hattempt] at h

/-- If the first connection does not accept, the others decide. -/
theorem Decides.cons {first : Slot} {rest visited : List Slot} {answers : Nat → Answer}
    {returned : Returned} (hfirst : ¬ AcceptedAt kind request answers world [] first)
    (h : Decides kind request (fun i => answers (i + 1))
      (attempt kind request world first (answers 0)).2 rest visited returned) :
    Decides kind request answers world (first :: rest) (first :: visited) returned := by
  have hlift : ∀ {connections : List Slot},
      (∀ before slot after, connections = before ++ slot :: after →
        ¬ AcceptedAt kind request (fun i => answers (i + 1))
          (attempt kind request world first (answers 0)).2 before slot) →
      ∀ before slot after, first :: connections = before ++ slot :: after →
        ¬ AcceptedAt kind request answers world before slot := by
    intro connections hnone before slot after hsplit
    cases before with
    | nil =>
        obtain ⟨rfl, -⟩ := List.cons.inj hsplit
        exact hfirst
    | cons head before =>
        obtain ⟨rfl, hrest⟩ := List.cons.inj hsplit
        exact hnone before slot after hrest
  cases h with
  | success hslots haccepted hearlier hreturned =>
      subst hslots
      exact Decides.success (List.cons_append ..).symm haccepted (hlift hearlier) hreturned
  | failure hnone hreturned => exact .failure (hlift hnone) hreturned

/-- The run of a command visits the connections that decide its result. -/
theorem attempt_all_decides (kind : ReturnKind) (request : Request) (offered : List Slot)
    (answers : Nat → Answer) (world : World) :
    ∃ visited returned, Decides kind request answers world offered visited returned ∧
      attemptAll kind request offered answers world =
        (returned, visitAll kind request visited answers world) := by
  induction offered generalizing answers world with
  | nil =>
      refine ⟨[], kind.failed, .failure ?_ (failed_is_failure kind), rfl⟩
      intro before slot after h
      simp at h
  | cons first rest ih =>
      by_cases haccepted : AcceptedAt kind request answers world [] first
      · have hsome := attempt_accepted kind request haccepted.1 haccepted.2
        refine ⟨[] ++ [first], _, .success rfl haccepted ?_ (succeeded_is_success kind _),
          attempt_all_some hsome⟩
        intro earlier other later h
        simp at h
      · obtain ⟨visited, returned, hdecides, hrun⟩ := ih (fun i => answers (i + 1))
          (attempt kind request world first (answers 0)).2
        refine ⟨first :: visited, returned, hdecides.cons haccepted, ?_⟩
        have hnone : (attempt kind request world first (answers 0)).1 = none :=
          attempt_none haccepted
        rw [attempt_all_none hnone, hrun]
        rfl

end Own

/-- Only slots on offer are visited. -/
theorem Decides.mem {kind : ReturnKind} {request : Request} {answers : Nat → Answer}
    {world : World} {slots visited : List Slot} {returned : Returned}
    (h : Decides kind request answers world slots visited returned) :
    ∀ slot ∈ visited, slot ∈ slots := by
  cases h with
  | failure => exact fun _ hmem => hmem
  | success hslots =>
      intro slot hmem
      rw [hslots]
      simp only [List.mem_append, List.mem_cons] at hmem ⊢
      tauto

/-! ## The commands -/

/-- Every connection offered is that of a node. -/
theorem offers_is_node {dynoc : Dynoc} (hstarted : Started dynoc) {key : CString}
    {cursor : Cursor} {slots : List Slot} (h : offers dynoc key cursor = .ok slots) :
    ∀ slot ∈ slots, dynoc.IsNode slot := by
  induction slots generalizing cursor with
  | nil => exact fun _ hmem => absurd hmem List.not_mem_nil
  | cons slot rest ih =>
      obtain ⟨next, hcall, hrest⟩ := select_of_offers_cons h
      exact List.forall_mem_cons.mpr ⟨select_connection_is_node hstarted hcall, ih hrest⟩

/-- A command of any kind, on any complete topology and from any state of the connections in
which the `VALID` ones have contexts of their own: the first connection offered that is `VALID`
when reached and accepts decides the result, and without one the command fails. Afterwards the
`VALID` ones have contexts of their own again. -/
theorem command_meaning {dynoc : Dynoc} (hstarted : Started dynoc)
    (hracks : ∀ dcType, ∀ dc ∈ dynoc.dc dcType, 1 ≤ dc.rackCount)
    (hpopulated : dynoc.Populated) (command : Command) (answers : Nat → Answer) {world : World}
    (hown : OwnContexts dynoc.IsNode world) :
    ∃ slots returned final visited,
      offers dynoc command.key .start = .ok slots ∧
      command.call dynoc answers world = .ok (returned, final) ∧
      Meaning command.kind command.request answers world slots visited returned final ∧
      OwnContexts dynoc.IsNode final := by
  obtain ⟨hashFunc, hhash⟩ := hstarted.hash
  have hoffers := offers_eq hstarted hpopulated (fun dc hdc => hracks .remoteDc dc hdc)
    hhash command.key .start scratch_init
  obtain ⟨visited, returned, hdecides, hrun⟩ :=
    attempt_all_decides command.kind command.request _ answers world
  have hvisited : ∀ slot ∈ visited, dynoc.IsNode slot := fun slot hmem =>
    offers_is_node hstarted hoffers slot (hdecides.mem slot hmem)
  refine ⟨_, returned, visitAll command.kind command.request visited answers world, visited,
    hoffers, ?_, ⟨hdecides, ?_, ?_, ⟨?_, ?_⟩, ?_⟩, ?_⟩
  · rw [command.call_eq, command_loop_eq _ _ hoffers, hrun]
  · intro before slot after hsplit hrefused
    exact visit_all_reset hvisited hown hsplit hrefused
  · intro slot hkept
    exact visit_all_frame hkept
  · exact visit_all_issued hvisited hown
  · intro ctx hunheld
    exact visit_all_count hvisited hown hunheld
  · exact visit_all_trace visited answers world
  · exact hown.visit_all hvisited

/-- Three local racks. -/
def threeLocalClient : Dynoc :=
  (launch (.datacenterInit true 3 (.ofAscii "local_dc") .localDc ::
    (exampleRack "113.107.149.188" "rack1" .localDc ++
      exampleRack "61.145.54.225" "rack2" .localDc ++
      exampleRack "58.215.169.12" "rack3" .localDc))).get (by decide +kernel)

/-- The first rack has lost its connection; the other two have one each. -/
def secondAndThirdConnected : World :=
  { World.initial fun slot =>
      if slot = ⟨.localDc, 1, 0⟩ then ⟨.valid, some 0⟩
      else if slot = ⟨.localDc, 2, 0⟩ then ⟨.valid, some 1⟩
      else ⟨.invalid, none⟩ with
    ctxs := Ledger.empty.acquire.acquire }

/-- What the connections on offer answer, if they are asked: an error twice, and then data. -/
def errorsFirst (i : Nat) : Answer :=
  { reply := some (if i < 2 then .error else .data), err := false }

/-- The first connection is passed over, the second refuses and is reset, and the third accepts. -/
theorem command_meaning_three_racks :
    ∃ final,
      offers threeLocalClient (.ofAscii "thread00") .start =
        .ok [⟨.localDc, 0, 0⟩, ⟨.localDc, 1, 0⟩, ⟨.localDc, 2, 0⟩] ∧
      (Command.get (.ofAscii "thread00")).call threeLocalClient errorsFirst
        secondAndThirdConnected = .ok (.reply (some ⟨1, .data⟩), final) ∧
      (∃ visited, Meaning .reply (.get (.ofAscii "thread00")) errorsFirst secondAndThirdConnected
        [⟨.localDc, 0, 0⟩, ⟨.localDc, 1, 0⟩, ⟨.localDc, 2, 0⟩] visited
        (.reply (some ⟨1, .data⟩)) final) ∧
      final.conn ⟨.localDc, 1, 0⟩ = ⟨.invalid, none⟩ ∧
      final.conn ⟨.localDc, 2, 0⟩ = ⟨.valid, some 1⟩ ∧ final.ctxs = ⟨2, [0]⟩ := by
  have hown : OwnContexts threeLocalClient.IsNode secondAndThirdConnected := by
    intro slot _ hvalid
    by_cases hsecond : slot = ⟨.localDc, 1, 0⟩
    · subst hsecond
      refine ⟨0, rfl, by decide, fun other _ hne => ?_⟩
      by_cases hother : other = ⟨.localDc, 2, 0⟩ <;>
        simp [secondAndThirdConnected, World.initial, hne, hother]
    · have hthird : slot = ⟨.localDc, 2, 0⟩ := by
        by_contra hne
        simp [secondAndThirdConnected, World.initial, hsecond, hne] at hvalid
      subst hthird
      refine ⟨1, rfl, by decide, fun other _ hne => ?_⟩
      by_cases hother : other = ⟨.localDc, 1, 0⟩ <;>
        simp [secondAndThirdConnected, World.initial, hne, hother]
  have hoffers : offers threeLocalClient (.ofAscii "thread00") .start =
      .ok [⟨.localDc, 0, 0⟩, ⟨.localDc, 1, 0⟩, ⟨.localDc, 2, 0⟩] := by decide +kernel
  have hseen : ((Command.get (.ofAscii "thread00")).call threeLocalClient errorsFirst
        secondAndThirdConnected).map (fun (returned, final) =>
          (returned, final.conn ⟨.localDc, 1, 0⟩, final.conn ⟨.localDc, 2, 0⟩, final.ctxs)) =
      .ok (.reply (some ⟨1, .data⟩), ⟨.invalid, none⟩, ⟨.valid, some 1⟩, ⟨2, [0]⟩) := by
    decide +kernel
  have hstarted : Started threeLocalClient := launch_started (Option.some_get _).symm
  obtain ⟨slots, returned, final, visited, hslots, hcall, hmeaning, -⟩ :=
    command_meaning hstarted (by decide +kernel) (by decide +kernel) (.get (.ofAscii "thread00"))
      errorsFirst hown
  obtain rfl := Except.ok.inj (hslots.symm.trans hoffers)
  rw [hcall] at hseen
  obtain ⟨rfl, hsecond, hthird, hctxs⟩ : returned = .reply (some ⟨1, .data⟩) ∧
      final.conn ⟨.localDc, 1, 0⟩ = ⟨.invalid, none⟩ ∧
      final.conn ⟨.localDc, 2, 0⟩ = ⟨.valid, some 1⟩ ∧ final.ctxs = ⟨2, [0]⟩ := by
    simpa only [Except.map, Except.ok.injEq, Prod.mk.injEq] using hseen
  exact ⟨final, hoffers, hcall, ⟨visited, hmeaning⟩, hsecond, hthird, hctxs⟩

end DynocClient
