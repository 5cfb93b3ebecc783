import DynocClient.Command.Basic
import DynocClient.Select.Failover

/-!
# How often a command is executed

A node may execute the command it receives and still not get its reply through. The client then
turns to the next rack, and a counter that the racks replicate moves twice. `update_executions`
says which of the contacted nodes have executed the command of a call that returns 0.
-/

namespace DynocClient

/-- What a node makes of a command: whether it executes it, and what the client gets to see. A
reply with data comes only from a node that has executed the command. -/
structure NodeOutcome where
  executed : Bool
  answer : Answer
  honest : answer.accepted → executed = true

/-- A command sent to a node. -/
structure Contact where
  slot : Slot
  ctx : Option Ctx
  outcome : NodeOutcome

/-- The call that sends it. -/
def Contact.event (request : Request) (contact : Contact) : Event :=
  ⟨contact.slot, .command contact.ctx request contact.outcome.answer⟩

/-- What the client gets to see of the nodes' outcomes. -/
def answersOf (outcomes : Nat → NodeOutcome) (i : Nat) : Answer := (outcomes i).answer

/-- The nodes that the loop of a command sends its request to, in order. -/
def contacts (kind : ReturnKind) (request : Request) (dynoc : Dynoc) (key : CString)
    (cursor : Cursor) (outcomes : Nat → NodeOutcome) (world : World) : List Contact :=
  match _h : selectConnection dynoc key cursor with
  | .error _ | .ok (none, _) => []
  | .ok (some slot, next) =>
      (if (world.conn slot).status = .valid then
        [⟨slot, (world.conn slot).ctx, outcomes 0⟩]
      else []) ++
        match attempt kind request world slot (outcomes 0).answer with
        | (some _, _) => []
        | (none, world) =>
            contacts kind request dynoc key next (fun i => outcomes (i + 1)) world
termination_by cursor.remaining dynoc
decreasing_by exact select_connection_remaining _h

section Loop

variable {request : Request} {dynoc : Dynoc} {key : CString} {final : World}

/-- The connection selected is contacted if it is `VALID`, and the others after it if it does
not accept. -/
theorem contacts_some {kind : ReturnKind} {cursor next : Cursor}
    {outcomes : Nat → NodeOutcome} {world : World} {slot : Slot}
    (h : selectConnection dynoc key cursor = .ok (some slot, next)) :
    contacts kind request dynoc key cursor outcomes world =
      (if (world.conn slot).status = .valid then
        [⟨slot, (world.conn slot).ctx, outcomes 0⟩]
      else []) ++
        match attempt kind request world slot (outcomes 0).answer with
        | (some _, _) => []
        | (none, world) =>
            contacts kind request dynoc key next (fun i => outcomes (i + 1)) world := by
  rw [contacts]
  split
  · simp_all
  · simp_all
  · rename_i hsome
    rw [h] at hsome
    cases hsome
    rfl

/-- Without a connection to select there is no one to contact. -/
theorem contacts_nil {kind : ReturnKind} {cursor : Cursor} {outcomes : Nat → NodeOutcome}
    {world : World} (h : ∀ slot next, selectConnection dynoc key cursor ≠ .ok (some slot, next)) :
    contacts kind request dynoc key cursor outcomes world = [] := by
  rw [contacts]
  split
  · rfl
  · rfl
  · rename_i slot next hsome
    exact absurd hsome (h slot next)

/-- The connections contacted are `VALID` when the loop begins, because no turn makes one so. -/
theorem contacts_valid {kind : ReturnKind} {cursor : Cursor} {outcomes : Nat → NodeOutcome}
    {world : World} : ∀ contact ∈ contacts kind request dynoc key cursor outcomes world,
      (world.conn contact.slot).status = .valid := by
  intro contact hmem
  by_cases hsome : ∃ slot next, selectConnection dynoc key cursor = .ok (some slot, next)
  · obtain ⟨slot, next, hcall⟩ := hsome
    rw [contacts_some hcall] at hmem
    rcases List.mem_append.mp hmem with hfirst | hlater
    · split at hfirst
      · rename_i hvalid
        rw [List.mem_singleton.mp hfirst]
        exact hvalid
      · exact absurd hfirst List.not_mem_nil
    · rcases hattempt : attempt kind request world slot (outcomes 0).answer with
        ⟨_ | returned, reached⟩
      · rw [hattempt] at hlater
        have hvalid := contacts_valid contact hlater
        have hconn := attempt_conn kind request world slot (outcomes 0).answer contact.slot
        rw [hattempt] at hconn
        rcases hconn with hkept | hreset
        · rwa [hkept] at hvalid
        · rw [hreset] at hvalid
          cases hvalid
      · rw [hattempt] at hlater
        exact absurd hlater List.not_mem_nil
  · rw [contacts_nil fun slot next hcall => hsome ⟨slot, next, hcall⟩] at hmem
    exact absurd hmem List.not_mem_nil
termination_by cursor.remaining dynoc
decreasing_by exact select_connection_remaining hcall

/-- No connection is contacted twice, because one that does not accept is reset. -/
theorem contacts_nodup {kind : ReturnKind} {cursor : Cursor} {outcomes : Nat → NodeOutcome}
    {world : World} :
    ((contacts kind request dynoc key cursor outcomes world).map Contact.slot).Nodup := by
  by_cases hsome : ∃ slot next, selectConnection dynoc key cursor = .ok (some slot, next)
  · obtain ⟨slot, next, hcall⟩ := hsome
    rw [contacts_some hcall]
    rcases hattempt : attempt kind request world slot (outcomes 0).answer with
      ⟨_ | returned, reached⟩
    · have hrest : ((contacts kind request dynoc key next (fun i => outcomes (i + 1))
          reached).map Contact.slot).Nodup := contacts_nodup
      by_cases hvalid : (world.conn slot).status = .valid
      · rw [if_pos hvalid]
        refine List.nodup_cons.mpr ⟨fun hmem => ?_, hrest⟩
        obtain ⟨contact, hcontact, hslot⟩ := List.mem_map.mp hmem
        have hlater := contacts_valid contact hcontact
        -- the turn at the slot did not end the loop, so it has reset the slot
        have hrefused := refused_of_none hvalid (by rw [hattempt])
        have hconn := (attempt_refused kind request hrefused).1
        rw [hattempt] at hconn
        rw [hslot, hconn, Function.update_self] at hlater
        cases hlater
      · rw [if_neg hvalid]
        exact hrest
    · split <;> simp
  · rw [contacts_nil fun slot next hcall => hsome ⟨slot, next, hcall⟩]
    exact List.nodup_nil
termination_by cursor.remaining dynoc
decreasing_by exact select_connection_remaining hcall

/-- What one attempt sends. -/
theorem attempt_contact (kind : ReturnKind) (world : World) (slot : Slot) (outcome : NodeOutcome) :
    ∃ events, (attempt kind request world slot outcome.answer).2.trace = world.trace ++ events ∧
      events.filter (fun event => event.call.isCommand) =
        (if (world.conn slot).status = .valid then
          [⟨slot, (world.conn slot).ctx, outcome⟩]
        else []).map (Contact.event request) := by
  obtain ⟨inside, htrace, -, hsent⟩ := attempt_trace kind request world slot outcome.answer
  refine ⟨⟨slot, .lock⟩ :: inside ++ [⟨slot, .unlock⟩], ?_, ?_⟩
  · rw [htrace]
    simp
  · by_cases hvalid : (world.conn slot).status = .valid
    · simp [hsent, hvalid, Contact.event]
    · simp [hsent, hvalid]

/-- The last node contacted accepts and no other does, and the requests among the events are those
of the contacts. -/
structure Decided (request : Request) (contacted : List Contact) (events : List Event) : Prop where
  accepted : ∃ earlier last, contacted = earlier ++ [last] ∧
    last.outcome.answer.accepted = true ∧
    ∀ contact ∈ earlier, contact.outcome.answer.accepted = false
  sent : events.filter (fun event => event.call.isCommand) =
    contacted.map (Contact.event request)

/-- Contacts that are refused may come before. -/
theorem Decided.prepend {contacted front : List Contact} {events before : List Event}
    (h : Decided request contacted events)
    (hfront : ∀ contact ∈ front, contact.outcome.answer.accepted = false)
    (hbefore : before.filter (fun event => event.call.isCommand) =
      front.map (Contact.event request)) :
    Decided request (front ++ contacted) (before ++ events) where
  accepted := by
    obtain ⟨earlier, last, rfl, haccepted, hrefused⟩ := h.accepted
    refine ⟨front ++ earlier, last, (List.append_assoc _ _ _).symm, haccepted, ?_⟩
    intro contact hmem
    rcases List.mem_append.mp hmem with hfirst | hlater
    · exact hfront contact hfirst
    · exact hrefused contact hlater
  sent := by rw [List.filter_append, hbefore, h.sent, List.map_append]

/-- A call that returns 0 is decided by the last of its contacts. -/
theorem command_loop_contacts {cursor : Cursor} {outcomes : Nat → NodeOutcome} {world : World}
    (h : commandLoop .code request dynoc key cursor (answersOf outcomes) world =
      .ok (.code 0, final)) :
    ∃ events, final.trace = world.trace ++ events ∧
      Decided request (contacts .code request dynoc key cursor outcomes world) events := by
  cases hcall : selectConnection dynoc key cursor with
  | error fault =>
      rw [command_loop_error _ _ hcall] at h
      cases h
  | ok result =>
      obtain ⟨_ | slot, next⟩ := result
      · rw [command_loop_none _ _ hcall] at h
        cases h
      · rw [command_loop_some _ _ hcall] at h
        rw [contacts_some hcall]
        obtain ⟨sent, htrace, hsent⟩ := attempt_contact .code world slot (outcomes 0)
        by_cases hlast : (world.conn slot).status = .valid ∧ (outcomes 0).answer.accepted
        · -- the node accepts, and the command returns
          have haccepted := attempt_accepted .code request hlast.1 hlast.2
          rcases hattempt : attempt .code request world slot (outcomes 0).answer with
            ⟨returned, reached⟩
          rw [hattempt] at haccepted htrace
          obtain rfl : returned = some (.code 0) := haccepted
          simp only [answersOf, hattempt, Except.ok.injEq, Prod.mk.injEq, true_and] at h
          rw [if_pos hlast.1] at hsent ⊢
          refine ⟨sent, by rw [← h, htrace], ⟨[], _, rfl, hlast.2, by simp⟩, ?_⟩
          rw [hsent, List.append_nil]
        · -- the node is passed over or refuses, and the command goes on
          have hnone : (attempt .code request world slot (outcomes 0).answer).1 = none :=
            attempt_none hlast
          rcases hattempt : attempt .code request world slot (outcomes 0).answer with
            ⟨returned, reached⟩
          rw [hattempt] at hnone htrace
          obtain rfl : returned = none := hnone
          simp only [answersOf, hattempt] at h
          replace h : commandLoop .code request dynoc key next
            (answersOf fun i => outcomes (i + 1)) reached = .ok (.code 0, final) := h
          obtain ⟨events, hevents, hdecided⟩ := command_loop_contacts h
          refine ⟨sent ++ events, ?_, hdecided.prepend ?_ hsent⟩
          · rw [hevents, htrace, List.append_assoc]
          · intro contact hmem
            by_cases hvalid : (world.conn slot).status = .valid
            · rw [if_pos hvalid, List.mem_singleton] at hmem
              rw [hmem]
              simpa [hvalid] using hlast
            · simp [hvalid] at hmem
termination_by cursor.remaining dynoc
decreasing_by exact select_connection_remaining hcall

end Loop

/-- The commands that move a counter. -/
def Command.IsUpdate : Command → Prop
  | .incr _ | .incrby _ _ | .decr _ | .decrby _ _ => True
  | _ => False

/-- An update returns a code. -/
theorem Command.IsUpdate.kind {command : Command} (h : command.IsUpdate) :
    command.kind = .code := by
  cases command <;> first | rfl | exact h.elim

/-- The nodes contacted by a call of a command. -/
def Command.contacts (command : Command) (dynoc : Dynoc) (outcomes : Nat → NodeOutcome)
    (world : World) : List Contact :=
  DynocClient.contacts command.kind command.request dynoc command.key .start outcomes world

/-- Those of them that have executed the command. -/
def executions (contacted : List Contact) : List Contact :=
  contacted.filter fun contact => contact.outcome.executed

/-- A call that returns 0 contacts no node twice and has had its command executed by the last node
contacted and by every earlier one that executed it without being accepted: by exactly one node if
and only if no earlier one executed it. -/
theorem update_executions {command : Command} (hupdate : command.IsUpdate) {dynoc : Dynoc}
    {outcomes : Nat → NodeOutcome} {world final : World}
    (hcall : command.call dynoc (answersOf outcomes) world = .ok (.code 0, final)) :
    ∃ earlier last, command.contacts dynoc outcomes world = earlier ++ [last] ∧
      ((command.contacts dynoc outcomes world).map Contact.slot).Nodup ∧
      (∃ events, final.trace = world.trace ++ events ∧
        events.filter (fun event => event.call.isCommand) =
          (earlier ++ [last]).map (Contact.event command.request)) ∧
      (∀ contact ∈ earlier, contact.outcome.answer.accepted = false) ∧
      executions (command.contacts dynoc outcomes world) = executions earlier ++ [last] ∧
      ((executions (command.contacts dynoc outcomes world)).length = 1 ↔
        ∀ contact ∈ earlier, contact.outcome.executed = false) := by
  rw [command.call_eq, hupdate.kind] at hcall
  obtain ⟨events, hevents, hdecided⟩ := command_loop_contacts hcall
  obtain ⟨earlier, last, hcontacts, haccepted, hrefused⟩ := hdecided.accepted
  have hsent := hdecided.sent
  rw [hcontacts] at hsent
  have hcontacted : command.contacts dynoc outcomes world = earlier ++ [last] := by
    rw [Command.contacts, hupdate.kind, hcontacts]
  have hlast : executions [last] = [last] := by
    simp [executions, last.outcome.honest haccepted]
  have hexecutions : executions (command.contacts dynoc outcomes world) =
      executions earlier ++ [last] := by
    rw [hcontacted, executions, List.filter_append]
    exact congrArg (executions earlier ++ ·) hlast
  refine ⟨earlier, last, hcontacted, contacts_nodup, ⟨events, hevents, hsent⟩, hrefused,
    hexecutions, ?_⟩
  rw [hexecutions, List.length_append, List.length_singleton, Nat.add_eq_right,
    List.length_eq_zero_iff, executions, List.filter_eq_nil_iff]
  simp

/-- Every rack of the example is connected. -/
def allConnected : World :=
  { World.initial fun slot =>
      if slot = ⟨.localDc, 0, 0⟩ then ⟨.valid, some 0⟩
      else if slot = ⟨.remoteDc, 0, 0⟩ then ⟨.valid, some 1⟩
      else ⟨.invalid, none⟩ with
    ctxs := Lib.Ledger.empty.acquire.acquire }

/-- The first node executes the command and its reply is lost. -/
def replyLost (i : Nat) : NodeOutcome :=
  if i = 0 then ⟨true, { reply := none, err := true }, nofun⟩
  else ⟨true, { reply := some .data, err := false }, fun _ => rfl⟩

/-- With the first reply lost the call still returns 0. -/
theorem incr_returns : ∃ final,
    (Command.incr (.ofAscii "thread00")).call twoRackClient (answersOf replyLost) allConnected =
      .ok (.code 0, final) := by
  have hreturned : ((Command.incr (.ofAscii "thread00")).call twoRackClient
      (answersOf replyLost) allConnected).map Prod.fst = .ok (.code 0) := by decide +kernel
  cases hcall : (Command.incr (.ofAscii "thread00")).call twoRackClient (answersOf replyLost)
      allConnected with
  | error fault =>
      rw [hcall] at hreturned
      cases hreturned
  | ok result =>
      rw [hcall] at hreturned
      have hcode : result.1 = .code 0 := Except.ok.inj hreturned
      exact ⟨result.2, by rw [← hcode]⟩

/-- But the command has been executed by two nodes. -/
theorem incr_executed_twice :
    (∃ final, (Command.incr (.ofAscii "thread00")).call twoRackClient (answersOf replyLost)
        allConnected = .ok (.code 0, final)) ∧
      (executions ((Command.incr (.ofAscii "thread00")).contacts twoRackClient replyLost
        allConnected)).map Contact.slot = [⟨.localDc, 0, 0⟩, ⟨.remoteDc, 0, 0⟩] :=
  ⟨incr_returns, by decide +kernel⟩

/-- The case of a lost reply in the example. -/
theorem update_executions_reply_lost :
    ∃ earlier last, (Command.incr (.ofAscii "thread00")).contacts twoRackClient replyLost
        allConnected = earlier ++ [last] ∧
      ((executions (earlier ++ [last])).length = 1 ↔
        ∀ contact ∈ earlier, contact.outcome.executed = false) := by
  have hupdate : (Command.incr (.ofAscii "thread00")).IsUpdate := trivial
  obtain ⟨final, hcall⟩ := incr_returns
  obtain ⟨earlier, last, hcontacts, -, -, -, -, hcount⟩ := update_executions hupdate hcall
  rw [hcontacts] at hcount
  exact ⟨earlier, last, hcontacts, hcount⟩

end DynocClient
