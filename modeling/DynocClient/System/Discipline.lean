import DynocClient.System.Serial

/-!
# The order of the calls at a slot

Three automata read the calls made for a slot. `lockStep` accepts a call into hiredis only between
a lock and its unlock, `holderStep` only from the thread that made this lock, and `contextStep`
accepts a command or a `redisFree` only on a context, while one that was opened for the slot is
open. Whatever the interleaving of the statements, the calls that threads make pass the second
(`sections_exclusive`), and those after `dynoc_start` the first and the last
(`calls_disciplined`).
-/

namespace DynocClient

open Lib

/-- Whether the lock of a slot is taken, after one more call at the slot. -/
def lockStep : Bool → ExternalCall → Option Bool
  | false, .lock => some true
  | false, _ => none
  | true, .lock => none
  | true, .unlock => some false
  | true, _ => some true

/-- Which thread has the lock of a slot, after one more call at the slot by a thread. Nobody else
may make a call there. -/
def holderStep : Option Nat → Nat × ExternalCall → Option (Option Nat)
  | none, (thread, .lock) => some (some thread)
  | none, _ => none
  | some holder, (thread, call) =>
      if thread = holder then
        match call with
        | .lock => none
        | .unlock => some none
        | _ => some (some holder)
      else none

/-- How many contexts are open that were opened for a slot, after one more call at the slot. -/
def contextStep (opened : Nat) : ExternalCall → Option Nat
  | .connect _ (some _) => some (opened + 1)
  | .command (some _) _ _ => if 0 < opened then some opened else none
  -- `redisCommand` takes no `NULL`
  | .command none _ _ => none
  | .redisFree _ => if 0 < opened then some (opened - 1) else none
  | _ => some opened

/-- The calls at the slot from one state to a later one. -/
def CallsBetween (before after : World) (slot : Slot) (calls : List ExternalCall) : Prop :=
  (after.view slot).calls = (before.view slot).calls ++ calls

/-- No call is made by doing nothing. -/
theorem calls_between_refl (world : World) (slot : Slot) : CallsBetween world world slot [] :=
  (List.append_nil _).symm

/-- The calls of two stretches are the calls of the first and then of the second. -/
theorem CallsBetween.trans {first second third : World} {slot : Slot}
    {calls more : List ExternalCall} (h : CallsBetween first second slot calls)
    (hmore : CallsBetween second third slot more) :
    CallsBetween first third slot (calls ++ more) := by
  unfold CallsBetween at *
  rw [hmore, h, List.append_assoc]

/-! ## Locks -/

section Locks

variable (slot : Slot) (world : World)

/-- A section begins at its lock, and its statements make no other call on it up to the unlock. -/
theorem attempt_statement_locks (frame : AttemptFrame) (point : AttemptPoint) :
    ∃ calls, CallsBetween world (attemptStatement frame slot world point).2 slot calls ∧
      runFrom lockStep true calls =
        some (attemptStatement frame slot world point).1.isRight := by
  unfold CallsBetween
  cases point with
  | test =>
      simp only [attemptStatement]
      split <;> exact ⟨[], (List.append_nil _).symm, rfl⟩
  | send =>
      exact ⟨[.command (anonymousCtx (world.conn slot).ctx) frame.command.request frame.answer],
        by simp [attemptStatement, SlotView.emit], rfl⟩
  | judge reply =>
      simp only [attemptStatement]
      split
      · split <;> exact ⟨[], (List.append_nil _).symm, rfl⟩
      · exact ⟨[], (List.append_nil _).symm, rfl⟩
  | freeAccepted reply | freeRefused reply =>
      cases reply with
      | none => exact ⟨[], (List.append_nil _).symm, rfl⟩
      | some reply =>
          exact ⟨[.freeReplyObject 0], by simp [attemptStatement, SlotView.emit], rfl⟩
  | resetStatus | resetCtx => exact ⟨[], by simp [attemptStatement], rfl⟩
  | resetFree =>
      cases hctx : (world.conn slot).ctx with
      | none => exact ⟨[], by simp [attemptStatement, hctx], rfl⟩
      | some ctx =>
          exact ⟨[.redisFree 0], by simp [attemptStatement, hctx, SlotView.emit], rfl⟩
  | unlock result => exact ⟨[.unlock], by simp [attemptStatement, SlotView.emit], rfl⟩

/-- A statement of a pass is made inside the section, and unlocks exactly if it is the last. -/
theorem reconnect_statement_locks (frame : ReconnectFrame) (point : ReconnectPoint) :
    ∃ calls, CallsBetween world (reconnectStatement frame slot world point).2 slot calls ∧
      runFrom lockStep true calls =
        some (reconnectStatement frame slot world point).1.isRight := by
  unfold CallsBetween
  cases point with
  | test | retest =>
      simp only [reconnectStatement]
      split <;> exact ⟨[], (List.append_nil _).symm, rfl⟩
  | ping =>
      have hsent := world.view_redis_command slot (world.conn slot).ctx .ping frame.outcome.ping
      refine ⟨[.command (anonymousCtx (world.conn slot).ctx) .ping frame.outcome.ping], ?_⟩
      simp only [reconnectStatement]
      split <;> exact ⟨congrArg SlotView.calls hsent, rfl⟩
  | freePing reply | freeAuth _ reply =>
      cases reply with
      | none => exact ⟨[], (List.append_nil _).symm, rfl⟩
      | some reply =>
          exact ⟨[.freeReplyObject 0], by simp [reconnectStatement, SlotView.emit], rfl⟩
  | lostStatus | lostCtx | storeStatus | storeCtx =>
      exact ⟨[], by simp [reconnectStatement], rfl⟩
  | lostFree =>
      cases hctx : (world.conn slot).ctx with
      | none => exact ⟨[], by simp [reconnectStatement, hctx], rfl⟩
      | some ctx =>
          exact ⟨[.redisFree 0], by simp [reconnectStatement, hctx, SlotView.emit], rfl⟩
  | connect =>
      have hconnected := world.view_redis_connect slot frame.endpoint frame.outcome.dial.connect
      refine ⟨[.connect frame.endpoint
        (if frame.outcome.dial.connect = .null then none else some 0)], ?_⟩
      simp only [reconnectStatement]
      split <;> exact ⟨congrArg SlotView.calls hconnected, rfl⟩
  | freeConnect ctx =>
      cases ctx with
      | none => exact ⟨[], (List.append_nil _).symm, rfl⟩
      | some ctx => exact ⟨[.redisFree 0], by simp [reconnectStatement, SlotView.emit], rfl⟩
  | auth ctx pass =>
      have hsent := world.view_redis_command slot ctx (.auth pass) frame.outcome.dial.auth
      refine ⟨[.command (anonymousCtx ctx) (.auth pass) frame.outcome.dial.auth], ?_⟩
      simp only [reconnectStatement]
      split <;> exact ⟨congrArg SlotView.calls hsent, rfl⟩
  | unlock => exact ⟨[.unlock], by simp [reconnectStatement, SlotView.emit], rfl⟩

/-- A statement is made inside the section, and unlocks exactly if it is the last. -/
theorem statement_locks (point : Point) :
    ∃ calls, CallsBetween world (point.statement slot world).2 slot calls ∧
      runFrom lockStep true calls = some (point.statement slot world).1.isRight := by
  cases point with
  | attempt frame point =>
      obtain ⟨calls, hcalls, hlocks⟩ := attempt_statement_locks slot world frame point
      refine ⟨calls, hcalls, hlocks.trans ?_⟩
      simp [Point.statement]
  | reconnect frame point =>
      obtain ⟨calls, hcalls, hlocks⟩ := reconnect_statement_locks slot world frame point
      refine ⟨calls, hcalls, hlocks.trans ?_⟩
      simp [Point.statement]

end Locks

/-! ## Contexts -/

/-- If a context of the slot is open whenever the slot has one, the calls in between are made on
open contexts, and this holds again. -/
def KeepsContexts (before after : World) (slot : Slot) : Prop :=
  ∀ opened, ((before.conn slot).ctx ≠ none → 0 < opened) →
    ∃ calls final, CallsBetween before after slot calls ∧
      runFrom contextStep opened calls = some final ∧ ((after.conn slot).ctx ≠ none → 0 < final)

section Contexts

variable {first second third world : World} {slot other : Slot}

/-- Doing nothing keeps the account of the contexts. -/
theorem keeps_contexts_refl (world : World) (slot : Slot) : KeepsContexts world world slot :=
  fun opened hopened => ⟨[], opened, calls_between_refl world slot, rfl, hopened⟩

/-- Where the view of a slot stays, no call was made for it. -/
theorem calls_between_of_view {slot : Slot} (h : second.view slot = first.view slot) :
    CallsBetween first second slot [] := by
  unfold CallsBetween
  rw [h, List.append_nil]

/-- The account of the contexts is kept from stretch to stretch. -/
theorem KeepsContexts.trans (h : KeepsContexts first second slot)
    (hmore : KeepsContexts second third slot) : KeepsContexts first third slot := by
  intro opened hopened
  obtain ⟨calls, middle, hcalls, hrun, hmiddle⟩ := h opened hopened
  obtain ⟨more, final, hmore, hrun', hfinal⟩ := hmore middle hmiddle
  refine ⟨calls ++ more, final, hcalls.trans hmore, ?_, hfinal⟩
  rw [run_from_append, hrun]
  exact hrun'

/-- What leaves the view of the slot alone keeps its contexts. -/
theorem keeps_contexts_of_view (h : second.view slot = first.view slot) :
    KeepsContexts first second slot := by
  intro opened hopened
  refine ⟨[], opened, calls_between_of_view h, rfl, fun hctx => hopened fun hnone => hctx ?_⟩
  have hsame := view_eq_ctx h
  rw [hnone] at hsame
  exact Option.map_eq_none_iff.mp hsame

/-- Locks are no matter of contexts. -/
theorem keeps_contexts_lock (world : World) (slot : Slot) :
    KeepsContexts world (world.lock slot) slot := fun opened hopened =>
  ⟨[.lock], opened, by simp [CallsBetween, SlotView.emit], rfl, hopened⟩

/-- Releasing the lock keeps the account of the contexts. -/
theorem keeps_contexts_unlock (world : World) (slot : Slot) :
    KeepsContexts world (world.unlock slot) slot := fun opened hopened =>
  ⟨[.unlock], opened, by simp [CallsBetween, SlotView.emit], rfl, hopened⟩

/-- A command on the context of the slot. -/
theorem keeps_contexts_command {ctx : Ctx} (request : Request) (answer : Answer)
    (hctx : (world.conn slot).ctx = some ctx) :
    KeepsContexts world (world.redisCommand slot (world.conn slot).ctx request answer).2 slot := by
  intro opened hopened
  have hpos : 0 < opened := hopened (by simp [hctx])
  refine ⟨[.command (some 0) request answer], opened, ?_, ?_, fun _ => hpos⟩
  · simp [CallsBetween, SlotView.emit, hctx]
  · simp [runFrom, contextStep, hpos]

/-- `freeReplyObject` keeps the account of the contexts. -/
theorem keeps_contexts_free_reply (world : World) (slot : Slot) (reply : Option Reply) :
    KeepsContexts world (world.freeReply slot reply) slot := by
  intro opened hopened
  cases reply with
  | none => exact keeps_contexts_refl world slot opened hopened
  | some reply =>
      exact ⟨[.freeReplyObject 0], opened, by simp [CallsBetween, SlotView.emit], rfl,
        by simpa using hopened⟩

/-- The slot gives up its context. -/
theorem keeps_contexts_reset (world : World) (slot : Slot) :
    KeepsContexts world
      ((world.redisFree slot (world.conn slot).ctx).write slot ⟨.invalid, none⟩) slot := by
  intro opened hopened
  cases hctx : (world.conn slot).ctx with
  | none => exact ⟨[], opened, by simp [CallsBetween], rfl, by simp⟩
  | some ctx =>
      have hpos : 0 < opened := hopened (by simp [hctx])
      exact ⟨[.redisFree 0], opened - 1, by simp [CallsBetween, SlotView.emit],
        by simp [runFrom, contextStep, hpos], by simp⟩

/-- A turn of a command at a slot whose context is there when it is `VALID`. -/
theorem keeps_contexts_attempt (kind : ReturnKind) (request : Request) (answer : Answer)
    (hvalid : (world.conn slot).status = .valid → ∃ ctx, (world.conn slot).ctx = some ctx) :
    KeepsContexts world (attempt kind request world slot answer).2 slot := by
  have hlock := keeps_contexts_lock world slot
  cases hstatus : (world.conn slot).status with
  | invalid =>
      rw [attempt_invalid hstatus]
      exact hlock.trans (keeps_contexts_unlock _ slot)
  | valid =>
      obtain ⟨ctx, hctx⟩ := hvalid hstatus
      have hlocked : ((world.lock slot).conn slot).ctx = some ctx := hctx
      have hsent := hlock.trans (keeps_contexts_command request answer hlocked)
      simp only [attempt, World.lock_conn, hstatus] at hsent ⊢
      split
      · cases kind with
        | code =>
            exact (hsent.trans (keeps_contexts_free_reply _ slot _)).trans
              (keeps_contexts_unlock _ slot)
        | reply => exact hsent.trans (keeps_contexts_unlock _ slot)
      · exact ((hsent.trans (keeps_contexts_free_reply _ slot _)).trans
          (keeps_contexts_reset _ slot)).trans (keeps_contexts_unlock _ slot)

/-- A PING keeps the account of the contexts, where a valid slot has one. -/
theorem keeps_contexts_ping (answer : Answer)
    (hvalid : (world.conn slot).status = .valid → ∃ ctx, (world.conn slot).ctx = some ctx) :
    KeepsContexts world (pingSlot world slot answer) slot := by
  cases hstatus : (world.conn slot).status with
  | invalid =>
      rw [ping_slot_invalid hstatus]
      exact keeps_contexts_refl world slot
  | valid =>
      obtain ⟨ctx, hctx⟩ := hvalid hstatus
      have hsent := keeps_contexts_command .ping answer hctx
      cases hreply : answer.reply with
      | none =>
          rw [ping_slot_lost hstatus hreply]
          simp only [World.redisCommand, hreply] at hsent
          exact hsent.trans (keeps_contexts_reset _ slot)
      | some type =>
          have hfreed := hsent.trans (keeps_contexts_free_reply _ slot
            (world.redisCommand slot (world.conn slot).ctx .ping answer).1)
          simpa only [pingSlot, hstatus, World.redisCommand, hreply] using hfreed

/-- A dial opens a context of its own, whatever the slot held. -/
theorem keeps_contexts_dial (world : World) (slot : Slot) (endpoint : Endpoint) (outcome : Dial)
    (status : Status) :
    KeepsContexts world (dial world slot endpoint outcome status).2 slot := by
  intro opened hopened
  cases hconnect : outcome.connect with
  | null =>
      have hctx : (dial world slot endpoint outcome status).2.conn = world.conn :=
        (dial_failed world slot endpoint status (by simp [hconnect])).2
      refine ⟨[.connect endpoint none], opened, ?_, rfl, by rwa [hctx]⟩
      simp [CallsBetween, dial, hconnect, World.redisConnect, World.redisFree, SlotView.emit,
        ExternalCall.anonymous]
  | err =>
      have hctx : (dial world slot endpoint outcome status).2.conn = world.conn :=
        (dial_failed world slot endpoint status (by simp [hconnect])).2
      -- a context with `err` set is freed and never stored
      refine ⟨[.connect endpoint (some 0), .redisFree 0], opened, ?_, ?_, by rwa [hctx]⟩
      · have hview := world.view_redis_connect slot endpoint .err
        simp [CallsBetween, dial, hconnect, SlotView.emit]
      · simp [runFrom, contextStep]
  | connected =>
      cases hpass : endpoint.pass with
      | none =>
          refine ⟨[.connect endpoint (some 0)], opened + 1, ?_, rfl, fun _ => Nat.succ_pos _⟩
          simp [CallsBetween, dial, hconnect, hpass, SlotView.emit]
      | some pass =>
          cases haccepted : outcome.auth.accepted with
          | true =>
              refine ⟨[.connect endpoint (some 0), .command (some 0) (.auth pass) outcome.auth],
                opened + 1, ?_, by simp [runFrom, contextStep], fun _ => Nat.succ_pos _⟩
              simp [CallsBetween, dial, hconnect, hpass, haccepted, SlotView.emit]
          -- after a refused password the slot has the context all the same
          | false =>
              cases hreply : outcome.auth.reply with
              | none =>
                  refine ⟨[.connect endpoint (some 0),
                    .command (some 0) (.auth pass) outcome.auth], opened + 1, ?_,
                    by simp [runFrom, contextStep], fun _ => Nat.succ_pos _⟩
                  simp [CallsBetween, dial, hconnect, hpass, haccepted, hreply, SlotView.emit]
              | some type =>
                  refine ⟨[.connect endpoint (some 0),
                    .command (some 0) (.auth pass) outcome.auth, .freeReplyObject 0], opened + 1,
                    ?_, by simp [runFrom, contextStep], fun _ => Nat.succ_pos _⟩
                  simp [CallsBetween, dial, hconnect, hpass, haccepted, hreply, SlotView.emit]

/-- A turn of a pass at such a slot. -/
theorem keeps_contexts_reconnect (endpoint : Endpoint) (outcome : Reconnect) (status : Status)
    (hvalid : (world.conn slot).status = .valid → ∃ ctx, (world.conn slot).ctx = some ctx) :
    KeepsContexts world (reconnectSlot world slot endpoint outcome status).2 slot := by
  have hlocked : ((world.lock slot).conn slot).status = .valid →
      ∃ ctx, ((world.lock slot).conn slot).ctx = some ctx := hvalid
  have hping := (keeps_contexts_lock world slot).trans (keeps_contexts_ping outcome.ping hlocked)
  by_cases halive : Alive world slot outcome.ping
  · rw [reconnect_slot_alive halive]
    exact hping.trans (keeps_contexts_unlock _ slot)
  · rw [reconnect_slot_dial halive]
    exact (hping.trans (keeps_contexts_dial _ slot endpoint outcome.dial status)).trans
      (keeps_contexts_unlock _ slot)

variable (dynoc : Dynoc) (world : World) (hother : other ≠ slot)
include dynoc hother

/-- A turn at another slot does not change the view. -/
theorem attempt_view_other (command : Command) (answer : Answer) :
    (attempt command.kind command.request world slot answer).2.view other = world.view other := by
  have hrun := attempt_statements dynoc slot world ⟨command, .start, answer⟩
  have hframe := (sectionsLocal dynoc).run_other
    (.attempt ⟨command, .start, answer⟩ .test) (world.lock slot) hother
  rw [hrun] at hframe
  exact hframe.trans (world.view_emit_other hother .lock)

/-- A turn of a pass does not show at another slot. -/
theorem reconnect_view_other (endpoint : Endpoint) (outcome : Reconnect) (status : Status) :
    (reconnectSlot world slot endpoint outcome status).2.view other = world.view other := by
  have hrun := reconnect_statements dynoc slot world ⟨endpoint, [], status, outcome⟩
  have hframe := (sectionsLocal dynoc).run_other
    (.reconnect ⟨endpoint, [], status, outcome⟩ .test) (world.lock slot) hother
  rw [hrun] at hframe
  exact hframe.trans (world.view_emit_other hother .lock)

end Contexts

/-! ## The whole run -/

/-- From the first state of the connections to every later one that moves reach. -/
theorem reachable_keeps_contexts {dynoc : Dynoc} {world : World}
    (hlaunch : LaunchedInRoom dynoc world) {system : System}
    (hreach : Reachable (systemStep dynoc) (.start world) system) {slot : Slot}
    (hslot : dynoc.IsSlot slot) : KeepsContexts world system.world slot := by
  have hinvariant : SafeSystem dynoc system ∧ KeepsContexts world system.world slot := by
    refine hreach.invariant (P := fun system => SafeSystem dynoc system ∧
      KeepsContexts world system.world slot)
      ⟨hlaunch.safe_system, keeps_contexts_refl world slot⟩ ?_
    rintro before move after ⟨hsafe, hkeeps⟩ hstep
    refine ⟨hsafe.step hlaunch.started_in_room hstep, hkeeps.trans ?_⟩
    rcases system_step_cases hstep with ⟨hworld, -, -⟩ |
      ⟨thread, answer, command, cursor, found, next, -, hselect, hworld, -⟩ |
      ⟨pass, outcome, found, endpoint, targets, status, -, hpass, hworld, -⟩
    · rw [hworld]
      exact keeps_contexts_refl _ slot
    · rw [hworld]
      by_cases hfound : slot = found
      · subst hfound
        exact keeps_contexts_attempt _ _ _ fun hvalid => hsafe.world.ctx_of_valid hslot hvalid
      · exact keeps_contexts_of_view (attempt_view_other dynoc _ hfound command answer)
    · rw [hworld]
      by_cases hfound : slot = found
      · subst hfound
        exact keeps_contexts_reconnect _ _ _ fun hvalid =>
          hsafe.world.ctx_of_valid hslot hvalid
      · exact keeps_contexts_of_view
          (reconnect_view_other dynoc _ hfound endpoint outcome status)
  exact hinvariant.2

/-! ## The thread that has the lock -/

/-- Calls that one thread makes, the first of them on a lock that is free or its own. -/
theorem holder_run (thread : Nat) {calls : List ExternalCall} {locked locked' : Bool}
    (h : runFrom lockStep locked calls = some locked') :
    runFrom holderStep (if locked then some thread else none)
        (calls.map fun call => (thread, call)) =
      some (if locked' then some thread else none) := by
  induction calls generalizing locked with
  | nil =>
      cases h
      rfl
  | cons call rest ih =>
      obtain ⟨next, hstep, hrest⟩ := run_from_cons.mp h
      refine run_from_cons.mpr ⟨_, ?_, ih hrest⟩
      cases locked <;> cases call <;> cases hstep <;> simp [holderStep]

/-- Without the names of the threads. -/
theorem holder_run_locks {made : List (Nat × ExternalCall)} {holder holder' : Option Nat}
    (h : runFrom holderStep holder made = some holder') :
    runFrom lockStep holder.isSome (made.map Prod.snd) = some holder'.isSome := by
  induction made generalizing holder with
  | nil =>
      cases h
      rfl
  | cons call rest ih =>
      obtain ⟨next, hstep, hrest⟩ := run_from_cons.mp h
      refine run_from_cons.mpr ⟨next.isSome, ?_, ih hrest⟩
      obtain ⟨thread, call⟩ := call
      cases holder with
      | none =>
          cases call <;> cases hstep
          rfl
      | some holder =>
          simp only [holderStep] at hstep
          split at hstep
          · cases call <;> cases hstep <;> rfl
          · cases hstep

/-- The calls at the slot that a step makes, each with its thread. -/
def stepCalls (slot : Slot) (before after : World) (step : InterleavedMove Met Kind) :
    List (Nat × ExternalCall) :=
  match step.thread with
  | none => []
  | some thread =>
      ((after.view slot).calls.drop (before.view slot).calls.length).map fun call =>
        (thread, call)

/-- The calls at the slot that a run makes, each with its thread. -/
def callsMade (dynoc : Dynoc) (slot : Slot) :
    Interleaved World Slot Thread Point → List (InterleavedMove Met Kind) →
      List (Nat × ExternalCall)
  | _, [] => []
  | state, step :: rest =>
      match (sections dynoc).interleavedStep state step with
      | none => []
      | some next =>
          stepCalls slot state.memory next.memory step ++ callsMade dynoc slot next rest

/-- The calls of a step are those of its thread. -/
theorem step_calls_eq {slot : Slot} {before after : World} {step : InterleavedMove Met Kind}
    {thread : Nat} {calls : List ExternalCall} (hthread : step.thread = some thread)
    (h : CallsBetween before after slot calls) :
    stepCalls slot before after step = calls.map fun call => (thread, call) := by
  unfold CallsBetween at h
  simp only [stepCalls, hthread, h, List.drop_left]

/-- If the holder has the lock of the slot before, these calls, which are all that are made there,
are made by the thread that has it, and who has it afterwards is inside. -/
def KeepsHolder (slot : Slot) (holder : Option Nat)
    (before after : Interleaved World Slot Thread Point) (made : List (Nat × ExternalCall)) :
    Prop :=
  CallsBetween before.memory after.memory slot (made.map Prod.snd) ∧
    ∃ holder', runFrom holderStep holder made = some holder' ∧ HeldBy after.places slot holder'

section KeepsHolder

variable {slot : Slot} {holder : Option Nat}
  {before after : Interleaved World Slot Thread Point} {step : InterleavedMove Met Kind}

/-- A thread makes calls at the slot, and its lock goes through them. -/
theorem keeps_holder_calls {thread : Nat} {calls : List ExternalCall} {locked locked' : Bool}
    (hthread : step.thread = some thread)
    (hcalls : CallsBetween before.memory after.memory slot calls)
    (hlocks : runFrom lockStep locked calls = some locked')
    (hholder : holder = if locked then some thread else none)
    (hafter : HeldBy after.places slot (if locked' then some thread else none)) :
    KeepsHolder slot holder before after (stepCalls slot before.memory after.memory step) := by
  unfold KeepsHolder
  rw [step_calls_eq hthread hcalls, hholder, List.map_map]
  exact ⟨by simpa [Function.comp_def] using hcalls, _, holder_run thread hlocks, hafter⟩

/-- The step makes no call at the slot. -/
theorem keeps_holder_nothing
    (hsame : (after.memory.view slot).calls = (before.memory.view slot).calls)
    (hafter : HeldBy after.places slot holder) :
    KeepsHolder slot holder before after (stepCalls slot before.memory after.memory step) := by
  have hempty : stepCalls slot before.memory after.memory step = [] := by
    unfold stepCalls
    cases step.thread <;> simp [hsame]
  rw [hempty]
  exact ⟨hsame.trans (List.append_nil _).symm, holder, rfl, hafter⟩

end KeepsHolder

/-- The calls of a step are made by the thread that has the lock. -/
theorem interleaved_step_holder {dynoc : Dynoc} {state next : Interleaved World Slot Thread Point}
    {step : InterleavedMove Met Kind}
    (hstep : (sections dynoc).interleavedStep state step = some next)
    (hexclusive : state.Exclusive) {slot : Slot} {holder : Option Nat}
    (hheld : HeldBy state.places slot holder) :
    KeepsHolder slot holder state next
      (stepCalls slot state.memory next.memory step) := by
  rcases Sections.interleaved_step_cases hstep with ⟨kind, thread, -, -, rfl⟩ |
    ⟨i, met, thread, after, -, hplace, -, rfl⟩ |
    ⟨i, met, thread, found, point, rfl, hplace, -, hfree, rfl⟩ |
    ⟨i, found, point, after, memory, rfl, hplace, hstatement, rfl⟩ |
    ⟨i, found, point, thread, memory, rfl, hplace, hstatement, rfl⟩
  · exact keeps_holder_nothing rfl (hheld.spawn thread)
  · exact keeps_holder_nothing rfl (hheld.move hplace (by simp) (by simp))
  all_goals by_cases hfound : slot = found
  -- a thread takes the lock
  · subst hfound
    have hnobody : holder = none := by
      rw [hexclusive.locked_eq hheld] at hfree
      simpa using hfree
    have hcalls : CallsBetween state.memory (state.memory.lock slot) slot [.lock] := by
      simp [CallsBetween, SlotView.emit]
    have hlocks : runFrom lockStep false [.lock] = some true := rfl
    exact keeps_holder_calls rfl hcalls hlocks hnobody (hheld.take hplace hnobody)
  · refine keeps_holder_nothing ?_ (hheld.move hplace (by simp) ?_)
    · exact congrArg SlotView.calls ((sectionsLocal dynoc).acquire_other hfound)
    · intro other heq
      exact hfound (Place.inside.inj heq).1.symm
  -- a thread inside goes on
  · subst hfound
    obtain ⟨calls, hcalls, hlocks⟩ := statement_locks slot state.memory point
    have heq : point.statement slot state.memory = (.inr after, memory) := hstatement
    rw [heq] at hcalls hlocks
    have hinside : holder = some i := (hheld i).mpr ⟨point, hplace⟩
    exact keeps_holder_calls rfl hcalls hlocks hinside (hinside ▸ hheld.go hplace)
  · refine keeps_holder_nothing ?_ (hheld.move hplace ?_ ?_)
    · exact congrArg SlotView.calls ((sectionsLocal dynoc).statement_frame hstatement slot hfound)
    all_goals
      intro other heq
      exact hfound (Place.inside.inj heq).1.symm
  -- and leaves
  · subst hfound
    obtain ⟨calls, hcalls, hlocks⟩ := statement_locks slot state.memory point
    have heq : point.statement slot state.memory = (.inl thread, memory) := hstatement
    rw [heq] at hcalls hlocks
    have hinside : holder = some i := (hheld i).mpr ⟨point, hplace⟩
    exact keeps_holder_calls rfl hcalls hlocks hinside (hheld.give hplace)
  · refine keeps_holder_nothing ?_ (hheld.move hplace ?_ (by simp))
    · exact congrArg SlotView.calls ((sectionsLocal dynoc).statement_frame hstatement slot hfound)
    · intro other heq
      exact hfound (Place.inside.inj heq).1.symm

/-- So are the calls of a whole run. -/
theorem interleaved_run_holder {dynoc : Dynoc} {state final : Interleaved World Slot Thread Point}
    {steps : List (InterleavedMove Met Kind)}
    (hrun : runFrom (sections dynoc).interleavedStep state steps = some final)
    (hexclusive : state.Exclusive) {slot : Slot} {holder : Option Nat}
    (hheld : HeldBy state.places slot holder) :
    KeepsHolder slot holder state final (callsMade dynoc slot state steps) := by
  induction steps generalizing state holder with
  | nil =>
      cases hrun
      exact ⟨calls_between_refl _ slot, holder, rfl, hheld⟩
  | cons step rest ih =>
      obtain ⟨next, hstep, hrest⟩ := run_from_cons.mp hrun
      obtain ⟨hcalls, middle, hfirst, hnext⟩ := interleaved_step_holder hstep hexclusive hheld
      obtain ⟨hmore, holder', hlater, hfinal⟩ := ih hrest (hexclusive.step hstep) hnext
      simp only [callsMade, hstep]
      refine ⟨?_, holder', ?_, hfinal⟩
      · rw [List.map_append]
        exact hcalls.trans hmore
      · rw [run_from_append, hfirst]
        exact hlater

/-- The calls that statements make at a slot lock and unlock it in turn. -/
theorem interleaved_run_locks {dynoc : Dynoc} {state final : Interleaved World Slot Thread Point}
    {steps : List (InterleavedMove Met Kind)}
    (hrun : runFrom (sections dynoc).interleavedStep state steps = some final)
    (hexclusive : state.Exclusive) (slot : Slot) :
    ∃ calls, CallsBetween state.memory final.memory slot calls ∧
      runFrom lockStep (state.locked slot) calls = some (final.locked slot) := by
  obtain ⟨holder, hheld⟩ := hexclusive.exists_held slot
  obtain ⟨hcalls, holder', hmade, hfinal⟩ := interleaved_run_holder hrun hexclusive hheld
  refine ⟨_, hcalls, ?_⟩
  rw [hexclusive.locked_eq hheld, (hexclusive.run hrun).locked_eq hfinal]
  exact holder_run_locks hmade

/-- Take the calls that any interleaving of statements makes at a slot, each with its thread.
Whoever locks the slot makes all calls there up to its unlock, and the lock is taken exactly while
such an unlock is due; the thread that owes it is the only one inside. No thread is stuck behind a
lock for good: those that are inside can make their statements to the end, without help from
others, and then the calls at every slot end with an unlock. -/
theorem sections_exclusive (dynoc : Dynoc) (world : World)
    {steps : List (InterleavedMove Met Kind)} {state : Interleaved World Slot Thread Point}
    (hrun : runFrom (sections dynoc).interleavedStep (.start world) steps = some state) :
    (∀ slot,
      CallsBetween world state.memory slot
        ((callsMade dynoc slot (.start world) steps).map Prod.snd) ∧
      ∃ holder, runFrom holderStep none (callsMade dynoc slot (.start world) steps) =
          some holder ∧
        (∀ i, holder = some i ↔ ∃ point, state.places[i]? = some (.inside slot point)) ∧
        state.locked slot = holder.isSome) ∧
    ∃ rest final,
      runFrom (sections dynoc).interleavedStep state rest = some final ∧
      rest.flatMap InterleavedMove.moves = [] ∧ final.Quiet ∧
      ∀ slot, runFrom holderStep none (callsMade dynoc slot (.start world) (steps ++ rest)) =
        some none := by
  have hstart : (Interleaved.start world : Interleaved World Slot Thread Point).Exclusive :=
    exclusive_start world
  have hexclusive := hstart.run hrun
  refine ⟨fun slot => ?_, ?_⟩
  · obtain ⟨hcalls, holder, hmade, hheld⟩ :=
      interleaved_run_holder hrun hstart (held_by_nil slot)
    exact ⟨hcalls, holder, hmade, hheld, hexclusive.locked_eq hheld⟩
  -- the threads that are inside leave one after the other, and nobody enters
  · obtain ⟨rest, final, hrest, hquiet, hmoves⟩ := quiet_after (S := sections dynoc) state
    refine ⟨rest, final, hrest, hmoves, hquiet, fun slot => ?_⟩
    have hwhole : runFrom (sections dynoc).interleavedStep (.start world) (steps ++ rest) =
        some final := by
      rw [run_from_append, hrun]
      exact hrest
    obtain ⟨-, holder, hmade, hheld⟩ := interleaved_run_holder hwhole hstart (held_by_nil slot)
    have hfree := (hexclusive.run hrest).free_of_quiet hquiet slot
    rw [(hexclusive.run hrest).locked_eq hheld] at hfree
    obtain rfl : holder = none := by simpa using hfree
    exact hmade

/-- The pass is inside at the first slot, and the command has left the second. -/
theorem crossed_exclusive :
    runFrom holderStep none
        (callsMade pairClient.1 ⟨.localDc, 0, 0⟩ (.start pairClient.2) crossedSteps) =
      some (some 0) ∧
    runFrom holderStep none
        (callsMade pairClient.1 ⟨.localDc, 0, 1⟩ (.start pairClient.2) crossedSteps) =
      some none ∧
    ∃ rest final, runFrom (sections pairClient.1).interleavedStep crossed rest = some final ∧
      rest.flatMap InterleavedMove.moves = [] ∧ final.Quiet ∧
      ∀ slot, runFrom holderStep none
        (callsMade pairClient.1 slot (.start pairClient.2) (crossedSteps ++ rest)) = some none :=
  ⟨by decide +kernel, by decide +kernel,
    (sections_exclusive pairClient.1 pairClient.2 (Option.some_get _).symm).2⟩

/-! ## Locks and contexts together -/

/-- What the calls at a slot from `dynoc_start` on look like: the slot is locked and unlocked in
turn and all other calls are made in between, and a command or a `redisFree` gets a context, while
one that was opened for the slot is open. -/
def Disciplined (start : World) (state : Interleaved World Slot Thread Point) (slot : Slot) :
    Prop :=
  ∃ calls opened, CallsBetween start state.memory slot calls ∧
    runFrom lockStep false calls = some (state.locked slot) ∧
    runFrom contextStep (if (start.conn slot).ctx = none then 0 else 1) calls = some opened

/-- In every state that the statements of commands and passes reach after `dynoc_start`, in any
order and whatever they meet, the calls at every slot are in order. -/
theorem calls_disciplined {dynoc : Dynoc} {world : World} (hlaunch : LaunchedInRoom dynoc world)
    {steps : List (InterleavedMove Met Kind)} {state : Interleaved World Slot Thread Point}
    (hrun : runFrom (sections dynoc).interleavedStep (.start world) steps = some state)
    {slot : Slot} (hslot : dynoc.IsSlot slot) : Disciplined world state slot := by
  have hexclusive := (exclusive_start world).run hrun
  obtain ⟨calls, hcalls, hlocks⟩ := interleaved_run_locks hrun (exclusive_start world) slot
  -- the threads inside leave, and the state reached is one of whole moves
  obtain ⟨rest, final, hrest, hquiet, -⟩ := quiet_after (S := sections dynoc) state
  obtain ⟨more, hmore, -⟩ := interleaved_run_locks hrest hexclusive slot
  have hwhole : runFrom (sections dynoc).interleavedStep (.start world) (steps ++ rest) =
      some final := by
    rw [run_from_append, hrun]
    exact hrest
  obtain ⟨atomic, hatomic, hrefines⟩ := (refines_start (sectionsLocal dynoc) world).run hwhole
  obtain ⟨moves, hmoves⟩ := atomic_run_moves hatomic
  have hview : (atomic.memory.view slot).calls = (final.memory.view slot).calls :=
    congrArg SlotView.calls (hrefines.free ((hexclusive.run hrest).free_of_quiet hquiet slot))
  -- the calls so far are the first of those that the moves make
  obtain ⟨made, opened, hmade, hcontexts, -⟩ := reachable_keeps_contexts hlaunch ⟨moves, hmoves⟩
    hslot (if (world.conn slot).ctx = none then 0 else 1) (by intro h; simp [h])
  have hsame : made = calls ++ more := by
    have hboth := hcalls.trans hmore
    unfold CallsBetween at hboth hmade
    exact List.append_cancel_left (hmade.symm.trans (hview.trans hboth))
  rw [hsame, run_from_append] at hcontexts
  obtain ⟨reached, hreached, -⟩ := Option.bind_eq_some_iff.mp hcontexts
  exact ⟨calls, reached, hcalls, hlocks, hreached⟩

/-- The crossed sections make their calls at the first slot in good order. -/
theorem crossed_disciplined : Disciplined pairClient.2 crossed ⟨.localDc, 0, 0⟩ := by
  have hlaunch : LaunchedInRoom pairClient.1 pairClient.2 :=
    boot_in_room (Option.some_get _).symm (by decide +kernel)
  exact calls_disciplined hlaunch (Option.some_get _).symm (by decide +kernel)

end DynocClient
