import DynocClient.System.Interleaving
import DynocClient.System.Usable

/-!
# Every interleaving of statements is one of whole moves

The locks of the slots make the critical sections atomic: a state that the statements of commands
and passes reach in any order is, at the slots nobody has locked, the state that whole moves reach
(`statements_refine_moves`).
-/

namespace DynocClient

open Lib

/-! ## The threads in two lists -/

/-- The command that a thread is. -/
def Thread.asCommand : Thread → Option CommandThread
  | .command thread => some thread
  | .pass _ => none

/-- The pass that a thread is. -/
def Thread.asPass : Thread → Option Pass
  | .command _ => none
  | .pass running => some running

/-- The state of the commands and passes among these threads. -/
def ofThreads (world : World) (threads : List Thread) : System :=
  { world
    commands := threads.filterMap Thread.asCommand
    passes := threads.filterMap Thread.asPass }

section Lists

variable {α β : Type} {f : α → Option β} {l : List α} {i : Nat} {old new : α}

/-- An item that is kept is found at its place among those kept. -/
theorem filter_map_get {b : β} (hold : l[i]? = some old) (hf : f old = some b) :
    (l.filterMap f)[((l.take i).filterMap f).length]? = some b := by
  induction l generalizing i with
  | nil => simp at hold
  | cons head tail ih =>
      cases i with
      | zero =>
          obtain rfl := Option.some.inj hold
          simp [hf]
      | succ i =>
          have htail := ih (i := i) (by simpa using hold)
          cases hhead : f head <;> simpa [List.filterMap_cons, hhead] using htail

/-- Replacing an item that is kept replaces it among those kept. -/
theorem filter_map_set {b c : β} (hold : l[i]? = some old) (hf : f old = some b)
    (hnew : f new = some c) :
    (l.set i new).filterMap f = (l.filterMap f).set ((l.take i).filterMap f).length c := by
  induction l generalizing i with
  | nil => simp at hold
  | cons head tail ih =>
      cases i with
      | zero =>
          obtain rfl := Option.some.inj hold
          simp [hf, hnew]
      | succ i =>
          have htail := ih (i := i) (by simpa using hold)
          cases hhead : f head <;> simpa [List.filterMap_cons, hhead] using htail

/-- Replacing an item that is not kept leaves those kept. -/
theorem filter_map_set_none (hold : l[i]? = some old) (hf : f old = none) (hnew : f new = none) :
    (l.set i new).filterMap f = l.filterMap f := by
  induction l generalizing i with
  | nil => rfl
  | cons head tail ih =>
      cases i with
      | zero =>
          obtain rfl := Option.some.inj hold
          simp [hf, hnew]
      | succ i =>
          have htail := ih (i := i) (by simpa using hold)
          cases hhead : f head <;> simp [hhead, htail]

end Lists

section Moves

variable {dynoc : Dynoc} {world : World} {threads : List Thread} {i : Nat}

/-- The place of a command in the list of commands. -/
def commandIndex (threads : List Thread) (i : Nat) : Nat :=
  ((threads.take i).filterMap Thread.asCommand).length

/-- The place of a pass in the list of passes. -/
def passIndex (threads : List Thread) (i : Nat) : Nat :=
  ((threads.take i).filterMap Thread.asPass).length

/-- A thread that runs a command is found among the commands. -/
theorem of_threads_command {before : CommandThread}
    (hthread : threads[i]? = some (.command before)) :
    (ofThreads world threads).commands[commandIndex threads i]? = some before :=
  filter_map_get hthread rfl

/-- A command that moves on is the one command that changes. -/
theorem of_threads_set_command {before : CommandThread} (after : CommandThread)
    (hthread : threads[i]? = some (.command before)) :
    ofThreads world (threads.set i (.command after)) =
      { ofThreads world threads with
        commands := (ofThreads world threads).commands.set (commandIndex threads i) after } := by
  have hcommands : (threads.set i (.command after)).filterMap Thread.asCommand =
      (threads.filterMap Thread.asCommand).set (commandIndex threads i) after :=
    filter_map_set hthread rfl rfl
  have hpasses : (threads.set i (.command after)).filterMap Thread.asPass =
      threads.filterMap Thread.asPass := filter_map_set_none hthread rfl rfl
  simp only [ofThreads, hcommands, hpasses]

/-- A thread that runs a pass is found among the passes. -/
theorem of_threads_pass {before : Pass} (hthread : threads[i]? = some (.pass before)) :
    (ofThreads world threads).passes[passIndex threads i]? = some before :=
  filter_map_get hthread rfl

/-- A pass that moves on is the one pass that changes. -/
theorem of_threads_set_pass {before : Pass} (after : Pass)
    (hthread : threads[i]? = some (.pass before)) :
    ofThreads world (threads.set i (.pass after)) =
      { ofThreads world threads with
        passes := (ofThreads world threads).passes.set (passIndex threads i) after } := by
  have hcommands : (threads.set i (.pass after)).filterMap Thread.asCommand =
      threads.filterMap Thread.asCommand := filter_map_set_none hthread rfl rfl
  have hpasses : (threads.set i (.pass after)).filterMap Thread.asPass =
      (threads.filterMap Thread.asPass).set (passIndex threads i) after :=
    filter_map_set hthread rfl rfl
  simp only [ofThreads, hcommands, hpasses]

/-- A command that finds no connection returns. -/
theorem move_none {command : Command} {cursor next : Cursor} (answer : Answer)
    (hthread : threads[i]? = some (.command (.running command cursor)))
    (hselect : selectConnection dynoc command.key cursor = .ok (none, next)) :
    systemStep dynoc (ofThreads world threads) (.attempt (commandIndex threads i) answer) =
      some (ofThreads world
        (threads.set i (.command (.returned command command.kind.failed)))) := by
  simp only [systemStep, of_threads_command hthread, commandTurn, hselect, Option.map_some,
    of_threads_set_command _ hthread]

/-- A command's section is an attempt. -/
theorem move_attempt {command : Command} {cursor next : Cursor} {slot : Slot} (answer : Answer)
    (hthread : threads[i]? = some (.command (.running command cursor)))
    (hselect : selectConnection dynoc command.key cursor = .ok (some slot, next)) :
    systemStep dynoc (ofThreads world threads) (.attempt (commandIndex threads i) answer) =
      some (ofThreads (attempt command.kind command.request world slot answer).2
        (threads.set i (.command (AttemptFrame.outcome ⟨command, next, answer⟩
          (attempt command.kind command.request world slot answer).1)))) := by
  simp only [systemStep, of_threads_command hthread, commandTurn, hselect,
    of_threads_set_command _ hthread]
  have hworld : (ofThreads world threads).world = world := rfl
  rw [hworld]
  rcases attempt command.kind command.request world slot answer with ⟨_ | result, reached⟩
  all_goals rfl

/-- A pass's section is its turn. -/
theorem move_turn {slot : Slot} {endpoint : Endpoint} {targets : List (Slot × Endpoint)}
    {status : Status} (outcome : Reconnect)
    (hthread : threads[i]? = some (.pass ⟨(slot, endpoint) :: targets, status⟩)) :
    systemStep dynoc (ofThreads world threads) (.turn (passIndex threads i) outcome) =
      some (ofThreads (reconnectSlot world slot endpoint outcome status).2 (threads.set i
        (.pass ⟨targets, (reconnectSlot world slot endpoint outcome status).1⟩))) := by
  rw [system_step_turn outcome (of_threads_pass hthread), of_threads_set_pass _ hthread]
  rfl

end Moves

/-- What a thread outside can do next. -/
theorem enter_section_cases {dynoc : Dynoc} {thread : Thread} {met : Met}
    {next : Thread ⊕ Slot × Point} (h : enterSection dynoc thread met = some next) :
    (∃ command : Command, ∃ cursor answer after,
      thread = .command (.running command cursor) ∧ met = .answer answer ∧
      selectConnection dynoc command.key cursor = .ok (none, after) ∧
      next = .inl (.command (.returned command command.kind.failed))) ∨
    (∃ command : Command, ∃ cursor answer slot after,
      thread = .command (.running command cursor) ∧ met = .answer answer ∧
      selectConnection dynoc command.key cursor = .ok (some slot, after) ∧
      next = .inr (slot, .attempt ⟨command, after, answer⟩ .test)) ∨
    (∃ slot endpoint targets status outcome,
      thread = .pass ⟨(slot, endpoint) :: targets, status⟩ ∧ met = .outcome outcome ∧
      next = .inr (slot, .reconnect ⟨endpoint, targets, status, outcome⟩ .test)) := by
  rcases thread with (⟨command, cursor⟩ | ⟨command, result⟩) | ⟨_ | ⟨target, targets⟩, status⟩
  all_goals rcases met with answer | outcome
  all_goals try cases h
  · simp only [enterSection] at h
    split at h
    · cases h
    · rename_i after hselect
      exact .inl ⟨command, cursor, answer, after, rfl, rfl, hselect, (Option.some.inj h).symm⟩
    · rename_i slot after hselect
      exact .inr (.inl ⟨command, cursor, answer, slot, after, rfl, rfl, hselect,
        (Option.some.inj h).symm⟩)
  · exact .inr (.inr ⟨target.1, target.2, targets, status, outcome, rfl, rfl, rfl⟩)

/-- A turn that makes a whole section is a move. -/
theorem atomic_step_move {dynoc : Dynoc} {state next : Atomic World Thread}
    {label : AtomicMove Met Kind} (h : (sections dynoc).atomicStep state label = some next) :
    ∃ move, systemStep dynoc (ofThreads state.memory state.threads) move =
      some (ofThreads next.memory next.threads) := by
  cases label with
  | spawn kind =>
      obtain ⟨thread, hspawn, rfl⟩ := Option.map_eq_some_iff.mp h
      cases kind with
      | command command =>
          obtain rfl := Option.some.inj hspawn
          refine ⟨.call command, ?_⟩
          simp [systemStep, ofThreads, Thread.asCommand, Thread.asPass]
      | pass dcType =>
          obtain ⟨dc, hdc, rfl⟩ := Option.map_eq_some_iff.mp hspawn
          refine ⟨.reconnect dcType, ?_⟩
          simp [systemStep, ofThreads, Thread.asCommand, Thread.asPass, hdc]
  | turn i met =>
      obtain ⟨thread, target, hthread, henter, hnext⟩ := Sections.atomic_step_turn h
      rcases enter_section_cases henter with
        ⟨command, cursor, answer, after, rfl, rfl, hselect, rfl⟩ |
        ⟨command, cursor, answer, slot, after, rfl, rfl, hselect, rfl⟩ |
        ⟨slot, endpoint, targets, status, outcome, rfl, rfl, rfl⟩
      · obtain rfl := hnext
        exact ⟨_, move_none answer hthread hselect⟩
      · refine ⟨_, (move_attempt answer hthread hselect).trans ?_⟩
        -- the statements of the section in one go are the attempt
        have hrun := attempt_statements dynoc slot state.memory ⟨command, after, answer⟩
        have hmemory : (sections dynoc).acquire slot state.memory = state.memory.lock slot := rfl
        simp only [hnext, hmemory, hrun]
      · refine ⟨_, (move_turn outcome hthread).trans ?_⟩
        have hrun := reconnect_statements dynoc slot state.memory
          ⟨endpoint, targets, status, outcome⟩
        have hmemory : (sections dynoc).acquire slot state.memory = state.memory.lock slot := rfl
        simp only [hnext, hmemory, hrun]

/-- Whole sections, one after the other, are moves. -/
theorem atomic_run_moves {dynoc : Dynoc} {state final : Atomic World Thread}
    {labels : List (AtomicMove Met Kind)}
    (hrun : runFrom (sections dynoc).atomicStep state labels = some final) :
    ∃ moves, runFrom (systemStep dynoc) (ofThreads state.memory state.threads) moves =
      some (ofThreads final.memory final.threads) := by
  induction labels generalizing state with
  | nil =>
      cases hrun
      exact ⟨[], rfl⟩
  | cons label rest ih =>
      obtain ⟨next, hstep, hrest⟩ := run_from_cons.mp hrun
      obtain ⟨move, hmove⟩ := atomic_step_move hstep
      obtain ⟨moves, hmoves⟩ := ih hrest
      exact ⟨move :: moves, run_from_cons.mpr ⟨_, hmove, hmoves⟩⟩

/-! ## The running client -/

/-- What a state between two statements stands for: at a slot that is not locked, and in every
thread, once that has left the section it is in, it is this system. -/
structure StandsFor (dynoc : Dynoc) (state : Interleaved World Slot Thread Point)
    (system : System) : Prop where
  slots : ∀ slot, state.locked slot = false → system.world.view slot = state.memory.view slot
  commands : system.commands.map CommandThread.anonymous =
    ((state.places.map ((sections dynoc).leave state.memory)).filterMap Thread.asCommand).map
      CommandThread.anonymous
  passes : system.passes =
    (state.places.map ((sections dynoc).leave state.memory)).filterMap Thread.asPass

/-- The commands without numbers are those of the threads without numbers. -/
theorem as_command_anonymous (threads : List Thread) :
    (threads.filterMap Thread.asCommand).map CommandThread.anonymous =
      (threads.map Thread.anonymous).filterMap Thread.asCommand := by
  rw [List.map_filterMap, List.filterMap_map]
  congr 1
  funext thread
  cases thread <;> rfl

/-- A pass has no numbers to lose. -/
theorem as_pass_anonymous (threads : List Thread) :
    threads.filterMap Thread.asPass = (threads.map Thread.anonymous).filterMap Thread.asPass := by
  rw [List.filterMap_map]
  congr 1
  funext thread
  cases thread <;> rfl

/-- A state that refines a state of whole sections stands for a system. -/
theorem stands_for_of_refines {dynoc : Dynoc} {state : Interleaved World Slot Thread Point}
    {atomic : Atomic World Thread} (h : Refines (sectionsLocal dynoc) state atomic) :
    StandsFor dynoc state (ofThreads atomic.memory atomic.threads) := by
  have hthreads : atomic.threads.map Thread.anonymous =
      (state.places.map ((sections dynoc).leave state.memory)).map Thread.anonymous :=
    h.threads
  constructor
  · exact fun slot hfree => h.free hfree
  -- the replies have other numbers in the other run, so commands agree up to these
  · show (atomic.threads.filterMap Thread.asCommand).map _ = _
    rw [as_command_anonymous, as_command_anonymous, hthreads]
  · show atomic.threads.filterMap Thread.asPass = _
    rw [as_pass_anonymous, hthreads, ← as_pass_anonymous]

/-- Take any run in which the statements of commands and passes interleave, whatever they meet. The
state it reaches stands for one that a run of whole moves reaches: at every slot that is not
locked the status, the presence of a context and the calls made so far are the same, and so is
every thread that is not inside a section. -/
theorem statements_refine_moves (dynoc : Dynoc) (world : World)
    {steps : List (InterleavedMove Met Kind)} {state : Interleaved World Slot Thread Point}
    (hrun : runFrom (sections dynoc).interleavedStep (.start world) steps = some state) :
    ∃ moves system, runFrom (systemStep dynoc) (.start world) moves = some system ∧
      StandsFor dynoc state system := by
  obtain ⟨atomic, hatomic, hrefines⟩ := (refines_start (sectionsLocal dynoc) world).run hrun
  obtain ⟨moves, hmoves⟩ := atomic_run_moves hatomic
  exact ⟨moves, _, hmoves, stands_for_of_refines hrefines⟩

/-- One rack with two nodes. -/
def pairScript : List SetupCall :=
  [.datacenterInit true 1 (.ofAscii "local_dc") .localDc,
    .rackInit 2 (.ofAscii "rack1") .localDc, .addNode lockedNode (.ofAscii "rack1") .localDc,
    .addNode openNode (.ofAscii "rack1") .localDc]

/-- The client of this script, with both nodes connected. -/
def pairClient : Dynoc × World := (boot (authDials .data) pairScript).get (by decide +kernel)

/-- A pass finds the first connection lost, while a command is at the second. -/
def crossedSteps : List (InterleavedMove Met Kind) :=
  [.spawn (.pass .localDc), .spawn (.command (.incr (.ofAscii "ab"))),
    .enter 0 (.outcome (authReconnects .data ⟨.localDc, 0, 0⟩)), .next 0,
    .enter 1 (.answer { reply := some .data, err := false }), .next 0, .next 1, .next 0, .next 1,
    .next 0, .next 1, .next 1, .next 0, .next 1]

/-- The state after these steps: the pass is about to connect, the command has returned. -/
def crossed : Interleaved World Slot Thread Point :=
  (runFrom (sections pairClient.1).interleavedStep (.start pairClient.2) crossedSteps).get
    (by decide +kernel)

/-- In the crossed sections one slot is locked and one is not, and moves reach a state they
stand for. -/
theorem crossed_refines_moves :
    (crossed.locked ⟨.localDc, 0, 0⟩ = true ∧ crossed.locked ⟨.localDc, 0, 1⟩ = false) ∧
      ∃ moves system, runFrom (systemStep pairClient.1) (.start pairClient.2) moves =
        some system ∧ StandsFor pairClient.1 crossed system :=
  ⟨by decide +kernel,
    statements_refine_moves pairClient.1 pairClient.2 (Option.some_get _).symm⟩

end DynocClient
