import DynocClient.Select.Lookup
import DynocClient.System.Recovery

/-!
# No thread waits for another

In a client whose racks hold nodes a thread that is in its loop can always take its next turn,
whatever the others have done and whatever it meets there. It takes a bounded number of turns of
its own: a command one for each rack on offer to it and one more, a pass one for each slot that is
left (`threads_wait_free`).
-/

namespace DynocClient

open Lib

/-- The cursor of a command in its loop is one that its calls of `select_connection` go through. -/
def CommandThread.OnCourse (dynoc : Dynoc) : CommandThread → Prop
  | .running command cursor => Visited dynoc command.key cursor
  | .returned _ _ => True

/-- The turns that are left to a command if no connection works. -/
def CommandThread.turns (dynoc : Dynoc) : CommandThread → Nat
  | .running _ cursor => (racksOnOffer dynoc cursor).length + 1
  | .returned _ _ => 0

/-- The racks of the local datacenter. -/
def Dynoc.localRackCount (dynoc : Dynoc) : Nat := (dynoc.localDc.map Datacenter.rackCount).getD 0

/-- The move is a turn of this command. -/
def Move.isAttempt (thread : Nat) : Move → Bool
  | .attempt other _ => other = thread
  | _ => false

/-- The move is a turn of this pass. -/
def Move.isTurn (pass : Nat) : Move → Bool
  | .turn other _ => other = pass
  | _ => false

section Turns

variable {dynoc : Dynoc}

/-- The local racks are offered twice at most, and one remote rack in between. -/
theorem turns_le (thread : CommandThread) :
    thread.turns dynoc ≤ 2 * dynoc.localRackCount + 2 := by
  cases thread with
  | returned command result => exact Nat.zero_le _
  | running command cursor =>
      have hlocal : ∀ dc : Datacenter, ∀ i, (localRacks dc i).length = dc.rackCount - i := by
        intro dc i
        rw [localRacks, List.length_map, List.length_range']
      simp only [CommandThread.turns, Dynoc.localRackCount, racksOnOffer]
      cases dynoc.localDc with
      | none => simp
      | some dc =>
          simp only [List.length_append, hlocal, Option.map_some, Option.getD_some]
          cases cursor.dcType <;> cases dynoc.remoteDc <;> simp [hlocal] <;> omega

/-- Where the call of `select_connection` does not fault a command can take its turn. -/
theorem command_turn_total {command : Command} {cursor : Cursor}
    {selected : Option Slot × Cursor} (answer : Answer) (world : World)
    (h : selectConnection dynoc command.key cursor = .ok selected) :
    ∃ turned, commandTurn dynoc command cursor answer world = some turned := by
  obtain ⟨_ | slot, next⟩ := selected
  · exact ⟨(.returned command command.kind.failed, world), by simp only [commandTurn, h]⟩
  · rcases hattempt : attempt command.kind command.request world slot answer with
      ⟨_ | result, reached⟩
    · exact ⟨(.running command next, reached), by simp only [commandTurn, h, hattempt]⟩
    · exact ⟨(.returned command result, reached), by simp only [commandTurn, h, hattempt]⟩

/-- A turn of a command returns, or goes on with the cursor that `select_connection` left. -/
theorem command_turn_cases {command : Command} {cursor : Cursor} {answer : Answer}
    {world final : World} {after : CommandThread}
    (h : commandTurn dynoc command cursor answer world = some (after, final)) :
    (∃ result, after = .returned command result) ∨
      ∃ slot next, selectConnection dynoc command.key cursor = .ok (some slot, next) ∧
        after = .running command next := by
  unfold commandTurn at h
  cases hselect : selectConnection dynoc command.key cursor with
  | error fault => simp [hselect] at h
  | ok result =>
      obtain ⟨_ | slot, next⟩ := result
      · simp only [hselect, Option.some.injEq, Prod.mk.injEq] at h
        exact .inl ⟨_, h.1.symm⟩
      · rcases hattempt : attempt command.kind command.request world slot answer with
          ⟨_ | result, reached⟩
        all_goals simp only [hselect, hattempt, Option.some.injEq, Prod.mk.injEq] at h
        · exact .inr ⟨slot, next, rfl, h.1.symm⟩
        · exact .inl ⟨result, h.1.symm⟩

/-- It keeps the course and leaves a turn less. -/
theorem command_turn_turns {command : Command} {cursor : Cursor} {answer : Answer}
    {world final : World} {after : CommandThread}
    (h : commandTurn dynoc command cursor answer world = some (after, final)) :
    (Visited dynoc command.key cursor → after.OnCourse dynoc) ∧
      after.turns dynoc < (CommandThread.running command cursor).turns dynoc := by
  rcases command_turn_cases h with ⟨result, rfl⟩ | ⟨slot, next, hselect, rfl⟩
  · exact ⟨fun _ => trivial, Nat.succ_pos _⟩
  · refine ⟨fun hvisited => hvisited.call hselect, ?_⟩
    obtain ⟨_, token, dcType, dc, i, _, _, -, -, hnext, -, -, -, rfl⟩ :=
      select_connection_some hselect
    -- the rack of this turn is not offered again
    simp only [CommandThread.turns, next_rack_some hnext token, List.length_cons]
    omega

/-- What a move does to one of the commands. -/
theorem system_step_command {system next : System} {move : Move} {thread : Nat}
    {before : CommandThread} (hthread : system.commands[thread]? = some before)
    (hstep : systemStep dynoc system move = some next) :
    ∃ after, next.commands[thread]? = some after ∧
      (if move.isAttempt thread then 1 else 0) + after.turns dynoc ≤ before.turns dynoc := by
  have hlt : thread < system.commands.length := (List.getElem?_eq_some_iff.mp hthread).choose
  have hsame : next.commands[thread]? = some before → move.isAttempt thread = false →
      ∃ after, next.commands[thread]? = some after ∧
        (if move.isAttempt thread then 1 else 0) + after.turns dynoc ≤ before.turns dynoc := by
    intro hnext hmove
    exact ⟨before, hnext, by simp [hmove]⟩
  cases move with
  | call command =>
      obtain rfl := Option.some.inj hstep
      exact hsame ((List.getElem?_append_left hlt).trans hthread) rfl
  | reconnect dcType =>
      obtain ⟨dc, -, rfl⟩ := Option.map_eq_some_iff.mp hstep
      exact hsame hthread rfl
  | turn pass outcome =>
      obtain ⟨target, targets, status, hpass, -⟩ := turn_cases hstep
      rw [system_step_turn outcome hpass] at hstep
      obtain rfl := Option.some.inj hstep
      exact hsame hthread rfl
  | attempt other answer =>
      obtain ⟨command, cursor, after, final, hother, hturn, rfl⟩ := system_step_attempt hstep
      by_cases heq : other = thread
      · subst heq
        obtain rfl := Option.some.inj (hthread.symm.trans hother)
        refine ⟨after, List.getElem?_set_self hlt, ?_⟩
        have hless := (command_turn_turns hturn).2
        simp only [Move.isAttempt, decide_true, if_true]
        omega
      · refine hsame ?_ (by simpa [Move.isAttempt] using heq)
        rw [List.getElem?_set_ne heq]
        exact hthread

/-- What a move does to one of the passes. -/
theorem system_step_pass {system next : System} {move : Move} {pass : Nat} {before : Pass}
    (hpass : system.passes[pass]? = some before)
    (hstep : systemStep dynoc system move = some next) :
    ∃ after, next.passes[pass]? = some after ∧
      (if move.isTurn pass then 1 else 0) + after.targets.length ≤ before.targets.length := by
  have hlt : pass < system.passes.length := (List.getElem?_eq_some_iff.mp hpass).choose
  rcases system_step_cases hstep with ⟨-, hpasses, hmove⟩ | ⟨thread, answer, _, _, _, _, rfl, -,
    -, hpasses⟩ | ⟨other, outcome, slot, endpoint, targets, status, rfl, hother, -, hpasses⟩
  · have hkind : move.isTurn pass = false := by
      cases move with
      | turn other outcome => exact absurd rfl (hmove other outcome)
      | call | attempt | reconnect => rfl
    refine ⟨before, ?_, by simp [hkind]⟩
    rcases hpasses with hpasses | ⟨dcType, dc, -, hpasses⟩
    · rw [hpasses]
      exact hpass
    · rw [hpasses, List.getElem?_append_left hlt]
      exact hpass
  · exact ⟨before, hpasses ▸ hpass, by simp [Move.isTurn]⟩
  · by_cases heq : other = pass
    · subst heq
      obtain rfl := Option.some.inj (hpass.symm.trans hother)
      refine ⟨_, by rw [hpasses, List.getElem?_set_self hlt], ?_⟩
      simp [Move.isTurn, Nat.add_comm]
    · refine ⟨before, ?_, by simp [Move.isTurn, heq]⟩
      rw [hpasses, List.getElem?_set_ne heq]
      exact hpass

/-- All commands are on course. -/
theorem commands_on_course {world : World} {system : System}
    (h : Reachable (systemStep dynoc) (.start world) system) :
    ∀ thread ∈ system.commands, thread.OnCourse dynoc := by
  refine h.invariant (P := fun system => ∀ thread ∈ system.commands, thread.OnCourse dynoc)
    (by simp [System.start]) ?_
  intro system move next hcourse hstep thread hmem
  cases move with
  | call command =>
      obtain rfl := Option.some.inj hstep
      rcases List.mem_append.mp hmem with hold | hnew
      · exact hcourse thread hold
      · rw [List.mem_singleton.mp hnew]
        exact Visited.start
  | reconnect dcType =>
      obtain ⟨dc, -, rfl⟩ := Option.map_eq_some_iff.mp hstep
      exact hcourse thread hmem
  | turn pass outcome =>
      obtain ⟨target, targets, status, hpass, -⟩ := turn_cases hstep
      rw [system_step_turn outcome hpass] at hstep
      obtain rfl := Option.some.inj hstep
      exact hcourse thread hmem
  | attempt other answer =>
      obtain ⟨command, cursor, after, final, hother, hturn, rfl⟩ := system_step_attempt hstep
      rcases List.mem_or_eq_of_mem_set hmem with hold | rfl
      · exact hcourse thread hold
      · exact (command_turn_turns hturn).1 (hcourse _ (List.mem_of_getElem? hother))

end Turns

/-- In every state of a started client whose racks hold nodes, every command in its loop and every
pass with a slot before it can take a turn. However the run goes on, the command has returned
after at most two turns more than twice the local racks, and the pass is over after one turn for
each slot that is left. -/
theorem threads_wait_free {dynoc : Dynoc} (hstarted : StartedInRoom dynoc)
    (hcomplete : dynoc.Complete) {world : World} {moves : List Move} {system : System}
    (hrun : runFrom (systemStep dynoc) (.start world) moves = some system) :
    (∀ thread command cursor answer,
      system.commands[thread]? = some (.running command cursor) →
        ∃ next, systemStep dynoc system (.attempt thread answer) = some next) ∧
    (∀ pass target targets status outcome,
      system.passes[pass]? = some ⟨target :: targets, status⟩ →
        ∃ next, systemStep dynoc system (.turn pass outcome) = some next) ∧
    ∀ more final, runFrom (systemStep dynoc) system more = some final →
      (∀ thread before, system.commands[thread]? = some before →
        ∃ after, final.commands[thread]? = some after ∧
          more.countP (Move.isAttempt thread) + after.turns dynoc ≤
            2 * dynoc.localRackCount + 2 ∧
          (after.turns dynoc = 0 → ∃ command result, after = .returned command result)) ∧
      ∀ pass before, system.passes[pass]? = some before →
        ∃ after, final.passes[pass]? = some after ∧
          more.countP (Move.isTurn pass) + after.targets.length ≤ before.targets.length := by
  refine ⟨fun thread command cursor answer hthread => ?_,
    fun pass target targets status outcome hpass => ⟨_, system_step_turn outcome hpass⟩,
    fun more final hmore => ⟨fun thread before hbefore => ?_, fun pass before hbefore => ?_⟩⟩
  · have hvisited : Visited dynoc command.key cursor :=
      commands_on_course ⟨moves, hrun⟩ _ (List.mem_of_getElem? hthread)
    -- the rack on offer holds a node, so the search in it does not fault
    have hplaces := visited_holds ((complete_iff dynoc).mpr hcomplete) hvisited
    have hsafe : SafeCall dynoc command.key cursor := by
      refine safe_call_of_holds hstarted (visited_scratch hvisited) fun dcType dc i hnext => ?_
      rw [next_rack_some hnext tokenInit] at hplaces
      exact hplaces _ List.mem_cons_self
    obtain ⟨⟨slot, after⟩, hselect⟩ := hsafe.returns
    obtain ⟨turned, hturn⟩ := command_turn_total answer system.world hselect
    simp only [systemStep, hthread, hturn, Option.map_some]
    exact ⟨_, rfl⟩
  · obtain ⟨after, hafter, hcount⟩ := run_count_le (CommandThread.turns dynoc)
      (Move.isAttempt thread) (fun system => system.commands[thread]?)
      (fun _ _ _ _ hthere hstep => system_step_command hthere hstep) hbefore hmore
    refine ⟨after, hafter, hcount.trans (turns_le before), fun hzero => ?_⟩
    cases after with
    | running command cursor => exact absurd hzero (Nat.succ_ne_zero _)
    | returned command result => exact ⟨command, result, rfl⟩
  · exact run_count_le (fun running => running.targets.length) (Move.isTurn pass)
      (fun system => system.passes[pass]?)
      (fun _ _ _ _ hthere hstep => system_step_pass hthere hstep) hbefore hmore

/-- A command and a pass have come to the one slot of a client. -/
def waiting : System :=
  (runFrom (systemStep (lockedClient .error).1) (.start (lockedClient .error).2)
    [.call (.get (.ofAscii "thread00")), .reconnect .localDc]).get (by decide +kernel)

/-- In the example both threads can go on, and neither for long. -/
theorem waiting_wait_free :
    (∀ answer, ∃ next,
      systemStep (lockedClient .error).1 waiting (.attempt 0 answer) = some next) ∧
    (∀ outcome, ∃ next,
      systemStep (lockedClient .error).1 waiting (.turn 0 outcome) = some next) ∧
    ∀ more final, runFrom (systemStep (lockedClient .error).1) waiting more = some final →
      more.countP (Move.isAttempt 0) ≤ 4 ∧ more.countP (Move.isTurn 0) ≤ 1 := by
  have hrun : runFrom (systemStep (lockedClient .error).1) (.start (lockedClient .error).2)
      [.call (.get (.ofAscii "thread00")), .reconnect .localDc] = some waiting :=
    (Option.some_get _).symm
  obtain ⟨hcommand, hpass, hbounds⟩ := threads_wait_free
    (locked_client_in_room .error).started_in_room (by decide +kernel) hrun
  have hthread : waiting.commands[0]? =
      some (.running (.get (.ofAscii "thread00")) .start) := by decide +kernel
  have htargets : waiting.passes[0]? =
      some ⟨[(⟨.localDc, 0, 0⟩, lockedNode.endpoint)], .valid⟩ := by decide +kernel
  refine ⟨fun answer => hcommand _ _ _ answer hthread,
    fun outcome => hpass _ _ _ _ outcome htargets, fun more final hmore => ?_⟩
  obtain ⟨hcommands, hpasses⟩ := hbounds more final hmore
  obtain ⟨after, -, hcount, -⟩ := hcommands _ _ hthread
  obtain ⟨left, -, hturns⟩ := hpasses _ _ htargets
  have hracks : (lockedClient .error).1.localRackCount = 1 := by decide +kernel
  rw [hracks] at hcount
  exact ⟨by omega, (Nat.le_add_right _ _).trans hturns⟩

end DynocClient
