import DynocClient.Command.Basic
import DynocClient.Connection.Pool

/-!
# The running client

After `dynoc_start` the commands that the application calls and the passes of the reconnect
thread run side by side. They share the connections, and a connection is read or written only
under its lock; so a `Move` lets one thread run from a lock to its unlock. Which thread moves,
and what it meets, is free.

`call_run` and `reconnect_run` say that a command, or a pass, that is not interrupted does what
`Command.call`, or `reconnectDatacenter`, says.
-/

namespace DynocClient

open Lib

/-- A call of one of the command functions: it is in its loop, with the cursor that
`select_connection` left, or it has returned. -/
inductive CommandThread where
  | running (command : Command) (cursor : Cursor)
  | returned (command : Command) (result : Returned)
  deriving DecidableEq

/-- A call of `reconnect_datacenter`: the slots that its loops have still to go through, and
their `status`. -/
structure Pass where
  targets : List (Slot × Endpoint)
  status : Status
  deriving DecidableEq

/-- What the threads share, and where each of them is. The topology is not part of it, because
nothing writes to it after `dynoc_start`. -/
structure System where
  world : World
  commands : List CommandThread
  passes : List Pass

/-- What can happen next. -/
inductive Move where
  /-- The application calls a command. -/
  | call (command : Command)
  /-- A command takes its next turn. -/
  | attempt (thread : Nat) (answer : Answer)
  /-- A pass over a datacenter begins. `reconnect_thread` makes them one after the other. -/
  | reconnect (dcType : DcType)
  /-- A pass takes its next turn. -/
  | turn (pass : Nat) (outcome : Reconnect)
  deriving DecidableEq

/-- No thread but the one that called `dynoc_start`. -/
def System.start (world : World) : System := { world, commands := [], passes := [] }

/-- A turn of a command: it selects a connection, which reads nothing that other threads write,
and attempts the request there. A fault has no next state. -/
def commandTurn (dynoc : Dynoc) (command : Command) (cursor : Cursor) (answer : Answer)
    (world : World) : Option (CommandThread × World) :=
  match selectConnection dynoc command.key cursor with
  | .error _ => none
  | .ok (none, _) => some (.returned command command.kind.failed, world)
  | .ok (some slot, next) =>
      match attempt command.kind command.request world slot answer with
      | (some result, world) => some (.returned command result, world)
      | (none, world) => some (.running command next, world)

/-- A turn of a pass. -/
def Pass.turn (pass : Pass) (outcome : Reconnect) (world : World) : Option (Pass × World) :=
  match pass.targets with
  | [] => none
  | (slot, endpoint) :: targets =>
      let (status, world) := reconnectSlot world slot endpoint outcome pass.status
      some ({ targets, status }, world)

/-- Make a move; `none` if it cannot be made. -/
def systemStep (dynoc : Dynoc) (system : System) : Move → Option System
  | .call command =>
      some { system with commands := system.commands ++ [.running command .start] }
  | .attempt thread answer =>
      match system.commands[thread]? with
      | some (.running command cursor) =>
          (commandTurn dynoc command cursor answer system.world).map fun (next, world) =>
            { system with world, commands := system.commands.set thread next }
      | _ => none
  | .reconnect dcType =>
      (dynoc.dc dcType).map fun dc =>
        { system with passes := system.passes ++ [⟨dc.reconnectTargets dcType, .valid⟩] }
  | .turn pass outcome =>
      match system.passes[pass]? with
      | some running =>
          (running.turn outcome system.world).map fun (next, world) =>
            { system with world, passes := system.passes.set pass next }
      | none => none

/-! ## What a move does -/

section Cases

variable {dynoc : Dynoc} {system next : System} {move : Move}

/-- A turn of a command leaves the connections alone, or attempts the request at the one that
`select_connection` returns. -/
theorem command_turn_world {command : Command} {cursor : Cursor} {answer : Answer}
    {world : World} {thread : CommandThread} {final : World}
    (h : commandTurn dynoc command cursor answer world = some (thread, final)) :
    final = world ∨ ∃ slot after,
      selectConnection dynoc command.key cursor = .ok (some slot, after) ∧
      final = (attempt command.kind command.request world slot answer).2 := by
  unfold commandTurn at h
  cases hselect : selectConnection dynoc command.key cursor with
  | error fault => simp [hselect] at h
  | ok result =>
      obtain ⟨_ | slot, after⟩ := result
      · simp only [hselect, Option.some.injEq, Prod.mk.injEq] at h
        exact .inl h.2.symm
      · refine .inr ⟨slot, after, rfl, ?_⟩
        rcases hattempt : attempt command.kind command.request world slot answer with
          ⟨_ | result, reached⟩
        all_goals
          simp only [hselect, hattempt, Option.some.injEq, Prod.mk.injEq] at h
          exact h.2.symm

/-- A turn of a pass that has a slot before it. -/
theorem system_step_turn {pass : Nat} {target : Slot × Endpoint}
    {targets : List (Slot × Endpoint)} {status : Status} (outcome : Reconnect)
    (hpass : system.passes[pass]? = some ⟨target :: targets, status⟩) :
    systemStep dynoc system (.turn pass outcome) = some { system with
      world := (reconnectSlot system.world target.1 target.2 outcome status).2
      passes := system.passes.set pass ⟨targets,
        (reconnectSlot system.world target.1 target.2 outcome status).1⟩ } := by
  simp [systemStep, hpass, Pass.turn]

/-- A turn of a command that is in its loop. -/
theorem system_step_attempt {thread : Nat} {answer : Answer}
    (h : systemStep dynoc system (.attempt thread answer) = some next) :
    ∃ command cursor after final,
      system.commands[thread]? = some (.running command cursor) ∧
      commandTurn dynoc command cursor answer system.world = some (after, final) ∧
      next = { system with world := final, commands := system.commands.set thread after } := by
  simp only [systemStep] at h
  split at h
  · rename_i command cursor hthread
    obtain ⟨⟨after, final⟩, hturn, rfl⟩ := Option.map_eq_some_iff.mp h
    exact ⟨command, cursor, after, final, hthread, hturn, rfl⟩
  · cases h

/-- Everything a move can do to the connections and the passes. -/
theorem system_step_cases (h : systemStep dynoc system move = some next) :
    (next.world = system.world ∧ (next.passes = system.passes ∨ ∃ dcType dc,
        dynoc.dc dcType = some dc ∧
        next.passes = system.passes ++ [⟨dc.reconnectTargets dcType, .valid⟩]) ∧
      ∀ pass outcome, move ≠ .turn pass outcome) ∨
    (∃ thread answer, ∃ command : Command, ∃ cursor slot after, move = .attempt thread answer ∧
      selectConnection dynoc command.key cursor = .ok (some slot, after) ∧
      next.world = (attempt command.kind command.request system.world slot answer).2 ∧
      next.passes = system.passes) ∨
    (∃ pass outcome slot endpoint targets status, move = .turn pass outcome ∧
      system.passes[pass]? = some ⟨(slot, endpoint) :: targets, status⟩ ∧
      next.world = (reconnectSlot system.world slot endpoint outcome status).2 ∧
      next.passes = system.passes.set pass
        ⟨targets, (reconnectSlot system.world slot endpoint outcome status).1⟩) := by
  cases move with
  | call command =>
      obtain rfl := Option.some.inj h
      exact .inl ⟨rfl, .inl rfl, by simp⟩
  | attempt thread answer =>
      obtain ⟨command, cursor, reached, final, -, hturn, rfl⟩ := system_step_attempt h
      rcases command_turn_world hturn with rfl | ⟨slot, after, hselect, rfl⟩
      · exact .inl ⟨rfl, .inl rfl, by simp⟩
      · exact .inr (.inl ⟨thread, answer, command, cursor, slot, after, rfl, hselect, rfl, rfl⟩)
  | reconnect dcType =>
      obtain ⟨dc, hdc, rfl⟩ := Option.map_eq_some_iff.mp h
      exact .inl ⟨rfl, .inr ⟨dcType, dc, hdc, rfl⟩, by simp⟩
  | turn pass outcome =>
      simp only [systemStep] at h
      cases hpass : system.passes[pass]? with
      | none => simp [hpass] at h
      | some running =>
          obtain ⟨targets, status⟩ := running
          simp only [hpass] at h
          obtain ⟨⟨reached, final⟩, hturn, rfl⟩ := Option.map_eq_some_iff.mp h
          cases targets with
          | nil => cases hturn
          | cons target targets =>
              obtain ⟨rfl, rfl⟩ := Prod.mk.inj (Option.some.inj hturn)
              exact .inr (.inr ⟨pass, outcome, target.1, target.2, targets, status, rfl, hpass,
                rfl, rfl⟩)

end Cases

/-! ## Threads that are not interrupted -/

/-- A command that moves alone does what its loop says. -/
theorem command_run (dynoc : Dynoc) (system : System) {thread : Nat} {command : Command}
    {cursor : Cursor} (answers : Nat → Answer) {result : Returned} {final : World}
    (hthread : system.commands[thread]? = some (.running command cursor))
    (h : commandLoop command.kind command.request dynoc command.key cursor answers
      system.world = .ok (result, final)) :
    ∃ turns, runFrom (systemStep dynoc) system
        ((List.range turns).map fun i => .attempt thread (answers i)) =
      some { system with
        world := final, commands := system.commands.set thread (.returned command result) } := by
  cases hselect : selectConnection dynoc command.key cursor with
  | error fault =>
      rw [command_loop_error answers system.world hselect] at h
      cases h
  | ok selected =>
      obtain ⟨_ | slot, next⟩ := selected
      · rw [command_loop_none answers system.world hselect] at h
        obtain ⟨rfl, rfl⟩ := Prod.mk.inj (Except.ok.inj h)
        exact ⟨1, by simp [runFrom, systemStep, hthread, commandTurn, hselect]⟩
      · rw [command_loop_some answers system.world hselect] at h
        rcases hattempt : attempt command.kind command.request system.world slot (answers 0) with
          ⟨_ | accepted, reached⟩
        · simp only [hattempt] at h
          have hstep : systemStep dynoc system (.attempt thread (answers 0)) =
              some { system with
                world := reached
                commands := system.commands.set thread (.running command next) } := by
            simp [systemStep, hthread, commandTurn, hselect, hattempt]
          have hlt : thread < system.commands.length :=
            (List.getElem?_eq_some_iff.mp hthread).choose
          obtain ⟨turns, hrun⟩ := command_run dynoc
            { system with
              world := reached, commands := system.commands.set thread (.running command next) }
            (fun i => answers (i + 1)) (List.getElem?_set_self hlt) h
          refine ⟨turns + 1, ?_⟩
          rw [List.range_succ_eq_map, List.map_cons, List.map_map, runFrom, hstep,
            Option.bind_some]
          simp only [List.set_set] at hrun
          exact hrun
        · simp only [hattempt] at h
          obtain ⟨rfl, rfl⟩ := Prod.mk.inj (Except.ok.inj h)
          exact ⟨1, by simp [runFrom, systemStep, hthread, commandTurn, hselect, hattempt]⟩
termination_by cursor.remaining dynoc
decreasing_by exact select_connection_remaining hselect

/-- A pass that moves alone does what its loops say. -/
theorem pass_run {dynoc : Dynoc} {system : System} {pass : Nat}
    {targets : List (Slot × Endpoint)} {status : Status} (outcomes : Slot → Reconnect)
    (hpass : system.passes[pass]? = some ⟨targets, status⟩) :
    runFrom (systemStep dynoc) system
        (targets.map fun target => .turn pass (outcomes target.1)) =
      some { system with
        world := (reconnectAll outcomes targets status system.world).2
        passes := system.passes.set pass
          ⟨[], (reconnectAll outcomes targets status system.world).1⟩ } := by
  induction targets generalizing system status with
  | nil =>
      obtain ⟨hlt, hget⟩ := List.getElem?_eq_some_iff.mp hpass
      simp [reconnectAll, loop, ← hget]
  | cons target targets ih =>
      have hlt : pass < system.passes.length := (List.getElem?_eq_some_iff.mp hpass).choose
      rw [List.map_cons, runFrom, system_step_turn _ hpass, Option.bind_some,
        ih (List.getElem?_set_self hlt)]
      simp only [List.set_set]
      rfl

/-- A call of a command that is not interrupted. -/
theorem call_run {dynoc : Dynoc} {system : System} (command : Command) (answers : Nat → Answer)
    {result : Returned} {final : World}
    (h : command.call dynoc answers system.world = .ok (result, final)) :
    ∃ turns, runFrom (systemStep dynoc) system (.call command ::
        (List.range turns).map fun i => .attempt system.commands.length (answers i)) =
      some { system with
        world := final, commands := system.commands ++ [.returned command result] } := by
  rw [command.call_eq] at h
  obtain ⟨turns, hrun⟩ := command_run dynoc
    { system with commands := system.commands ++ [.running command .start] } answers
    List.getElem?_concat_length h
  refine ⟨turns, ?_⟩
  rw [runFrom]
  show runFrom (systemStep dynoc)
    { system with commands := system.commands ++ [.running command .start] } _ = _
  rw [hrun]
  simp

/-- A pass over a datacenter that is not interrupted. -/
theorem reconnect_run {dynoc : Dynoc} (system : System) {dcType : DcType} {dc : Datacenter}
    (hdc : dynoc.dc dcType = some dc) (outcomes : Slot → Reconnect) :
    ∃ status, runFrom (systemStep dynoc) system (.reconnect dcType ::
        (dc.reconnectTargets dcType).map fun target =>
          .turn system.passes.length (outcomes target.1)) =
      some { system with
        world := reconnectDatacenter outcomes dcType dc system.world
        passes := system.passes ++ [⟨[], status⟩] } := by
  have hbegin : systemStep dynoc system (.reconnect dcType) = some { system with
      passes := system.passes ++ [⟨dc.reconnectTargets dcType, .valid⟩] } := by
    simp only [systemStep, hdc, Option.map_some]
  refine ⟨(reconnectAll outcomes (dc.reconnectTargets dcType) .valid system.world).1, ?_⟩
  rw [runFrom, hbegin, Option.bind_some, pass_run outcomes List.getElem?_concat_length]
  simp [reconnectDatacenter]

end DynocClient
