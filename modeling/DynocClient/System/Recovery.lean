import DynocClient.System.Start
import DynocClient.System.Usable

/-!
# Recovery

A slot that is `INVALID` becomes `VALID` only in a pass. Once the servers of some slots answer
again, the first pass that begins and ends after that makes these slots `VALID`, whatever commands
and other passes do meanwhile and whatever the other servers do, and they stay so; a command that
gets to one of them succeeds there (`pass_recovers`). A refused password may not happen, because
the pass would hand it on to slots without a password.
-/

namespace DynocClient

open Lib

/-- The slot that a command with the cursor takes its next turn at. -/
def Dynoc.selected (dynoc : Dynoc) (key : CString) (cursor : Cursor) : Option Slot :=
  match selectConnection dynoc key cursor with
  | .ok (slot, _) => slot
  | .error _ => none

/-- A slot selected is one that `select_connection` returns. -/
theorem selected_some {dynoc : Dynoc} {key : CString} {cursor : Cursor} {slot : Slot}
    (h : dynoc.selected key cursor = some slot) :
    ∃ after, selectConnection dynoc key cursor = .ok (some slot, after) := by
  unfold Dynoc.selected at h
  split at h
  next found after hselect =>
    subst h
    exact ⟨after, hselect⟩
  next => cases h

/-- A slot that `select_connection` returns is the one selected. -/
theorem selected_of_select {dynoc : Dynoc} {key : CString} {cursor after : Cursor} {slot : Slot}
    (h : selectConnection dynoc key cursor = .ok (some slot, after)) :
    dynoc.selected key cursor = some slot := by
  simp only [Dynoc.selected, h]

/-- The slot at which a thread takes its next turn. -/
def CommandThread.selects (dynoc : Dynoc) : CommandThread → Option Slot
  | .running command cursor => dynoc.selected command.key cursor
  | .returned _ _ => none

/-- The servers of the slots that are `up` answer on their connections. -/
def Serving (dynoc : Dynoc) (up : Slot → Prop) (system : System) : Move → Prop
  | .attempt thread answer =>
      ∀ running ∈ system.commands[thread]?, ∀ slot ∈ running.selects dynoc,
        up slot → answer.accepted = true
  | .turn pass outcome =>
      ∀ running ∈ system.passes[pass]?, ∀ target ∈ running.targets.head?,
        up target.1 → (system.world.conn target.1).status = .valid → outcome.ping.reply ≠ none
  | _ => True

/-- They can be connected to, and no password is refused. -/
def Reconnecting (up : Slot → Prop) (system : System) : Move → Prop
  | .turn pass outcome =>
      outcome.dial.auth.accepted = true ∧
        ∀ running ∈ system.passes[pass]?, ∀ target ∈ running.targets.head?,
          up target.1 → outcome.dial.connect = .connected
  | _ => True

section Decidable

variable (dynoc : Dynoc) (up : Slot → Prop) [DecidablePred up] (system : System)

instance : (move : Move) → Decidable (Serving dynoc up system move)
  | .attempt thread answer =>
      inferInstanceAs (Decidable (∀ running ∈ system.commands[thread]?,
        ∀ slot ∈ running.selects dynoc, up slot → answer.accepted = true))
  | .turn pass outcome =>
      inferInstanceAs (Decidable (∀ running ∈ system.passes[pass]?,
        ∀ target ∈ running.targets.head?, up target.1 →
          (system.world.conn target.1).status = .valid → outcome.ping.reply ≠ none))
  | .call _ | .reconnect _ => isTrue trivial

instance : (move : Move) → Decidable (Reconnecting up system move)
  | .turn pass outcome =>
      inferInstanceAs (Decidable (outcome.dial.auth.accepted = true ∧
        ∀ running ∈ system.passes[pass]?, ∀ target ∈ running.targets.head?,
          up target.1 → outcome.dial.connect = .connected))
  | .call _ | .reconnect _ | .attempt _ _ => isTrue trivial

end Decidable

/-! ## Turns of a pass that no password was refused in -/

section Turn

variable {world : World} {slot : Slot} {endpoint : Endpoint} {outcome : Reconnect}
  (hauth : outcome.dial.auth.accepted = true)
include hauth

/-- A dial that is accepted leaves its slot `VALID`. -/
theorem dial_status_valid : dialStatus endpoint outcome.dial .valid = .valid := by
  unfold dialStatus
  cases endpoint.pass with
  | none => rfl
  | some pass => simp [hauth]

/-- The `status` of the loop stays `VALID`. -/
theorem reconnect_carries_valid :
    (reconnectSlot world slot endpoint outcome .valid).1 = .valid := by
  by_cases halive : Alive world slot outcome.ping
  · rw [reconnect_slot_alive halive]
  · rw [reconnect_slot_dial halive]
    by_cases hconnect : outcome.dial.connect = .connected
    · rw [(dial_connected _ slot endpoint .valid hconnect).1]
      exact dial_status_valid hauth
    · exact (dial_failed _ slot endpoint .valid hconnect).1

/-- The slot is `VALID` after its turn if its server can be reached. -/
theorem reconnect_validates (hconnect : outcome.dial.connect = .connected) :
    ((reconnectSlot world slot endpoint outcome .valid).2.conn slot).status = .valid := by
  by_cases halive : Alive world slot outcome.ping
  · rw [reconnect_slot_alive halive]
    exact (ping_slot_conn (world.lock slot) slot outcome.ping).1.mpr halive
  · rw [reconnect_slot_dial halive]
    show (((dial _ _ _ _ _).2).conn slot).status = _
    rw [(dial_connected _ slot endpoint .valid hconnect).2.1, Function.update_self]
    exact dial_status_valid hauth

end Turn

/-! ## Slots that are up -/

/-- A turn of a pass has a slot before it. -/
theorem turn_cases {dynoc : Dynoc} {system next : System} {pass : Nat} {outcome : Reconnect}
    (hstep : systemStep dynoc system (.turn pass outcome) = some next) :
    ∃ target targets status, system.passes[pass]? = some ⟨target :: targets, status⟩ ∧
      next.world = (reconnectSlot system.world target.1 target.2 outcome status).2 ∧
      next.passes = system.passes.set pass
        ⟨targets, (reconnectSlot system.world target.1 target.2 outcome status).1⟩ := by
  rcases system_step_cases hstep with ⟨-, -, hno⟩ | ⟨thread, answer, _, _, _, _, hmove, -⟩ |
    ⟨pass', outcome', slot, endpoint, targets, status, hmove, hpass, hworld, hpasses⟩
  · exact absurd rfl (hno pass outcome)
  · cases hmove
  · cases hmove
    exact ⟨(slot, endpoint), targets, status, hpass, hworld, hpasses⟩

section Step

variable {dynoc : Dynoc} {up : Slot → Prop} {system next : System} {move : Move}
  (hserving : Serving dynoc up system move)
  (hstep : systemStep dynoc system move = some next)
include hserving hstep

/-- Where the server answers a slot stays `VALID`. -/
theorem valid_stays {slot : Slot} (hup : up slot)
    (hvalid : (system.world.conn slot).status = .valid) :
    (next.world.conn slot).status = .valid := by
  cases move with
  | call command =>
      obtain rfl := Option.some.inj hstep
      exact hvalid
  | reconnect dcType =>
      obtain ⟨dc, -, rfl⟩ := Option.map_eq_some_iff.mp hstep
      exact hvalid
  | attempt thread answer =>
      obtain ⟨command, cursor, after, final, hthread, hturn, rfl⟩ := system_step_attempt hstep
      rcases command_turn_world hturn with rfl | ⟨found, cursor', hselect, rfl⟩
      · exact hvalid
      · show ((attempt _ _ _ _ _).2.conn slot).status = _
        by_cases hfound : slot = found
        · subst hfound
          -- the answer is accepted, so the command does not reset the connection
          have haccepted := hserving _ hthread slot (selected_of_select hselect) hup
          have hkept : ¬ Refused system.world slot answer := by
            intro hrefused
            exact absurd haccepted (by simp [hrefused.2])
          rw [(attempt_kept _ _ hkept).1]
          exact hvalid
        · rw [attempt_other _ _ hfound]
          exact hvalid
  | turn pass outcome =>
      obtain ⟨target, targets, status, hpass, hworld, -⟩ := turn_cases hstep
      rw [hworld]
      by_cases hslot : slot = target.1
      · subst hslot
        -- the `PING` is answered, so the pass does not dial
        have halive : Alive system.world target.1 outcome.ping :=
          ⟨hvalid, hserving _ hpass target rfl hup hvalid⟩
        rw [reconnect_slot_alive halive]
        exact (ping_slot_conn (system.world.lock target.1) target.1 outcome.ping).1.mpr halive
      · rw [reconnect_slot_other hslot]
        exact hvalid

/-- The pass has come as far as `rest`, no password was refused in it, and the slots behind it that
are up are `VALID`. -/
def Passing (up : Slot → Prop) (targets : List (Slot × Endpoint)) (pass : Nat)
    (system : System) : Prop :=
  ∃ rest, system.passes[pass]? = some ⟨rest, .valid⟩ ∧
    ∀ target ∈ targets, up target.1 →
      target ∈ rest ∨ (system.world.conn target.1).status = .valid

/-- Every move lets the pass come further or stay where it is. -/
theorem passing_step {targets : List (Slot × Endpoint)} {pass : Nat}
    (hreconnecting : Reconnecting up system move) (h : Passing up targets pass system) :
    Passing up targets pass next := by
  obtain ⟨rest, hpass, hbehind⟩ := h
  have hstays : ∀ slot, up slot → (system.world.conn slot).status = .valid →
      (next.world.conn slot).status = .valid := fun slot => valid_stays hserving hstep
  have hsame : next.passes[pass]? = some ⟨rest, .valid⟩ → Passing up targets pass next := by
    intro hnext
    exact ⟨rest, hnext, fun target htarget hup =>
      (hbehind target htarget hup).imp_right (hstays target.1 hup)⟩
  rcases system_step_cases hstep with ⟨-, hpasses, -⟩ | ⟨_, _, _, _, _, _, _, -, -, hpasses⟩ |
    ⟨other, outcome, slot, endpoint, after, status, rfl, hother, hworld, hpasses⟩
  · refine hsame ?_
    rcases hpasses with hpasses | ⟨dcType, dc, -, hpasses⟩
    · rw [hpasses]
      exact hpass
    · rw [hpasses, List.getElem?_append_left (List.getElem?_eq_some_iff.mp hpass).choose]
      exact hpass
  · refine hsame ?_
    rw [hpasses]
    exact hpass
  · by_cases hpassother : other = pass
    · -- the pass takes its turn at the first slot of `rest`
      subst hpassother
      obtain ⟨rfl, rfl⟩ := Pass.mk.inj (Option.some.inj (hpass.symm.trans hother))
      refine ⟨after, ?_, fun target htarget hup => ?_⟩
      · rw [hpasses, List.getElem?_set_self (List.getElem?_eq_some_iff.mp hpass).choose,
          reconnect_carries_valid hreconnecting.1]
      · rcases hbehind target htarget hup with hahead | hvalid
        · rcases List.mem_cons.mp hahead with rfl | hafter
          · refine .inr ?_
            rw [hworld]
            exact reconnect_validates hreconnecting.1 (hreconnecting.2 _ hpass _ rfl hup)
          · exact .inl hafter
        · exact .inr (hstays target.1 hup hvalid)
    · refine hsame ?_
      rw [hpasses, List.getElem?_set_ne hpassother]
      exact hpass

end Step

/-- A command that gets to a `VALID` slot and an accepted answer returns. -/
theorem system_step_served {dynoc : Dynoc} {system : System} {thread : Nat} {command : Command}
    {cursor after : Cursor} {slot : Slot} {answer : Answer}
    (hthread : system.commands[thread]? = some (.running command cursor))
    (hselect : selectConnection dynoc command.key cursor = .ok (some slot, after))
    (hvalid : (system.world.conn slot).status = .valid) (haccepted : answer.accepted = true) :
    systemStep dynoc system (.attempt thread answer) = some { system with
      world := (attempt command.kind command.request system.world slot answer).2
      commands := system.commands.set thread (.returned command
        (command.kind.succeeded (some ⟨system.world.replies.issued, .data⟩))) } := by
  have hattempt := attempt_accepted command.kind command.request hvalid haccepted
  have hturn : attempt command.kind command.request system.world slot answer =
      (some (command.kind.succeeded (some ⟨system.world.replies.issued, .data⟩)),
        (attempt command.kind command.request system.world slot answer).2) :=
    Prod.ext hattempt rfl
  simp only [systemStep, hthread, commandTurn, hselect]
  rw [hturn]
  rfl

/-- Take any run that begins with a pass over a datacenter and in which the servers of some slots
answer and no password is refused. When the pass is over, each of these slots that lies in the
datacenter is `VALID`, and a command that gets to it returns with the answer it gets there, if that
is accepted. -/
theorem pass_recovers {dynoc : Dynoc} {up : Slot → Prop} {dcType : DcType} {system final : System}
    {moves : List Move}
    (hrun : runFrom (systemStep dynoc) system (.reconnect dcType :: moves) = some final)
    (hserving : EachStep (systemStep dynoc) (fun system move =>
      Serving dynoc up system move ∧ Reconnecting up system move) system
      (.reconnect dcType :: moves))
    (hover : ∃ status, final.passes[system.passes.length]? = some ⟨[], status⟩) {slot : Slot}
    (hslot : dynoc.IsSlot slot) (hdcType : slot.dcType = dcType) (hup : up slot) :
    (final.world.conn slot).status = .valid ∧
      ∀ (thread : Nat) (command : Command) cursor answer,
        final.commands[thread]? = some (.running command cursor) →
        (CommandThread.running command cursor).selects dynoc = some slot →
        answer.accepted = true →
        ∃ next, systemStep dynoc final (.attempt thread answer) = some next ∧
          next.commands[thread]? = some (.returned command
            (command.kind.succeeded (some ⟨final.world.replies.issued, .data⟩))) := by
  subst hdcType
  obtain ⟨next, hbegin, hrest⟩ := run_from_cons.mp hrun
  obtain ⟨dc, hdc, rfl⟩ := Option.map_eq_some_iff.mp hbegin
  -- all slots lie before the pass at first; in the end none does
  have hpassing := (hserving.2 _ hbegin).invariant
    (P := Passing up (dc.reconnectTargets slot.dcType) system.passes.length) hrest
    ⟨_, List.getElem?_concat_length, fun target htarget _ => .inl htarget⟩
    (fun _ _ _ hbefore hmet hstep => passing_step hmet.1 hstep hmet.2 hbefore)
  obtain ⟨rest, hpass, hbehind⟩ := hpassing
  obtain ⟨status, hstatus⟩ := hover
  obtain ⟨rfl, -⟩ := Pass.mk.inj (Option.some.inj (hpass.symm.trans hstatus))
  have hvalid : (final.world.conn slot).status = .valid := by
    obtain ⟨dc', rack, hdc', hrack, hlt⟩ := hslot
    obtain rfl := Option.some.inj (hdc.symm.trans hdc')
    have htarget := mem_reconnect_targets.mpr ⟨rfl, rack, hrack, hlt, rfl⟩
    exact (hbehind _ htarget hup).resolve_left List.not_mem_nil
  refine ⟨hvalid, fun thread command cursor answer hthread hselects haccepted => ?_⟩
  obtain ⟨after, hselect⟩ := selected_some hselects
  have hlt : thread < final.commands.length := (List.getElem?_eq_some_iff.mp hthread).choose
  refine ⟨_, system_step_served hthread hselect hvalid haccepted, ?_⟩
  exact List.getElem?_set_self hlt

/-- A command comes while a pass opens the connection that was refused at the start. -/
def recoveryMoves : List Move :=
  [.call (.get (.ofAscii "thread00")), .turn 0 (authReconnects .data ⟨.localDc, 0, 0⟩)]

/-- The state after the pass and these moves. -/
def recovered : System :=
  (runFrom (systemStep (lockedClient .error).1) (.start (lockedClient .error).2)
    (.reconnect .localDc :: recoveryMoves)).get (by decide +kernel)

/-- The slot is `INVALID` before the pass, `VALID` after it, and serves the next command. -/
theorem recovered_slot_serves :
    ((lockedClient .error).2.conn ⟨.localDc, 0, 0⟩).status = .invalid ∧
      (recovered.world.conn ⟨.localDc, 0, 0⟩).status = .valid ∧
      ∃ next, systemStep (lockedClient .error).1 recovered
          (.attempt 0 { reply := some .data, err := false }) = some next ∧
        next.commands[0]? = some (.returned (.get (.ofAscii "thread00"))
          (.reply (some ⟨recovered.world.replies.issued, .data⟩))) := by
  have hrun : runFrom (systemStep (lockedClient .error).1) (.start (lockedClient .error).2)
      (.reconnect .localDc :: recoveryMoves) = some recovered := (Option.some_get _).symm
  have hserving : EachStep (systemStep (lockedClient .error).1)
      (fun system move => Serving (lockedClient .error).1 (fun _ => True) system move ∧
        Reconnecting (fun _ => True) system move) (.start (lockedClient .error).2)
      (.reconnect .localDc :: recoveryMoves) := by decide +kernel
  have hslot : (lockedClient .error).1.IsSlot ⟨.localDc, 0, 0⟩ := by decide +kernel
  have h := pass_recovers hrun hserving ⟨.valid, by decide +kernel⟩ hslot rfl trivial
  exact ⟨by decide +kernel, h.1, h.2 0 (.get (.ofAscii "thread00")) .start _ (by decide +kernel)
    (by decide +kernel) rfl⟩

end DynocClient
