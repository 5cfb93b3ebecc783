import DynocClient.System.Statements

/-!
# Locked statements and whole turns

The statements of a critical section, made in one go, are the turn that `attempt` and
`reconnectSlot` describe (`attempt_statements`, `reconnect_statements`). A statement looks at its
own slot only and changes no other one (`sectionsLocal`), so those of different slots commute.
-/

namespace DynocClient

open Lib

/-! ## A section whose statements are made in one go -/

/-- The three statements that reset a connection. -/
theorem reset_statements (world : World) (slot : Slot) :
    ((world.writeStatus slot .invalid).redisFree slot
        ((world.writeStatus slot .invalid).conn slot).ctx).writeCtx slot none =
      (world.redisFree slot (world.conn slot).ctx).write slot ⟨.invalid, none⟩ := by
  cases hctx : (world.conn slot).ctx <;>
    simp [World.writeStatus, World.writeCtx, World.write, World.redisFree, World.emit, hctx]

/-- The two statements that store a new connection. -/
theorem store_statements (world : World) (slot : Slot) (status : Status) (ctx : Option Ctx) :
    (world.writeStatus slot status).writeCtx slot ctx = world.write slot ⟨status, ctx⟩ := by
  simp [World.writeStatus, World.writeCtx, World.write]

section Whole

variable {dynoc : Dynoc} {slot : Slot} {world after : World}

/-- A statement of an attempt that is not the last leaves the rest of the attempt. -/
theorem attempt_next {frame : AttemptFrame} {point next : AttemptPoint}
    (h : attemptStatement frame slot world point = (.inr next, after)) :
    (sections dynoc).run slot (.attempt frame point) world =
      (sections dynoc).run slot (.attempt frame next) after := by
  refine Sections.run_next ?_
  show Point.statement slot (.attempt frame point) world = _
  simp only [Point.statement, h, Sum.map_inr]

/-- The last statement of an attempt releases the lock. -/
theorem attempt_unlock (frame : AttemptFrame) (result : Option Returned) :
    (sections dynoc).run slot (.attempt frame (.unlock result)) world =
      (.command (frame.outcome result), world.unlock slot) :=
  Sections.run_leave rfl

variable (dynoc slot world) in
/-- All statements of a command's section make an attempt. -/
theorem attempt_statements (frame : AttemptFrame) :
    (sections dynoc).run slot (.attempt frame .test) (world.lock slot) =
      (.command (frame.outcome (attempt frame.command.kind frame.command.request world slot
          frame.answer).1),
        (attempt frame.command.kind frame.command.request world slot frame.answer).2) := by
  cases hstatus : (world.conn slot).status with
  | invalid =>
      have htest : attemptStatement frame slot (world.lock slot) .test =
          (.inr (.unlock none), world.lock slot) := by
        simp [attemptStatement, hstatus]
      rw [attempt_next htest, attempt_unlock, attempt_invalid hstatus]
  | valid =>
      have htest : attemptStatement frame slot (world.lock slot) .test =
          (.inr .send, world.lock slot) := by
        simp [attemptStatement, hstatus]
      rcases hcommand : (world.lock slot).redisCommand slot (world.conn slot).ctx
        frame.command.request frame.answer with ⟨reply, sent⟩
      have hsend : attemptStatement frame slot (world.lock slot) .send =
          (.inr (.judge reply), sent) := by
        simp [attemptStatement, hcommand]
      rw [attempt_next htest, attempt_next hsend]
      cases haccepted : frame.answer.accepted with
      | true =>
          cases hkind : frame.command.kind with
          | code =>
              have hjudge : attemptStatement frame slot sent (.judge reply) =
                  (.inr (.freeAccepted reply), sent) := by
                simp [attemptStatement, haccepted, hkind]
              rw [attempt_next hjudge, attempt_next rfl, attempt_unlock]
              simp [attempt, hstatus, haccepted, hcommand, ReturnKind.succeeded]
          | reply =>
              have hjudge : attemptStatement frame slot sent (.judge reply) =
                  (.inr (.unlock (some (.reply reply))), sent) := by
                simp [attemptStatement, haccepted, hkind]
              rw [attempt_next hjudge, attempt_unlock]
              simp [attempt, hstatus, haccepted, hcommand, ReturnKind.succeeded]
      | false =>
          have hjudge : attemptStatement frame slot sent (.judge reply) =
              (.inr (.freeRefused reply), sent) := by
            simp [attemptStatement, haccepted]
          rw [attempt_next hjudge, attempt_next rfl, attempt_next rfl, attempt_next rfl,
            attempt_next rfl, attempt_unlock, reset_statements]
          simp [attempt, hstatus, haccepted, hcommand, resetRedisConnection]

/-- A statement of a turn that is not the last leaves the rest of the turn. -/
theorem reconnect_next {frame reached : ReconnectFrame} {point next : ReconnectPoint}
    (h : reconnectStatement frame slot world point = (.inr (reached, next), after)) :
    (sections dynoc).run slot (.reconnect frame point) world =
      (sections dynoc).run slot (.reconnect reached next) after := by
  refine Sections.run_next ?_
  show Point.statement slot (.reconnect frame point) world = _
  simp only [Point.statement, h, Sum.map_inr]

/-- The last statement of a turn releases the lock. -/
theorem reconnect_unlock (frame : ReconnectFrame) :
    (sections dynoc).run slot (.reconnect frame .unlock) world =
      (.pass { targets := frame.targets, status := frame.status }, world.unlock slot) :=
  Sections.run_leave rfl

/-- The statements up to the second test make the `PING`. -/
theorem ping_statements (frame : ReconnectFrame) :
    (sections dynoc).run slot (.reconnect frame .test) world =
      (sections dynoc).run slot (.reconnect frame .retest)
        (pingSlot world slot frame.outcome.ping) := by
  cases hstatus : (world.conn slot).status with
  | invalid =>
      have htest : reconnectStatement frame slot world .test = (.inr (frame, .retest), world) := by
        simp [reconnectStatement, hstatus]
      rw [reconnect_next htest, ping_slot_invalid hstatus]
  | valid =>
      have htest : reconnectStatement frame slot world .test = (.inr (frame, .ping), world) := by
        simp [reconnectStatement, hstatus]
      rw [reconnect_next htest]
      rcases hcommand : world.redisCommand slot (world.conn slot).ctx .ping frame.outcome.ping
        with ⟨_ | reply, sent⟩
      · have hping : reconnectStatement frame slot world .ping =
            (.inr (frame, .lostStatus), sent) := by
          simp [reconnectStatement, hcommand]
        rw [reconnect_next hping, reconnect_next rfl, reconnect_next rfl, reconnect_next rfl,
          reset_statements]
        have hconn : sent.conn = world.conn := by
          simpa [hcommand] using
            world.redis_command_conn slot (world.conn slot).ctx .ping frame.outcome.ping
        simp only [pingSlot, hstatus, hcommand, hconn]
      · have hping : reconnectStatement frame slot world .ping =
            (.inr (frame, .freePing (some reply)), sent) := by
          simp [reconnectStatement, hcommand]
        rw [reconnect_next hping, reconnect_next rfl]
        simp only [pingSlot, hstatus, hcommand]

/-- The statements from the connect on open a connection. -/
theorem dial_statements (frame : ReconnectFrame) :
    (sections dynoc).run slot (.reconnect frame .connect) world =
      (.pass { targets := frame.targets
               status := (dial world slot frame.endpoint frame.outcome.dial frame.status).1 },
        (dial world slot frame.endpoint frame.outcome.dial frame.status).2.unlock slot) := by
  rcases hconnected : world.redisConnect slot frame.endpoint frame.outcome.dial.connect with
    ⟨ctx, reached⟩
  cases hconnect : frame.outcome.dial.connect with
  | null | err =>
      rw [hconnect] at hconnected
      have hpoint : reconnectStatement frame slot world .connect =
          (.inr (frame, .freeConnect ctx), reached) := by
        simp [reconnectStatement, hconnect, hconnected]
      rw [reconnect_next hpoint, reconnect_next rfl, reconnect_unlock]
      simp [dial, hconnect, hconnected]
  | connected =>
      rw [hconnect] at hconnected
      cases hpass : frame.endpoint.pass with
      | none =>
          have hpoint : reconnectStatement frame slot world .connect =
              (.inr (frame, .storeStatus ctx), reached) := by
            simp [reconnectStatement, hconnect, hconnected, hpass]
          rw [reconnect_next hpoint, reconnect_next rfl, reconnect_next rfl, reconnect_unlock,
            store_statements]
          simp [dial, hconnect, hconnected, hpass]
      | some pass =>
          have hpoint : reconnectStatement frame slot world .connect =
              (.inr (frame, .auth ctx pass), reached) := by
            simp [reconnectStatement, hconnect, hconnected, hpass]
          rcases hcommand : reached.redisCommand slot ctx (.auth pass) frame.outcome.dial.auth
            with ⟨reply, sent⟩
          rw [reconnect_next hpoint]
          cases haccepted : frame.outcome.dial.auth.accepted with
          | true =>
              have hauth : reconnectStatement frame slot reached (.auth ctx pass) =
                  (.inr ({ frame with status := .valid }, .storeStatus ctx), sent) := by
                simp [reconnectStatement, hcommand, haccepted]
              rw [reconnect_next hauth, reconnect_next rfl, reconnect_next rfl, reconnect_unlock,
                store_statements]
              simp [dial, hconnect, hconnected, hpass, hcommand, haccepted]
          | false =>
              have hauth : reconnectStatement frame slot reached (.auth ctx pass) =
                  (.inr ({ frame with status := .invalid }, .freeAuth ctx reply), sent) := by
                simp [reconnectStatement, hcommand, haccepted]
              rw [reconnect_next hauth, reconnect_next rfl, reconnect_next rfl,
                reconnect_next rfl, reconnect_unlock, store_statements]
              simp [dial, hconnect, hconnected, hpass, hcommand, haccepted]

variable (dynoc slot world) in
/-- All statements of a pass's section make its turn. -/
theorem reconnect_statements (frame : ReconnectFrame) :
    (sections dynoc).run slot (.reconnect frame .test) (world.lock slot) =
      (.pass { targets := frame.targets
               status := (reconnectSlot world slot frame.endpoint frame.outcome frame.status).1 },
        (reconnectSlot world slot frame.endpoint frame.outcome frame.status).2) := by
  rw [ping_statements]
  cases hstatus : ((pingSlot (world.lock slot) slot frame.outcome.ping).conn slot).status with
  | invalid =>
      have hretest : reconnectStatement frame slot
          (pingSlot (world.lock slot) slot frame.outcome.ping) .retest =
            (.inr (frame, .connect), pingSlot (world.lock slot) slot frame.outcome.ping) := by
        simp [reconnectStatement, hstatus]
      rw [reconnect_next hretest, dial_statements]
      simp only [reconnectSlot, hstatus]
  | valid =>
      have hretest : reconnectStatement frame slot
          (pingSlot (world.lock slot) slot frame.outcome.ping) .retest =
            (.inr (frame, .unlock), pingSlot (world.lock slot) slot frame.outcome.ping) := by
        simp [reconnectStatement, hstatus]
      rw [reconnect_next hretest, reconnect_unlock]
      simp only [reconnectSlot, hstatus]

end Whole

/-! ## A section keeps to its slot -/

section Locality

variable {slot : Slot} {first second : World}

/-- Equal views show the same status. -/
theorem view_eq_status (h : first.view slot = second.view slot) :
    (first.conn slot).status = (second.conn slot).status :=
  congrArg (fun view : SlotView => view.redisConn.status) h

/-- Equal views agree on whether there is a context. -/
theorem view_eq_ctx (h : first.view slot = second.view slot) :
    anonymousCtx (first.conn slot).ctx = anonymousCtx (second.conn slot).ctx :=
  congrArg (fun view : SlotView => view.redisConn.ctx) h

/-- What a statement of a command does to the view of its slot, and where it goes, depends on this
view and on no number. -/
theorem attempt_statement_anonymous (frame : AttemptFrame) (point : AttemptPoint)
    (h : first.view slot = second.view slot) :
    (attemptStatement frame slot first point).1.map CommandThread.anonymous
          AttemptPoint.anonymous =
        (attemptStatement frame slot second point.anonymous).1.map CommandThread.anonymous
          AttemptPoint.anonymous ∧
      (attemptStatement frame slot first point).2.view slot =
        (attemptStatement frame slot second point.anonymous).2.view slot := by
  have hstatus := view_eq_status h
  have hctx := view_eq_ctx h
  cases point with
  | test =>
      simp only [attemptStatement, AttemptPoint.anonymous, hstatus]
      cases (second.conn slot).status <;> exact ⟨rfl, h⟩
  | send => simp [attemptStatement, AttemptPoint.anonymous, h, hctx]
  | judge reply =>
      simp only [attemptStatement, AttemptPoint.anonymous]
      split
      · split <;> simp [AttemptPoint.anonymous, Returned.anonymous, h]
      · simp [AttemptPoint.anonymous, h]
  | freeAccepted reply | freeRefused reply =>
      cases reply <;> simp [attemptStatement, AttemptPoint.anonymous, h]
  | resetStatus | resetCtx => simp [attemptStatement, AttemptPoint.anonymous, h]
  | resetFree => simp [attemptStatement, AttemptPoint.anonymous, h, hctx]
  | unlock result =>
      rcases result with _ | ⟨value | reply⟩
      all_goals
        simp [attemptStatement, AttemptPoint.anonymous, AttemptFrame.outcome,
          CommandThread.anonymous, Returned.anonymous, h]

/-- The same for a pass. -/
theorem reconnect_statement_anonymous (frame : ReconnectFrame) (point : ReconnectPoint)
    (h : first.view slot = second.view slot) :
    (reconnectStatement frame slot first point).1.map id
          (Prod.map id ReconnectPoint.anonymous) =
        (reconnectStatement frame slot second point.anonymous).1.map id
          (Prod.map id ReconnectPoint.anonymous) ∧
      (reconnectStatement frame slot first point).2.view slot =
        (reconnectStatement frame slot second point.anonymous).2.view slot := by
  have hstatus := view_eq_status h
  have hctx := view_eq_ctx h
  cases point with
  | test | retest =>
      simp only [reconnectStatement, ReconnectPoint.anonymous, hstatus]
      cases (second.conn slot).status <;> exact ⟨rfl, h⟩
  | ping =>
      have hview : (first.redisCommand slot (first.conn slot).ctx .ping frame.outcome.ping).2.view
          slot = (second.redisCommand slot (second.conn slot).ctx .ping
            frame.outcome.ping).2.view slot := by
        simp [h, hctx]
      simp only [reconnectStatement, ReconnectPoint.anonymous]
      cases hreply : frame.outcome.ping.reply with
      | none =>
          simp only [World.redisCommand, hreply] at hview ⊢
          exact ⟨trivial, hview⟩
      | some type =>
          simp only [World.redisCommand, hreply] at hview ⊢
          refine ⟨?_, hview⟩
          simp [ReconnectPoint.anonymous, Reply.anonymous]
  | freePing reply | freeAuth _ reply =>
      cases reply <;> simp [reconnectStatement, ReconnectPoint.anonymous, h]
  | lostStatus | lostCtx | storeStatus =>
      simp [reconnectStatement, ReconnectPoint.anonymous, h]
  | lostFree => simp [reconnectStatement, ReconnectPoint.anonymous, h, hctx]
  | connect =>
      simp only [reconnectStatement, ReconnectPoint.anonymous]
      cases frame.outcome.dial.connect <;> cases frame.endpoint.pass <;>
        simp [ReconnectPoint.anonymous, h]
  | freeConnect ctx => cases ctx <;> simp [reconnectStatement, ReconnectPoint.anonymous, h]
  | auth ctx pass =>
      simp only [reconnectStatement, ReconnectPoint.anonymous]
      split <;> simp [ReconnectPoint.anonymous, h]
  | storeCtx ctx => simp [reconnectStatement, ReconnectPoint.anonymous, h]
  | unlock => simp [reconnectStatement, ReconnectPoint.anonymous, h]

variable {other : Slot} (hother : other ≠ slot)
include hother

/-- A statement of a command changes no other view. -/
theorem attempt_statement_other (frame : AttemptFrame) (world : World) (point : AttemptPoint) :
    (attemptStatement frame slot world point).2.view other = world.view other := by
  cases point with
  | test =>
      simp only [attemptStatement]
      split <;> rfl
  | send => exact world.view_redis_command_other hother _ _ _
  | judge reply =>
      simp only [attemptStatement]
      split
      · split <;> rfl
      · rfl
  | freeAccepted reply | freeRefused reply => exact world.view_free_reply_other hother reply
  | resetStatus | resetCtx => exact world.view_write_other hother _
  | resetFree => exact world.view_redis_free_other hother _
  | unlock result => exact world.view_emit_other hother _

/-- Nor does one of a pass. -/
theorem reconnect_statement_other (frame : ReconnectFrame) (world : World)
    (point : ReconnectPoint) :
    (reconnectStatement frame slot world point).2.view other = world.view other := by
  cases point with
  | test | retest =>
      simp only [reconnectStatement]
      split <;> rfl
  | ping =>
      have hsent := world.view_redis_command_other hother (world.conn slot).ctx .ping
        frame.outcome.ping
      simp only [reconnectStatement]
      split <;> exact hsent
  | freePing reply | freeAuth _ reply => exact world.view_free_reply_other hother reply
  | lostStatus | lostCtx | storeStatus | storeCtx => exact world.view_write_other hother _
  | lostFree | freeConnect => exact world.view_redis_free_other hother _
  | connect =>
      have hconnected := world.view_redis_connect_other hother frame.endpoint
        frame.outcome.dial.connect
      simp only [reconnectStatement]
      split <;> exact hconnected
  | auth ctx pass =>
      have hsent := world.view_redis_command_other hother ctx (.auth pass) frame.outcome.dial.auth
      simp only [reconnectStatement]
      split <;> exact hsent
  | unlock => exact world.view_emit_other hother _

end Locality

/-- What a statement does to the view of its slot depends on this view and on no number. -/
theorem statement_anonymous {slot : Slot} {first second : World} (point : Point)
    (h : first.view slot = second.view slot) :
    (point.statement slot first).1.map Thread.anonymous Point.anonymous =
        (point.anonymous.statement slot second).1.map Thread.anonymous Point.anonymous ∧
      (point.statement slot first).2.view slot =
        (point.anonymous.statement slot second).2.view slot := by
  cases point with
  | attempt frame point =>
      obtain ⟨hnext, hview⟩ := attempt_statement_anonymous frame point h
      refine ⟨?_, hview⟩
      have hmap := congrArg (Sum.map Thread.command (Point.attempt frame)) hnext
      rw [Sum.map_map, Sum.map_map] at hmap
      show Sum.map _ _ (Sum.map _ _ _) = Sum.map _ _ (Sum.map _ _ _)
      rw [Sum.map_map, Sum.map_map]
      exact hmap
  | reconnect frame point =>
      obtain ⟨hnext, hview⟩ := reconnect_statement_anonymous frame point h
      refine ⟨?_, hview⟩
      have hmap := congrArg (Sum.map Thread.pass fun next : ReconnectFrame × ReconnectPoint =>
        Point.reconnect next.1 next.2) hnext
      rw [Sum.map_map, Sum.map_map] at hmap
      show Sum.map _ _ (Sum.map _ _ _) = Sum.map _ _ (Sum.map _ _ _)
      rw [Sum.map_map, Sum.map_map]
      exact hmap

/-- Two threads that differ in numbers only go to the same slot. -/
theorem enter_section_anonymous (dynoc : Dynoc) (thread : Thread) (met : Met) :
    (enterSection dynoc thread met).map (Sum.map Thread.anonymous (Prod.map id Point.anonymous)) =
      (enterSection dynoc thread.anonymous met).map
        (Sum.map Thread.anonymous (Prod.map id Point.anonymous)) := by
  rcases thread with (_ | _) | _ <;> cases met <;> rfl

/-- The view of a slot is all that its lock protects, numbers apart. -/
def sectionsLocal (dynoc : Dynoc) : Local (sections dynoc) SlotView Thread Point where
  cell := World.view
  thread := Thread.anonymous
  point := Point.anonymous
  enter_congr := by
    intro first second h met
    show (enterSection dynoc first met).map _ = (enterSection dynoc second met).map _
    rw [enter_section_anonymous dynoc first, h, ← enter_section_anonymous dynoc second]
  acquire_congr := by
    intro first second slot h
    show (first.lock slot).view slot = (second.lock slot).view slot
    rw [World.view_lock, World.view_lock, h]
  acquire_other := fun hother => World.view_emit_other _ hother _
  statement_congr := by
    intro slot here there first second hpoint h
    obtain ⟨hnext, hview⟩ := statement_anonymous here h
    obtain ⟨hnext', hview'⟩ := statement_anonymous there (rfl : second.view slot = _)
    rw [hpoint] at hnext hview
    exact ⟨hnext.trans hnext'.symm, hview.trans hview'.symm⟩
  statement_other := by
    intro slot here world other hother
    cases here with
    | attempt frame point => exact attempt_statement_other hother frame world point
    | reconnect frame point => exact reconnect_statement_other hother frame world point

end DynocClient
