import DynocClient.System.Usable

/-!
# What becomes of the replies

Every critical section frees the reply it gets, or hands it to the caller of `dynoc_get` or
`dynoc_hget`, with one exception: the reply to an accepted `AUTH` is neither freed nor handed on.
`replies_settled_iff` says that this is the only way to lose one.
-/

namespace DynocClient

open Lib

/-! ## The critical sections -/

/-- No reply was obtained, or one was and it was freed. -/
def World.Clears (world other : World) : Prop :=
  other.replies = world.replies ∨
    other.replies = world.replies.acquire.release world.replies.issued

/-- What frees the reply it obtains keeps the replies settled. -/
theorem World.Clears.settled {world other : World} (h : world.Clears other) {passed : List Nat} :
    other.replies.Settled passed ↔ world.replies.Settled passed := by
  rcases h with h | h
  · rw [h]
  · rw [h, Ledger.settled_bounce]

/-- An `AUTH` is sent on a new connection and accepted. -/
def AuthAccepted (endpoint : Endpoint) (outcome : Dial) : Prop :=
  outcome.connect = .connected ∧ endpoint.pass ≠ none ∧ outcome.auth.accepted = true

instance (endpoint : Endpoint) (outcome : Dial) : Decidable (AuthAccepted endpoint outcome) :=
  inferInstanceAs (Decidable (_ ∧ _ ∧ _))

section Sections

variable (world : World) (slot : Slot)

/-- A reply that is freed where it was obtained. -/
theorem command_free_clears (ctx : Option Ctx) (request : Request) (answer : Answer) :
    world.Clears ((world.redisCommand slot ctx request answer).2.freeReply slot
      (world.redisCommand slot ctx request answer).1) := by
  unfold World.redisCommand
  cases answer.reply with
  | none => exact .inl rfl
  | some type => exact .inr rfl

/-- A turn of a command frees the reply, or returns it where the command returns replies. -/
theorem attempt_replies (kind : ReturnKind) (request : Request) (answer : Answer) :
    world.Clears (attempt kind request world slot answer).2 ∧
        (∀ reply, (attempt kind request world slot answer).1 ≠ some (.reply (some reply))) ∨
      (attempt kind request world slot answer).2.replies = world.replies.acquire ∧
        (attempt kind request world slot answer).1 =
          some (.reply (some ⟨world.replies.issued, .data⟩)) ∧
        kind = .reply := by
  have hclears := command_free_clears (world.lock slot) slot (world.conn slot).ctx request answer
  cases hstatus : (world.conn slot).status with
  | invalid =>
      rw [attempt_invalid hstatus]
      exact .inl ⟨.inl rfl, nofun⟩
  | valid =>
      cases haccepted : answer.accepted with
      | false =>
          refine .inl ⟨?_, ?_⟩
          · simpa [attempt, hstatus, haccepted, resetRedisConnection, World.Clears] using hclears
          · simp [attempt, hstatus, haccepted]
      | true =>
          have hresult := attempt_accepted kind request hstatus haccepted
          cases kind with
          | code =>
              refine .inl ⟨?_, ?_⟩
              · simpa [attempt, hstatus, haccepted, World.Clears] using hclears
              · simp [hresult, ReturnKind.succeeded]
          | reply =>
              refine .inr ⟨?_, hresult, rfl⟩
              have hreply : answer.reply = some .data := by
                simp only [Answer.accepted, Bool.and_eq_true, decide_eq_true_eq] at haccepted
                exact haccepted.1
              simp [attempt, hstatus, haccepted, World.redisCommand, hreply]

/-- The `PING` of a pass frees its reply. -/
theorem ping_slot_clears (answer : Answer) : world.Clears (pingSlot world slot answer) := by
  have hclears := command_free_clears world slot (world.conn slot).ctx .ping answer
  cases hstatus : (world.conn slot).status with
  | invalid =>
      rw [ping_slot_invalid hstatus]
      exact .inl rfl
  | valid =>
      cases hreply : answer.reply with
      | none => exact .inl (by rw [ping_slot_lost hstatus hreply]; simp)
      | some type => simpa [pingSlot, hstatus, World.redisCommand, hreply] using hclears

/-- A dial keeps the reply to an accepted `AUTH` and frees any other. -/
theorem dial_replies (endpoint : Endpoint) (outcome : Dial) (status : Status) :
    if AuthAccepted endpoint outcome then
      (dial world slot endpoint outcome status).2.replies = world.replies.acquire
    else world.Clears (dial world slot endpoint outcome status).2 := by
  cases hconnect : outcome.connect with
  | null | err =>
      rw [if_neg (fun h => absurd h.1 (by simp [hconnect]))]
      exact .inl (by simp [dial, hconnect])
  | connected =>
      cases hpass : endpoint.pass with
      | none =>
          rw [if_neg (fun h => h.2.1 hpass)]
          exact .inl (by simp [dial, hconnect, hpass])
      | some pass =>
          cases haccepted : outcome.auth.accepted with
          | true =>
              have hreply : outcome.auth.reply = some .data := by
                simp only [Answer.accepted, Bool.and_eq_true, decide_eq_true_eq] at haccepted
                exact haccepted.1
              rw [if_pos ⟨hconnect, by simp [hpass], haccepted⟩]
              simp [dial, hconnect, hpass, haccepted, World.redisCommand, hreply]
          | false =>
              rw [if_neg (fun h => absurd h.2.2 (by simp [haccepted]))]
              have hclears := command_free_clears
                (world.redisConnect slot endpoint .connected).2 slot
                (world.redisConnect slot endpoint .connected).1 (.auth pass) outcome.auth
              simpa [dial, hconnect, hpass, haccepted, World.Clears] using hclears

end Sections

/-! ## The whole run -/

/-- The reply that a command has returned, if any. -/
def CommandThread.passedOn : CommandThread → Option Nat
  | .returned _ (.reply (some reply)) => some reply.id
  | _ => none

/-- The replies that commands have returned. -/
def System.passedOn (system : System) : List Nat :=
  system.commands.filterMap CommandThread.passedOn

/-- Every reply obtained so far was freed once or returned once, and none was both; and only
`dynoc_get` and `dynoc_hget` return replies. -/
structure RepliesSettled (system : System) : Prop where
  settled : system.world.replies.Settled system.passedOn
  getters : ∀ command reply, .returned command (.reply (some reply)) ∈ system.commands →
    command.kind = .reply

/-- No turn of a pass opens a connection on which `AUTH` is accepted. -/
def TurnsFree (system : System) : Move → Prop
  | .turn pass outcome =>
      ∀ running ∈ system.passes[pass]?, ∀ target ∈ running.targets.head?,
        ¬ Alive system.world target.1 outcome.ping → ¬ AuthAccepted target.2 outcome.dial
  | _ => True

instance (system : System) : (move : Move) → Decidable (TurnsFree system move)
  | .turn pass outcome =>
      inferInstanceAs (Decidable (∀ running ∈ system.passes[pass]?,
        ∀ target ∈ running.targets.head?,
          ¬ Alive system.world target.1 outcome.ping → ¬ AuthAccepted target.2 outcome.dial))
  | .call _ | .attempt _ _ | .reconnect _ => isTrue trivial

section Steps

variable {dynoc : Dynoc} {system next : System}

/-- What a turn of a command does with its reply. -/
theorem command_turn_replies {command : Command} {cursor : Cursor} {answer : Answer}
    {world final : World} {thread : CommandThread}
    (h : commandTurn dynoc command cursor answer world = some (thread, final)) :
    world.Clears final ∧ thread.passedOn = none ∨
      final.replies = world.replies.acquire ∧ thread.passedOn = some world.replies.issued ∧
        command.kind = .reply ∧ ∃ result, thread = .returned command result := by
  unfold commandTurn at h
  cases hselect : selectConnection dynoc command.key cursor with
  | error fault => simp [hselect] at h
  | ok result =>
      obtain ⟨_ | slot, after⟩ := result
      · simp only [hselect, Option.some.injEq, Prod.mk.injEq] at h
        obtain ⟨rfl, rfl⟩ := h
        refine .inl ⟨.inl rfl, ?_⟩
        cases command.kind <;> rfl
      · have hreplies := attempt_replies world slot command.kind command.request answer
        rcases hattempt : attempt command.kind command.request world slot answer with
          ⟨_ | result, reached⟩
        all_goals
          simp only [hselect, hattempt, Option.some.injEq, Prod.mk.injEq] at h
          obtain ⟨rfl, rfl⟩ := h
          rw [hattempt] at hreplies
        · exact .inl ⟨(hreplies.resolve_right (fun h => nomatch h.2.1)).1, rfl⟩
        · rcases hreplies with ⟨hclears, hresult⟩ | ⟨hacquired, hresult, hkind⟩
          · refine .inl ⟨hclears, ?_⟩
            cases result with
            | code value => rfl
            | reply reply =>
                cases reply with
                | none => rfl
                | some reply => exact absurd rfl (hresult reply)
          · obtain rfl := Option.some.inj hresult
            exact .inr ⟨hacquired, rfl, hkind, _, rfl⟩

/-- What a turn of a pass does with its replies. -/
theorem reconnect_slot_replies (world : World) (slot : Slot) (endpoint : Endpoint)
    (outcome : Reconnect) (status : Status) {passed : List Nat}
    (h : world.replies.Settled passed) :
    (reconnectSlot world slot endpoint outcome status).2.replies.Settled passed ↔
      (¬ Alive world slot outcome.ping → ¬ AuthAccepted endpoint outcome.dial) := by
  have hping : (pingSlot (world.lock slot) slot outcome.ping).replies.Settled passed :=
    (ping_slot_clears (world.lock slot) slot outcome.ping).settled.mpr h
  by_cases halive : Alive world slot outcome.ping
  · rw [reconnect_slot_alive halive]
    simp only [halive, not_true, false_implies, iff_true]
    exact hping
  · rw [reconnect_slot_dial halive]
    simp only [halive, not_false_eq_true, true_implies]
    have hdial := dial_replies (pingSlot (world.lock slot) slot outcome.ping) slot endpoint
      outcome.dial status
    by_cases haccepted : AuthAccepted endpoint outcome.dial
    · rw [if_pos haccepted] at hdial
      refine iff_of_false ?_ (not_not.mpr haccepted)
      rw [World.unlock_replies, hdial]
      exact Ledger.not_settled_acquire hping.length.le
    · rw [if_neg haccepted] at hdial
      exact iff_of_true (hdial.settled.mpr hping) haccepted

/-- Where a thread that has returned nothing takes its turn, its reply joins those returned. -/
theorem passed_on_set {threads : List CommandThread} {thread : Nat} {before : CommandThread}
    (hthread : threads[thread]? = some before) (hnone : before.passedOn = none)
    (after : CommandThread) :
    ((threads.set thread after).filterMap CommandThread.passedOn).Perm
      (threads.filterMap CommandThread.passedOn ++ after.passedOn.toList) := by
  obtain ⟨hlt, rfl⟩ := List.getElem?_eq_some_iff.mp hthread
  have hthreads : threads.filterMap CommandThread.passedOn =
      (threads.take thread).filterMap CommandThread.passedOn ++
        (threads.drop (thread + 1)).filterMap CommandThread.passedOn := by
    conv => lhs; rw [← List.take_append_drop thread threads, List.drop_eq_getElem_cons hlt]
    rw [List.filterMap_append, List.filterMap_cons_none hnone]
  rw [List.set_eq_take_append_cons_drop, if_pos hlt, List.filterMap_append, hthreads]
  cases hafter : after.passedOn with
  | none => rw [List.filterMap_cons_none hafter, Option.toList_none, List.append_nil]
  | some reply =>
      rw [List.filterMap_cons_some hafter, List.append_assoc]
      exact (List.perm_append_singleton _ _).symm.append_left _

/-- A new command has no reply to free. -/
theorem RepliesSettled.call (h : RepliesSettled system) (command : Command) :
    RepliesSettled { system with commands := system.commands ++ [.running command .start] } := by
  refine ⟨?_, fun command' reply hmem => ?_⟩
  · have hpassed : System.passedOn { system with
        commands := system.commands ++ [.running command .start] } = system.passedOn := by
      simp [System.passedOn, CommandThread.passedOn]
    rw [hpassed]
    exact h.settled
  · exact h.getters command' reply (by simpa using hmem)

/-- A turn of a command frees its reply or returns it. -/
theorem RepliesSettled.attempt (h : RepliesSettled system) {thread : Nat} {answer : Answer}
    (hstep : systemStep dynoc system (.attempt thread answer) = some next) :
    RepliesSettled next := by
  obtain ⟨command, cursor, after, final, hthread, hturn, rfl⟩ := system_step_attempt hstep
  have hperm := passed_on_set hthread rfl after
  rcases command_turn_replies hturn with ⟨hclears, hnone⟩ | ⟨hacquired, hpassed, hkind, result, rfl⟩
  · rw [hnone, Option.toList_none, List.append_nil] at hperm
    refine ⟨(hclears.settled.mpr h.settled).perm hperm, fun command' reply hmem => ?_⟩
    rcases List.mem_or_eq_of_mem_set hmem with hold | rfl
    · exact h.getters command' reply hold
    · cases hnone
  · rw [hpassed, Option.toList_some] at hperm
    refine ⟨?_, fun command' reply hmem => ?_⟩
    · show final.replies.Settled _
      rw [hacquired]
      exact h.settled.pass.perm hperm
    · rcases List.mem_or_eq_of_mem_set hmem with hold | heq
      · exact h.getters command' reply hold
      · obtain ⟨rfl, -⟩ := CommandThread.returned.inj heq
        exact hkind

/-- A move settles its replies exactly if it opens no connection on which `AUTH` is accepted. -/
theorem replies_step_iff (h : RepliesSettled system) (move : Move) :
    TurnsFree system move ↔
      ∀ next, systemStep dynoc system move = some next → RepliesSettled next := by
  constructor
  · intro hfree next hstep
    cases move with
    | call command =>
        obtain rfl := Option.some.inj hstep
        exact h.call command
    | attempt thread answer => exact h.attempt hstep
    | reconnect dcType =>
        obtain ⟨dc, -, rfl⟩ := Option.map_eq_some_iff.mp hstep
        exact ⟨h.settled, h.getters⟩
    | turn pass outcome =>
        rcases system_step_cases hstep with ⟨-, -, hmove⟩ | ⟨_, _, _, _, _, _, hmove, -⟩ |
          ⟨_, _, slot, endpoint, targets, status, hmove, hpass, hworld, -⟩
        · exact absurd rfl (hmove pass outcome)
        · cases hmove
        · obtain ⟨rfl, rfl⟩ := Move.turn.inj hmove
          have hsettled := (reconnect_slot_replies system.world slot endpoint outcome status
            h.settled).mpr (hfree _ hpass _ rfl)
          rw [system_step_turn outcome hpass] at hstep
          obtain rfl := Option.some.inj hstep
          exact ⟨hsettled, h.getters⟩
  · intro hnext
    cases move with
    | call | attempt | reconnect => exact trivial
    | turn pass outcome =>
        intro running hrunning target htarget
        obtain ⟨targets, status⟩ := running
        obtain ⟨rest, rfl⟩ : ∃ rest, targets = target :: rest :=
          List.head?_eq_some_iff.mp htarget
        have hpass : system.passes[pass]? = some ⟨target :: rest, status⟩ := hrunning
        exact (reconnect_slot_replies system.world target.1 target.2 outcome status
          h.settled).mp (hnext _ (system_step_turn outcome hpass)).settled

end Steps

/-- `dynoc_start` settles its replies exactly if it opens no connection on which `AUTH` is
accepted. -/
theorem start_settled_iff (hashAlgos : HashType → HashFunc) (qsort : Qsort Continuum)
    (dials : Slot → Dial) (client : Client) :
    (dynocStart hashAlgos qsort dials client).2.replies.Settled [] ↔
      ∀ target ∈ (dynocStart hashAlgos qsort dials client).1.poolTargets .localDc ++
          (dynocStart hashAlgos qsort dials client).1.poolTargets .remoteDc,
        ¬ AuthAccepted target.2 (dials target.1) := by
  let targets := (dynocStart hashAlgos qsort dials client).1.poolTargets .localDc ++
    (dynocStart hashAlgos qsort dials client).1.poolTargets .remoteDc
  -- of the slots dialled so far none has seen its `AUTH` accepted, or a reply is lost for good
  let K (rest : List (Slot × Endpoint)) (world : World) : Prop :=
    ∃ before, before ++ rest = targets ∧ world.replies.released.length ≤ world.replies.issued ∧
      (world.replies.Settled [] ↔ ∀ target ∈ before, ¬ AuthAccepted target.2 (dials target.1))
  have hdial : ∀ slot endpoint status rest world, K ((slot, endpoint) :: rest) world →
      K rest (dial world slot endpoint (dials slot) status).2 := by
    intro slot endpoint status rest world hK
    obtain ⟨before, hsplit, hle, hsettled⟩ := hK
    refine ⟨before ++ [(slot, endpoint)], by rw [← hsplit, List.append_assoc]; rfl, ?_⟩
    have hreplies := dial_replies world slot endpoint (dials slot) status
    by_cases haccepted : AuthAccepted endpoint (dials slot)
    · rw [if_pos haccepted] at hreplies
      rw [hreplies]
      refine ⟨Nat.le_succ_of_le hle, iff_of_false (Ledger.not_settled_acquire hle) fun h => ?_⟩
      exact h (slot, endpoint) (List.mem_append_right _ List.mem_cons_self) haccepted
    · rw [if_neg haccepted] at hreplies
      refine ⟨?_, ?_⟩
      · rcases hreplies with hreplies | hreplies
        · rw [hreplies]
          exact hle
        · rw [hreplies]
          exact Nat.succ_le_succ hle
      · rw [hreplies.settled, hsettled]
        simp [or_imp, forall_and, haccepted]
  have hstart : K targets (.initial client.conn) :=
    ⟨[], rfl, Nat.le_refl _, iff_of_true Ledger.settled_empty fun _ h => absurd h List.not_mem_nil⟩
  obtain ⟨before, hsplit, -, hsettled⟩ :=
    dynoc_start_rule (K := K) hdial hashAlgos qsort client hstart
  rw [List.append_nil] at hsplit
  rw [hsettled, hsplit]

/-- In every run of commands and reconnect passes from `dynoc_start`, in any order and whatever
they meet: every reply is freed once or returned once by `dynoc_get` or `dynoc_hget`, if and only
if neither `dynoc_start` nor a turn of a pass opens a connection on which `AUTH` is accepted. -/
theorem replies_settled_iff (hashAlgos : HashType → HashFunc) (qsort : Qsort Continuum)
    (dials : Slot → Dial) (client : Client) (moves : List Move) :
    Throughout (systemStep (dynocStart hashAlgos qsort dials client).1) RepliesSettled
        (.start (dynocStart hashAlgos qsort dials client).2) moves ↔
      (∀ target ∈ (dynocStart hashAlgos qsort dials client).1.poolTargets .localDc ++
          (dynocStart hashAlgos qsort dials client).1.poolTargets .remoteDc,
        ¬ AuthAccepted target.2 (dials target.1)) ∧
      EachStep (systemStep (dynocStart hashAlgos qsort dials client).1) TurnsFree
        (.start (dynocStart hashAlgos qsort dials client).2) moves := by
  rw [← start_settled_iff]
  have hrun (hstart : RepliesSettled (.start (dynocStart hashAlgos qsort dials client).2)) :
      Throughout (systemStep (dynocStart hashAlgos qsort dials client).1) RepliesSettled
          (.start (dynocStart hashAlgos qsort dials client).2) moves ↔
        EachStep (systemStep (dynocStart hashAlgos qsort dials client).1) TurnsFree
          (.start (dynocStart hashAlgos qsort dials client).2) moves :=
    throughout_iff_each_step (I := fun _ => True) (D := fun _ _ => True)
      (fun _ _ _ _ _ _ _ => trivial) (fun _ move _ hsettled _ => replies_step_iff hsettled move)
      trivial hstart (each_step_of_forall (fun _ _ => trivial) _ _)
  constructor
  · intro h
    exact ⟨h.start.settled, (hrun h.start).mp h⟩
  · intro hcase
    obtain ⟨hstart, hfree⟩ := hcase
    exact (hrun ⟨hstart, fun _ _ hmem => absurd hmem List.not_mem_nil⟩).mpr hfree

/-- One node with a password that the server accepts: `dynoc_start` gets one reply and frees
none. -/
theorem accepted_auth_reply_lost :
    LaunchedInRoom (lockedClient .data).1 (lockedClient .data).2 ∧
      ¬ Throughout (systemStep (lockedClient .data).1) RepliesSettled
        (.start (lockedClient .data).2) [] := by
  refine ⟨locked_client_in_room .data, fun h => ?_⟩
  have hcounts : (lockedClient .data).2.replies.issued = 1 ∧
      (lockedClient .data).2.replies.released.length = 0 := by decide +kernel
  have hlength : (lockedClient .data).2.replies.released.length + 0 =
      (lockedClient .data).2.replies.issued := h.start.settled.length
  omega

end DynocClient
