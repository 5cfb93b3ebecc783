import DynocClient.Lib.Shards
import DynocClient.System.Recovery
import DynocClient.System.Serial

/-!
# The client as one store

As long as the connections of the first local rack answer, every command turns to one slot, the
home of its key, sends its request there once and returns. The servers behind the slots are then
the shards of one store: whatever the threads do, the commands are answered as this store would
answer them one after the other, in an order in which a command that has returned comes before
all that are called later (`first_rack_one_store`).
-/

namespace DynocClient

open Lib

/-! ## Homes -/

/-- The slot that a command on the key turns to first. -/
def Dynoc.home (dynoc : Dynoc) (key : CString) : Option Slot := dynoc.selected key .start

/-- The slot is that of a node of the first local rack. -/
def Dynoc.FirstRack (dynoc : Dynoc) (slot : Slot) : Prop :=
  slot.dcType = .localDc ∧ slot.rack = 0 ∧ dynoc.IsNode slot

instance (dynoc : Dynoc) : DecidablePred dynoc.FirstRack := fun slot =>
  match hdc : dynoc.dc slot.dcType with
  | none => isFalse fun h => by
      obtain ⟨-, -, dc, -, hfound, -⟩ := h
      simp [hdc] at hfound
  | some dc =>
      decidable_of_iff (slot.dcType = .localDc ∧ slot.rack = 0 ∧
        ∃ rack ∈ dc.rack[slot.rack]?, slot.node < rack.ncontinuum.toNat)
        (by simp [Dynoc.FirstRack, Dynoc.IsNode, hdc])

/-- Every key has a home, and it is in the first rack. -/
theorem home_in_first_rack {dynoc : Dynoc} (hstarted : StartedInRoom dynoc)
    (hholds : dynoc.Holds (.localDc, 0)) (key : CString) :
    ∃ slot, dynoc.home key = some slot ∧ dynoc.FirstRack slot := by
  obtain ⟨dc, rack, hdc, hrack, hpos⟩ := hholds
  have hlocal : dynoc.localDc = some dc := hdc
  have hlt : 0 < dc.rackCount := (List.getElem?_eq_some_iff.mp hrack).1
  have hnext : nextRack dynoc .start = some (.localDc, dc, 0) := by
    simp only [nextRack, hlocal, Cursor.start, hlt, if_true]
  obtain ⟨hashFunc, hhash⟩ := hstarted.started.hash
  obtain ⟨index, hselect, hindex⟩ := (hstarted.started.indexed hdc
    (List.mem_of_getElem? hrack)).select hpos (searchToken hashFunc key)
  have hcall := @select_connection_eq _ _ hhash key .start _
    (key_token_eq hashFunc key scratch_init)
  simp only [hnext, offerRack, hrack, hselect, bind, Except.bind, pure, Except.pure] at hcall
  exact ⟨_, selected_of_select hcall, rfl, rfl, dc, rack, hdc, hrack, hindex⟩

/-! ## Requests -/

/-- Whether a request is that of a command; the others keep the connections alive. -/
def Request.isData : Request → Bool
  | .ping | .auth _ => false
  | _ => true

/-- What a command sends is a request for data, not AUTH or PING. -/
theorem command_request_data (command : Command) : command.request.isData = true := by
  cases command <;> rfl

/-- The slot and the request, if the call sends the request of a command. -/
def Event.request? (event : Event) : Option (Slot × Request) :=
  match event.call with
  | .command _ request _ => if request.isData then some (event.slot, request) else none
  | _ => none

/-- The requests of commands that have been sent, in order. -/
def World.requests (world : World) : List (Slot × Request) :=
  world.trace.filterMap Event.request?

section Requests

variable {world : World} (slot : Slot)

/-- A call that is no request leaves the requests made. -/
theorem requests_emit {call : ExternalCall} (h : Event.request? ⟨slot, call⟩ = none) :
    (world.emit slot call).requests = world.requests := by
  rw [World.requests, World.emit_trace, List.filterMap_append, List.filterMap_cons_none h]
  exact List.append_nil _

/-- A write makes no request. -/
@[simp] theorem requests_write (redisConn : RedisConnection) :
    (world.write slot redisConn).requests = world.requests := rfl

/-- Taking a lock makes no request. -/
@[simp] theorem requests_lock : (world.lock slot).requests = world.requests :=
  requests_emit slot rfl

/-- Releasing a lock makes no request. -/
@[simp] theorem requests_unlock : (world.unlock slot).requests = world.requests :=
  requests_emit slot rfl

/-- `redisFree` makes no request. -/
@[simp] theorem requests_redis_free (ctx : Option Ctx) :
    (world.redisFree slot ctx).requests = world.requests := by
  cases ctx with
  | none => rfl
  | some ctx => exact @requests_emit { world with ctxs := _ } slot _ rfl

/-- `freeReplyObject` makes no request. -/
@[simp] theorem requests_free_reply (reply : Option Reply) :
    (world.freeReply slot reply).requests = world.requests := by
  cases reply with
  | none => rfl
  | some reply => exact @requests_emit { world with replies := _ } slot _ rfl

/-- A connect makes no request for data. -/
@[simp] theorem requests_redis_connect (endpoint : Endpoint) (outcome : ConnectOutcome) :
    (world.redisConnect slot endpoint outcome).2.requests = world.requests := by
  cases outcome with
  | null => exact requests_emit slot rfl
  | err | connected => exact @requests_emit { world with ctxs := _ } slot _ rfl

/-- AUTH and PING are no requests for data. -/
theorem requests_redis_command {request : Request} (h : request.isData = false)
    (ctx : Option Ctx) (answer : Answer) :
    (world.redisCommand slot ctx request answer).2.requests = world.requests := by
  have hcall : Event.request? ⟨slot, .command ctx request answer⟩ = none := by
    simp [Event.request?, h]
  have hemit := @requests_emit world slot _ hcall
  unfold World.redisCommand
  cases answer.reply <;> exact hemit

/-- A PING is no request for data. -/
theorem requests_ping (answer : Answer) :
    (pingSlot world slot answer).requests = world.requests := by
  have hsent := @requests_redis_command world slot .ping rfl
    (world.conn slot).ctx answer
  unfold pingSlot
  dsimp only
  split
  · rfl
  · split
    · rw [requests_free_reply, hsent]
    · rw [requests_write, requests_redis_free, hsent]

/-- A dial makes no request for data, whatever its AUTH answers. -/
theorem requests_dial (endpoint : Endpoint) (outcome : Dial) (status : Status) :
    (dial world slot endpoint outcome status).2.requests = world.requests := by
  have hdialled := @requests_redis_connect world slot endpoint outcome.connect
  unfold dial
  dsimp only
  cases hconnect : outcome.connect with
  | null | err =>
      rw [hconnect] at hdialled
      exact (requests_redis_free slot _).trans hdialled
  | connected =>
      rw [hconnect] at hdialled
      cases endpoint.pass with
      | none => exact hdialled
      | some pass =>
          have hauth := (@requests_redis_command _ slot (.auth pass) rfl
            (world.redisConnect slot endpoint .connected).1 outcome.auth).trans hdialled
          dsimp only
          split
          · exact hauth
          · exact (requests_free_reply slot _).trans hauth

/-- A turn of a pass sends none. -/
theorem requests_reconnect (endpoint : Endpoint) (outcome : Reconnect) (status : Status) :
    (reconnectSlot world slot endpoint outcome status).2.requests = world.requests := by
  have hping := @requests_ping (world.lock slot) slot outcome.ping
  rw [requests_lock] at hping
  by_cases halive : Alive world slot outcome.ping
  · rw [reconnect_slot_alive halive, requests_unlock, hping]
  · rw [reconnect_slot_dial halive, requests_unlock, requests_dial, hping]

/-- An attempt of a command sends its request if the connection is `VALID`. -/
theorem requests_attempt (command : Command) (answer : Answer) :
    (attempt command.kind command.request world slot answer).2.requests = world.requests ++
      if (world.conn slot).status = .valid then [(slot, command.request)] else [] := by
  obtain ⟨inside, htrace, -, hsent⟩ :=
    attempt_trace command.kind command.request world slot answer
  have hcommands : ∀ events : List Event, events.filterMap Event.request? =
      (events.filter fun event => event.call.isCommand).filterMap Event.request? := by
    intro events
    rw [List.filterMap_filter]
    congr 1
    funext event
    cases hcall : event.call <;> simp [Event.request?, ExternalCall.isCommand, hcall]
  rw [World.requests, htrace, List.filterMap_append, List.filterMap_append,
    List.filterMap_cons_none rfl, hcommands inside, hsent]
  split
  · simp [World.requests, Event.request?, command_request_data]
  · simp [World.requests, Event.request?]

end Requests

/-! ## Runs -/

/-- The command that the thread has carried out. -/
def CommandThread.done? : CommandThread → Option Command
  | .running _ _ => none
  | .returned command _ => some command

/-- The thread has not taken a turn yet, or it has returned and a reply without error was accepted
on the way. -/
def CommandThread.Served : CommandThread → Prop
  | .running _ cursor => cursor = .start
  | .returned command result =>
      ∃ id : Nat, result = command.kind.succeeded (some ⟨id, .data⟩)

/-- Since the start the commands in the log have been sent, each to the home of its key, and these
are the commands that have returned. No connection of the first rack has been lost. -/
structure Logged (dynoc : Dynoc) (start : World) (system : System)
    (log : List (Slot × Command)) : Prop where
  sent : system.world.requests =
    start.requests ++ log.map fun entry => (entry.1, entry.2.request)
  home : ∀ entry ∈ log, dynoc.home entry.2.key = some entry.1
  done : (system.commands.filterMap CommandThread.done?).Perm (log.map Prod.snd)
  served : ∀ thread ∈ system.commands, thread.Served
  valid : ∀ slot, dynoc.FirstRack slot → (system.world.conn slot).status = .valid

/-- An element that counts takes the place of one that does not. -/
theorem filter_map_set_perm {α β : Type} {f : α → Option β} {list : List α} {i : Nat} {a b : α}
    {c : β} (hi : list[i]? = some a) (ha : f a = none) (hb : f b = some c) :
    ((list.set i b).filterMap f).Perm (list.filterMap f ++ [c]) := by
  induction list generalizing i with
  | nil => cases hi
  | cons head rest ih =>
      cases i with
      | zero =>
          obtain rfl : head = a := Option.some.inj hi
          rw [List.set_cons_zero, List.filterMap_cons_some hb, List.filterMap_cons_none ha]
          exact (List.perm_append_singleton c _).symm
      | succ i =>
          have hrest := ih (i := i) hi
          rw [List.set_cons_succ]
          cases hhead : f head with
          | none => rwa [List.filterMap_cons_none hhead, List.filterMap_cons_none hhead]
          | some found =>
              rw [List.filterMap_cons_some hhead, List.filterMap_cons_some hhead]
              exact hrest.cons found

section Runs

variable {dynoc : Dynoc} {start : World}

/-- A client whose first rack is valid has logged nothing. -/
theorem logged_start (hvalid : ∀ slot, dynoc.FirstRack slot → (start.conn slot).status = .valid) :
    Logged dynoc start (.start start) [] where
  sent := (List.append_nil _).symm
  home := by simp
  done := List.Perm.refl _
  served := by simp [System.start]
  valid := hvalid

variable (hstarted : StartedInRoom dynoc) (hholds : dynoc.Holds (.localDc, 0))
include hstarted hholds

/-- A move while the first rack serves logs at most the command that makes it. -/
theorem Logged.step {system next : System} {move : Move} {log : List (Slot × Command)}
    (h : Logged dynoc start system log) (hserving : Serving dynoc dynoc.FirstRack system move)
    (hstep : systemStep dynoc system move = some next) :
    ∃ entries, Logged dynoc start next (log ++ entries) := by
  have hvalid : ∀ slot, dynoc.FirstRack slot → (next.world.conn slot).status = .valid :=
    fun slot hslot => valid_stays hserving hstep hslot (h.valid slot hslot)
  -- only a turn of a command changes the requests or the commands that have returned
  have hsame : next.world.requests = system.world.requests →
      next.commands.filterMap CommandThread.done? =
        system.commands.filterMap CommandThread.done? →
      (∀ thread ∈ next.commands, thread.Served) →
      ∃ entries, Logged dynoc start next (log ++ entries) := by
    intro hrequests hdone hserved
    refine ⟨[], ?_⟩
    rw [List.append_nil]
    exact ⟨hrequests.trans h.sent, h.home, hdone ▸ h.done, hserved, hvalid⟩
  cases move with
  | call command =>
      obtain rfl := Option.some.inj hstep
      refine hsame rfl ?_ ?_
      · rw [List.filterMap_append, List.filterMap_cons_none rfl]
        exact List.append_nil _
      · intro thread hthread
        rcases List.mem_append.mp hthread with hold | hnew
        · exact h.served thread hold
        · rw [List.mem_singleton.mp hnew]
          rfl
  | reconnect dcType =>
      obtain ⟨dc, -, rfl⟩ := Option.map_eq_some_iff.mp hstep
      exact hsame rfl rfl h.served
  | turn pass outcome =>
      obtain ⟨target, targets, status, hpass, -⟩ := turn_cases hstep
      rw [system_step_turn outcome hpass] at hstep
      obtain rfl := Option.some.inj hstep
      exact hsame (requests_reconnect _ _ _ _) rfl h.served
  | attempt thread answer =>
      obtain ⟨command, cursor, _, _, hthread, -⟩ := system_step_attempt hstep
      -- a command that has not returned is at its first turn, which is at the home of its key
      obtain rfl : cursor = .start := h.served _ (List.mem_of_getElem? hthread)
      obtain ⟨slot, hhome, hslot⟩ := home_in_first_rack hstarted hholds command.key
      obtain ⟨after, hselect⟩ := selected_some hhome
      have haccepted := hserving _ hthread slot hhome hslot
      rw [system_step_served hthread hselect (h.valid slot hslot) haccepted] at hstep
      obtain rfl := Option.some.inj hstep
      -- the turn sends the request and the command returns
      refine ⟨[(slot, command)], ⟨?_, ?_, ?_, ?_, hvalid⟩⟩
      · rw [requests_attempt, if_pos (h.valid slot hslot), h.sent, List.map_append,
          List.append_assoc]
        rfl
      · intro entry hentry
        rcases List.mem_append.mp hentry with hold | hnew
        · exact h.home entry hold
        · rw [List.mem_singleton.mp hnew]
          exact hhome
      · rw [List.map_append]
        exact (filter_map_set_perm (f := CommandThread.done?) hthread rfl rfl).trans
          (h.done.append_right _)
      · intro thread hmem
        rcases List.mem_or_eq_of_mem_set hmem with hold | rfl
        · exact h.served thread hold
        · exact ⟨_, rfl⟩

/-- The log of a run grows as the run goes on. -/
theorem Logged.run {system final : System} {moves : List Move} {log : List (Slot × Command)}
    (h : Logged dynoc start system log)
    (hserving : EachStep (systemStep dynoc) (Serving dynoc dynoc.FirstRack) system moves)
    (hrun : runFrom (systemStep dynoc) system moves = some final) :
    ∃ later, Logged dynoc start final (log ++ later) := by
  induction moves generalizing system log with
  | nil =>
      cases hrun
      exact ⟨[], by rwa [List.append_nil]⟩
  | cons move rest ih =>
      obtain ⟨next, hstep, hrest⟩ := run_from_cons.mp hrun
      obtain ⟨entries, hnext⟩ := h.step hstarted hholds hserving.1 hstep
      obtain ⟨later, hfinal⟩ := ih hnext (hserving.2 next hstep) hrest
      refine ⟨entries ++ later, ?_⟩
      rwa [← List.append_assoc]

end Runs

/-- The operations that the servers make of the commands, of which all that is known is that each
acts on the value of its key. -/
def keyed {V R : Type} (act : Command → V → V) (answer : Command → V → R) :
    Operations CString Command V R := { key := Command.key, act, answer }

/-- Take any run in which the connections of the first local rack, `VALID` at the start, answer;
other connections may fail. The commands that have returned have each been sent once, to the home
of its key, and have succeeded, and the others have not been sent. Whatever the servers do with a
command, if it only depends on the value of the key and only changes that, they answer as one
store does that gets the commands in the order of the log. The log of a longer run begins with
that of the run, so a command that has returned comes before those called later. -/
theorem first_rack_one_store {dynoc : Dynoc} {world : World} (hlaunch : LaunchedInRoom dynoc world)
    (hholds : dynoc.Holds (.localDc, 0))
    (hvalid : ∀ slot, dynoc.FirstRack slot → (world.conn slot).status = .valid)
    {moves more : List Move} {system final : System}
    (hrun : runFrom (systemStep dynoc) (.start world) moves = some system)
    (hserving : EachStep (systemStep dynoc) (Serving dynoc dynoc.FirstRack) (.start world) moves)
    (hmore : runFrom (systemStep dynoc) system more = some final)
    (hstill : EachStep (systemStep dynoc) (Serving dynoc dynoc.FirstRack) system more) :
    ∃ log later, Logged dynoc world system log ∧ Logged dynoc world final (log ++ later) ∧
      ∀ {V R : Type} (act : Command → V → V) (answer : Command → V → R)
        (servers : Slot → CString → V) (store : CString → V), Agree dynoc.home servers store →
        (keyed act answer).answersAt servers (log ++ later) =
            (keyed act answer).answers store ((log ++ later).map Prod.snd) ∧
          Agree dynoc.home ((log ++ later).foldl (keyed act answer).performAt servers)
            (((log ++ later).map Prod.snd).foldl (keyed act answer).perform store) := by
  have hstarted := hlaunch.started_in_room
  obtain ⟨log, hlog⟩ := (logged_start hvalid).run hstarted hholds hserving hrun
  rw [List.nil_append] at hlog
  obtain ⟨later, hfinal⟩ := hlog.run hstarted hholds hstill hmore
  refine ⟨log, later, hlog, hfinal, fun act answer servers store hagree => ?_⟩
  exact ⟨(keyed act answer).answers_at_homes hfinal.home hagree,
    (keyed act answer).perform_at_homes hfinal.home hagree⟩

/-- Two commands side by side and a pass that loses nothing; then a third command. -/
def storeMoves : List Move :=
  [.call (.set (.ofAscii "ab") (.ofAscii "1")), .call (.get (.ofAscii "abc")),
    .reconnect .localDc, .attempt 1 { reply := some .data, err := false },
    .turn 0 { ping := { reply := some .data, err := false },
              dial := authDials .error ⟨.localDc, 0, 0⟩ },
    .attempt 0 { reply := some .data, err := false }]

/-- The state after these moves. -/
def stored : System :=
  (runFrom (systemStep pairClient.1) (.start pairClient.2) storeMoves).get (by decide +kernel)

/-- One more command. -/
def storeMore : List Move :=
  [.call (.get (.ofAscii "ab")), .attempt 2 { reply := some .data, err := false }]

/-- The state after it. -/
def storedMore : System :=
  (runFrom (systemStep pairClient.1) stored storeMore).get (by decide +kernel)

/-- Servers that keep the commands on each key. -/
def keptCommands : Operations CString Command (List Command) (List Command) :=
  keyed (fun command value => command :: value) fun _ value => value

/-- The client with two nodes runs on over one store, and its log only grows. -/
theorem pair_one_store :
    ∃ log later, Logged pairClient.1 pairClient.2 stored log ∧
      Logged pairClient.1 pairClient.2 storedMore (log ++ later) ∧
      keptCommands.answersAt (fun _ _ => []) (log ++ later) =
        keptCommands.answers (fun _ => []) ((log ++ later).map Prod.snd) := by
  have hlaunch : LaunchedInRoom pairClient.1 pairClient.2 :=
    boot_in_room (Option.some_get _).symm (by decide +kernel)
  have hholds : pairClient.1.Holds (.localDc, 0) := by
    let dc := (pairClient.1.dc .localDc).get (by decide +kernel)
    let rack := (dc.rack[0]?).get (by decide +kernel)
    exact ⟨dc, rack, (Option.some_get _).symm, (Option.some_get _).symm, by decide +kernel⟩
  have hall : ∀ slot ∈ pairClient.1.slots, (pairClient.2.conn slot).status = .valid := by
    decide +kernel
  have hvalid : ∀ slot, pairClient.1.FirstRack slot →
      (pairClient.2.conn slot).status = .valid := fun slot hslot =>
    hall slot (mem_slots.mpr (hlaunch.started_in_room.is_slot hslot.2.2))
  have hrun : runFrom (systemStep pairClient.1) (.start pairClient.2) storeMoves =
      some stored := (Option.some_get _).symm
  have hmore : runFrom (systemStep pairClient.1) stored storeMore = some storedMore :=
    (Option.some_get _).symm
  obtain ⟨log, later, hlog, hfinal, hanswers⟩ := first_rack_one_store hlaunch hholds hvalid hrun
    (by decide +kernel) hmore (by decide +kernel)
  exact ⟨log, later, hlog, hfinal,
    (hanswers _ _ (fun _ _ => []) (fun _ => []) fun _ _ _ => rfl).1⟩

end DynocClient
