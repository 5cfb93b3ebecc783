import DynocClient.Lib.Sections

/-!
# Interleaved sections and whole turns

`Local` says that the statements of a section use and change only what its lock protects, up to
the names of fresh objects that the rest of the memory hands out. Then every interleaved run is
one of whole turns, taken in the order in which the locks were taken (`Refines.run`): when a
thread takes its lock, the other machine makes the whole turn at once, and the thread's later
statements only catch up with it.
-/

namespace DynocClient.Lib

variable {G Loc T P I N : Type*}

/-- What a lock protects, as far as names go, and the names left out of threads and points: the
statements of a section depend on nothing else, and change nothing else. -/
structure Local (S : Sections G Loc T P I N) (V T' P' : Type*) where
  cell : G → Loc → V
  thread : T → T'
  point : P → P'
  enter_congr : ∀ {first second}, thread first = thread second → ∀ input,
    (S.enter first input).map (Sum.map thread (Prod.map id point)) =
      (S.enter second input).map (Sum.map thread (Prod.map id point))
  acquire_congr : ∀ {first second loc}, cell first loc = cell second loc →
    cell (S.acquire loc first) loc = cell (S.acquire loc second) loc
  acquire_other : ∀ {memory loc other}, other ≠ loc →
    cell (S.acquire loc memory) other = cell memory other
  statement_congr : ∀ {loc here there first second}, point here = point there →
    cell first loc = cell second loc →
      Sum.map thread point (S.statement loc here first).1 =
          Sum.map thread point (S.statement loc there second).1 ∧
        cell (S.statement loc here first).2 loc = cell (S.statement loc there second).2 loc
  statement_other : ∀ {loc here memory other}, other ≠ loc →
    cell (S.statement loc here memory).2 other = cell memory other

variable {S : Sections G Loc T P I N} {V T' P' : Type*} (L : Local S V T' P')

namespace Local

variable {L} in
/-- A statement leaves the cells of other locations. -/
theorem statement_frame {loc : Loc} {here : P} {memory after : G} {next : T ⊕ P}
    (h : S.statement loc here memory = (next, after)) (other : Loc) (hother : other ≠ loc) :
    L.cell after other = L.cell memory other := by
  have hframe : L.cell (S.statement loc here memory).2 other = L.cell memory other :=
    L.statement_other hother
  rwa [h] at hframe

/-- Whole sections depend on nothing else. -/
theorem run_congr {loc : Loc} {here there : P} {first second : G}
    (hpoint : L.point here = L.point there) (hcell : L.cell first loc = L.cell second loc) :
    L.thread (S.run loc here first).1 = L.thread (S.run loc there second).1 ∧
      L.cell (S.run loc here first).2 loc = L.cell (S.run loc there second).2 loc := by
  obtain ⟨hnext, hafter⟩ := L.statement_congr hpoint hcell
  -- both sections end with this statement, or neither does
  rcases hhere : S.statement loc here first with ⟨left | left, memory⟩
  all_goals rcases hthere : S.statement loc there second with ⟨right | right, memory'⟩
  all_goals
    rw [hhere, hthere] at hnext hafter
    simp only [Sum.map_inl, Sum.map_inr, Sum.inl.injEq, Sum.inr.injEq, reduceCtorEq] at hnext
  · rw [Sections.run_leave hhere, Sections.run_leave hthere]
    exact ⟨hnext, hafter⟩
  · rw [Sections.run_next hhere, Sections.run_next hthere]
    exact run_congr hnext hafter
termination_by S.rank here
decreasing_by exact S.rank_lt (congrArg Prod.fst hhere)

/-- Whole sections change nothing else. -/
theorem run_other {loc other : Loc} (here : P) (memory : G) (hother : other ≠ loc) :
    L.cell (S.run loc here memory).2 other = L.cell memory other := by
  have hfirst : L.cell (S.statement loc here memory).2 other = L.cell memory other :=
    L.statement_other hother
  rcases hhere : S.statement loc here memory with ⟨thread | next, after⟩
  · rw [hhere] at hfirst
    rw [Sections.run_leave hhere]
    exact hfirst
  · rw [hhere] at hfirst
    rw [Sections.run_next hhere, run_other next after hother]
    exact hfirst
termination_by S.rank here
decreasing_by exact S.rank_lt (congrArg Prod.fst hhere)

end Local

/-- The state between two turns that a state between two statements stands for: every thread inside
has already made the rest of its section. -/
structure Refines (state : Interleaved G Loc T P) (atomic : Atomic G T) : Prop where
  exclusive : state.Exclusive
  length : atomic.threads.length = state.places.length
  thread : ∀ {i : Nat} {place : Place Loc T P}, state.places[i]? = some place →
    ∃ thread, atomic.threads[i]? = some thread ∧
      L.thread thread = L.thread (S.leave state.memory place)
  inside : ∀ {i : Nat} {loc : Loc} {point : P}, state.places[i]? = some (.inside loc point) →
    L.cell atomic.memory loc = L.cell (S.run loc point state.memory).2 loc
  free : ∀ {loc}, state.locked loc = false → L.cell atomic.memory loc = L.cell state.memory loc

/-- At the start both machines are in the same state. -/
theorem refines_start (memory : G) :
    Refines L (.start memory) { memory, threads := [] } where
  exclusive := exclusive_start memory
  length := rfl
  thread := fun h => by simp [Interleaved.start] at h
  inside := fun h => by simp [Interleaved.start] at h
  free := fun _ => rfl

variable {L}

/-- What a thread becomes depends only on what its lock protects. -/
theorem leave_congr {first second : G} {place : Place Loc T P}
    (h : ∀ loc point, place = .inside loc point → L.cell first loc = L.cell second loc) :
    L.thread (S.leave first place) = L.thread (S.leave second place) := by
  cases place with
  | outside thread => rfl
  | inside loc point => exact (L.run_congr rfl (h loc point rfl)).1

namespace Refines

variable {state : Interleaved G Loc T P} {atomic : Atomic G T} (h : Refines L state atomic)
include h

/-- The atomic machine has the same threads. -/
theorem lt_length {i : Nat} {place : Place Loc T P} (hplace : state.places[i]? = some place) :
    i < atomic.threads.length :=
  h.length ▸ (List.getElem?_eq_some_iff.mp hplace).choose

/-- The threads but one keep what they become, when they keep what they see. -/
theorem thread_set {i : Nat} {old new : Place Loc T P} {memory : G} {thread : T}
    (hold : state.places[i]? = some old)
    (hnew : L.thread thread = L.thread (S.leave memory new))
    (hframe : ∀ {j : Nat} {loc : Loc} {point : P}, i ≠ j →
      state.places[j]? = some (.inside loc point) →
      L.cell state.memory loc = L.cell memory loc)
    {j : Nat} {place : Place Loc T P} (hplace : (state.places.set i new)[j]? = some place) :
    ∃ found, (atomic.threads.set i thread)[j]? = some found ∧
      L.thread found = L.thread (S.leave memory place) := by
  by_cases hij : i = j
  · subst hij
    rw [List.getElem?_set_self (List.getElem?_eq_some_iff.mp hold).choose] at hplace
    obtain rfl := Option.some.inj hplace
    exact ⟨thread, List.getElem?_set_self (h.lt_length hold), hnew⟩
  · rw [List.getElem?_set_ne hij] at hplace ⊢
    obtain ⟨found, hfound, heq⟩ := h.thread hplace
    refine ⟨found, hfound, heq.trans (leave_congr fun loc point hinside => ?_)⟩
    subst hinside
    exact hframe hij hplace

/-- The thread at `i` with what it becomes. -/
theorem thread_self {i : Nat} {place : Place Loc T P} (hplace : state.places[i]? = some place) :
    ∃ thread, atomic.threads.set i thread = atomic.threads ∧
      L.thread thread = L.thread (S.leave state.memory place) := by
  obtain ⟨thread, hthread, heq⟩ := h.thread hplace
  obtain ⟨hlt, hget⟩ := List.getElem?_eq_some_iff.mp hthread
  exact ⟨thread, by rw [← hget, List.set_getElem_self], heq⟩

/-- The other threads inside do not see what changes at the location of thread `i`. -/
theorem inside_frame {i : Nat} {loc : Loc} {point : P} {memory : G}
    (hplace : state.places[i]? = some (Place.inside loc point))
    (hother : ∀ other, other ≠ loc → L.cell memory other = L.cell state.memory other)
    {j : Nat} {found : Loc} {other : P} (hij : i ≠ j)
    (hj : state.places[j]? = some (Place.inside found other)) :
    L.cell state.memory found = L.cell memory found := by
  refine (hother found fun hfound => hij ?_).symm
  exact h.exclusive.sole hplace (hfound ▸ hj)

/-- A new thread. -/
theorem spawn (thread : T) :
    Refines L { state with places := state.places ++ [.outside thread] }
      { atomic with threads := atomic.threads ++ [thread] } where
  exclusive := h.exclusive.spawn thread
  length := by simp [h.length]
  thread := by
    intro i place hplace
    by_cases hlt : i < state.places.length
    · rw [List.getElem?_append_left hlt] at hplace
      rw [List.getElem?_append_left (h.length ▸ hlt)]
      exact h.thread hplace
    · rw [List.getElem?_append_right (Nat.le_of_not_lt hlt)] at hplace
      rw [List.getElem?_append_right (h.length ▸ Nat.le_of_not_lt hlt), h.length]
      cases hindex : i - state.places.length with
      | zero =>
          rw [hindex] at hplace
          obtain rfl := Option.some.inj hplace
          exact ⟨thread, rfl, rfl⟩
      | succ n => simp [hindex] at hplace
  inside := fun hplace => h.inside (inside_append.mp hplace)
  free := h.free

/-- A thread outside goes on by itself. -/
theorem stay {i : Nat} {before after after' : T}
    (hplace : state.places[i]? = some (Place.outside before))
    (hthread : L.thread after' = L.thread after) :
    Refines L { state with places := state.places.set i (.outside after) }
      { atomic with threads := atomic.threads.set i after' } where
  exclusive := h.exclusive.stay hplace
  length := by simp [h.length]
  thread := h.thread_set hplace hthread fun _ _ => rfl
  inside := by
    intro j loc point hj
    rw [inside_set hplace] at hj
    split at hj
    · cases hj
    · exact h.inside hj
  free := h.free

/-- A thread inside makes a statement that is not the last: its turn was made before. -/
theorem go {i : Nat} {loc : Loc} {point after : P} {memory : G}
    (hplace : state.places[i]? = some (Place.inside loc point))
    (hstatement : S.statement loc point state.memory = (.inr after, memory)) :
    Refines L { state with memory, places := state.places.set i (.inside loc after) } atomic := by
  have hother := L.statement_frame hstatement
  have hframe : ∀ {j : Nat} {found : Loc} {other : P}, i ≠ j →
      state.places[j]? = some (.inside found other) →
      L.cell state.memory found = L.cell memory found :=
    h.inside_frame hplace hother
  -- the other machine has made the whole turn, so it stays where it is
  obtain ⟨thread, hset, heq⟩ := h.thread_self hplace
  constructor
  · exact h.exclusive.go hplace
  · simp [h.length]
  · rw [← hset]
    refine h.thread_set hplace (heq.trans ?_) hframe
    show L.thread (S.run loc point state.memory).1 = L.thread (S.run loc after memory).1
    rw [Sections.run_next hstatement]
  · intro j found other hj
    rw [inside_set hplace] at hj
    split at hj
    · obtain ⟨rfl, rfl⟩ := Place.inside.inj hj
      rw [h.inside hplace, Sections.run_next hstatement]
    · rename_i hij
      rw [h.inside hj]
      exact (L.run_congr rfl (hframe hij hj)).2
  · intro found hfree
    rw [h.free hfree]
    refine (hother found ?_).symm
    rintro rfl
    have := h.exclusive.locked hplace
    simp_all

/-- The threads, as they are when all have left their sections. -/
theorem threads : atomic.threads.map L.thread =
    (state.places.map (S.leave state.memory)).map L.thread := by
  refine List.ext_getElem? fun i => ?_
  rw [List.getElem?_map, List.getElem?_map, List.getElem?_map]
  cases hplace : state.places[i]? with
  | none =>
      have hge := h.length ▸ List.getElem?_eq_none_iff.mp hplace
      rw [List.getElem?_eq_none hge]
      rfl
  | some place =>
      obtain ⟨thread, hthread, heq⟩ := h.thread hplace
      rw [hthread]
      exact congrArg some heq

variable [DecidableEq Loc]

/-- A thread takes a free lock: it makes its whole turn now. -/
theorem take {i : Nat} {before : T} {loc : Loc} {point point' : P}
    (hplace : state.places[i]? = some (Place.outside before))
    (hfree : state.locked loc = false) (hpoint : L.point point' = L.point point) :
    Refines L
      { memory := S.acquire loc state.memory
        locked := Function.update state.locked loc true
        places := state.places.set i (.inside loc point) }
      { memory := (S.run loc point' (S.acquire loc atomic.memory)).2
        threads := atomic.threads.set i
          (S.run loc point' (S.acquire loc atomic.memory)).1 } := by
  -- the lock was free, so both machines begin the section on the same cell
  have hrun := L.run_congr hpoint (L.acquire_congr (h.free hfree))
  have hne : ∀ {j : Nat} {found : Loc} {other : P},
      state.places[j]? = some (.inside found other) → found ≠ loc := by
    rintro j found other hj rfl
    simp [h.exclusive.locked hj] at hfree
  constructor
  · exact h.exclusive.take hplace hfree
  · simp [h.length]
  · exact h.thread_set hplace hrun.1 fun _ hj => (L.acquire_other (hne hj)).symm
  · intro j found other hj
    rw [inside_set hplace] at hj
    split at hj
    · obtain ⟨rfl, rfl⟩ := Place.inside.inj hj
      exact hrun.2
    -- a section of another location does not see the turn
    · have hfound := hne hj
      calc L.cell (S.run loc point' (S.acquire loc atomic.memory)).2 found
          = L.cell atomic.memory found := by
            rw [L.run_other _ _ hfound, L.acquire_other hfound]
        _ = L.cell (S.run found other state.memory).2 found := h.inside hj
        _ = L.cell (S.run found other (S.acquire loc state.memory)).2 found :=
            (L.run_congr rfl (L.acquire_other hfound).symm).2
  · intro found hunlocked
    have hfound : found ≠ loc := by
      rintro rfl
      simp at hunlocked
    have hbefore : state.locked found = false := by
      simpa only [Function.update_of_ne hfound] using hunlocked
    rw [L.run_other _ _ hfound, L.acquire_other hfound, L.acquire_other hfound,
      h.free hbefore]

/-- A thread makes the last statement of its section. -/
theorem give {i : Nat} {loc : Loc} {point : P} {thread : T} {memory : G}
    (hplace : state.places[i]? = some (Place.inside loc point))
    (hstatement : S.statement loc point state.memory = (.inl thread, memory)) :
    Refines L
      { memory
        locked := Function.update state.locked loc false
        places := state.places.set i (.outside thread) } atomic := by
  have hother := L.statement_frame hstatement
  have hframe : ∀ {j : Nat} {found : Loc} {other : P}, i ≠ j →
      state.places[j]? = some (.inside found other) →
      L.cell state.memory found = L.cell memory found :=
    h.inside_frame hplace hother
  obtain ⟨reached, hset, heq⟩ := h.thread_self hplace
  constructor
  · exact h.exclusive.give hplace
  · simp [h.length]
  · rw [← hset]
    refine h.thread_set hplace (heq.trans ?_) hframe
    show L.thread (S.run loc point state.memory).1 = L.thread thread
    rw [Sections.run_leave hstatement]
  · intro j found other hj
    rw [inside_set hplace] at hj
    split at hj
    · cases hj
    · rename_i hij
      rw [h.inside hj]
      exact (L.run_congr rfl (hframe hij hj)).2
  · intro found hunlocked
    by_cases hfound : found = loc
    · subst hfound
      -- what the section leaves is what the turn had left
      rw [h.inside hplace, Sections.run_leave hstatement]
    · have hbefore : state.locked found = false := by
        simpa only [Function.update_of_ne hfound] using hunlocked
      rw [h.free hbefore, hother found hfound]

/-- Every step is the turns that begin with it. -/
theorem step {next : Interleaved G Loc T P} {label : InterleavedMove I N}
    (hstep : S.interleavedStep state label = some next) :
    ∃ after, runFrom S.atomicStep atomic label.moves = some after ∧ Refines L next after := by
  rcases Sections.interleaved_step_cases hstep with ⟨kind, thread, rfl, hspawn, rfl⟩ |
    ⟨i, input, thread, after, rfl, hplace, henter, rfl⟩ |
    ⟨i, input, thread, loc, point, rfl, hplace, henter, hfree, rfl⟩ |
    ⟨i, loc, point, after, memory, rfl, hplace, hstatement, rfl⟩ |
    ⟨i, loc, point, thread, memory, rfl, hplace, hstatement, rfl⟩
  · refine ⟨_, ?_, h.spawn thread⟩
    simp [InterleavedMove.moves, runFrom, Sections.atomicStep, hspawn]
  · obtain ⟨thread', hthread, heq⟩ := h.thread hplace
    have hcongr := L.enter_congr heq input
    rw [Sections.leave, henter] at hcongr
    obtain ⟨after', hafter, hmap⟩ := Option.map_eq_some_iff.mp hcongr
    cases after' with
    | inl after' =>
        refine ⟨_, ?_, h.stay hplace (Sum.inl.inj hmap)⟩
        simp [InterleavedMove.moves, runFrom, Sections.atomicStep, hthread, hafter]
    | inr target => cases hmap
  · obtain ⟨thread', hthread, heq⟩ := h.thread hplace
    have hcongr := L.enter_congr heq input
    rw [Sections.leave, henter] at hcongr
    obtain ⟨after', hafter, hmap⟩ := Option.map_eq_some_iff.mp hcongr
    cases after' with
    | inl after' => cases hmap
    | inr target =>
        obtain ⟨loc', point'⟩ := target
        obtain ⟨hloc, hpoint⟩ := Prod.mk.inj (Sum.inr.inj hmap)
        obtain rfl : loc' = loc := hloc
        refine ⟨_, ?_, h.take hplace hfree hpoint⟩
        simp [InterleavedMove.moves, runFrom, Sections.atomicStep, hthread, hafter]
  -- no turn begins inside a section
  · exact ⟨atomic, rfl, h.go hplace hstatement⟩
  · exact ⟨atomic, rfl, h.give hplace hstatement⟩

/-- Every interleaved run is the run of the turns that begin in it, taken whole. -/
theorem run {final : Interleaved G Loc T P} {labels : List (InterleavedMove I N)}
    (hrun : runFrom S.interleavedStep state labels = some final) :
    ∃ after, runFrom S.atomicStep atomic (labels.flatMap InterleavedMove.moves) = some after ∧
      Refines L final after := by
  induction labels generalizing state atomic with
  | nil =>
      cases hrun
      exact ⟨atomic, rfl, h⟩
  | cons label rest ih =>
      obtain ⟨next, hstep, hrest⟩ := run_from_cons.mp hrun
      obtain ⟨middle, hmoves, hmiddle⟩ := h.step hstep
      obtain ⟨after, hafter, hfinal⟩ := ih hmiddle hrest
      refine ⟨after, ?_, hfinal⟩
      rw [List.flatMap_cons, run_from_append, hmoves]
      exact hafter

end Refines

end DynocClient.Lib
