import DynocClient.Lib.Runs
import Mathlib.Algebra.Ring.Nat
import Mathlib.Data.List.Basic

/-!
# Threads that share a memory under locks

A `Sections` is a program for any number of threads. Each location of the memory has a lock. A
thread that is outside goes on by itself, or takes the lock of a location and is inside from then
on; inside it makes one statement after the other, and the last one gives the lock back. It
takes no second lock while it is inside.

Two machines run such a program. In `interleavedStep` the statements of all threads interleave.
In `atomicStep` a thread makes its whole section in one turn. Sections of one location exclude
each other (`Interleaved.Exclusive.run`), and threads that are inside always get out
(`quiet_after`).
-/

namespace DynocClient.Lib

/-- Where a thread is. -/
inductive Place (Loc T P : Type*) where
  | outside (thread : T)
  | inside (loc : Loc) (point : P)

/-- A program of threads with critical sections. `G` is the memory, `T` a thread that is outside,
`P` a point inside a section, `I` what a turn meets and `N` a kind of thread. -/
structure Sections (G Loc T P I N : Type*) where
  /-- A new thread. -/
  spawn : N → Option T
  /-- What a thread outside does next. -/
  enter : T → I → Option (T ⊕ Loc × P)
  /-- What taking the lock does to the memory. -/
  acquire : Loc → G → G
  /-- The statement at a point; after the last one the thread is outside. -/
  statement : Loc → P → G → (T ⊕ P) × G
  /-- How many statements may be left. -/
  rank : P → Nat
  rank_lt : ∀ {loc point memory next}, (statement loc point memory).1 = .inr next →
    rank next < rank point

/-- A state between two statements. -/
structure Interleaved (G Loc T P : Type*) where
  memory : G
  locked : Loc → Bool
  places : List (Place Loc T P)

/-- A state between two turns. -/
structure Atomic (G T : Type*) where
  memory : G
  threads : List T

/-- A new thread, or a turn of a thread with what it meets. -/
inductive AtomicMove (I N : Type*) where
  | spawn (kind : N)
  | turn (thread : Nat) (input : I)
  deriving DecidableEq

/-- A new thread, the first step of a thread's turn, or the next statement of a thread inside. -/
inductive InterleavedMove (I N : Type*) where
  | spawn (kind : N)
  | enter (thread : Nat) (input : I)
  | next (thread : Nat)
  deriving DecidableEq

/-- The thread that makes the step, unless it is a new one. -/
def InterleavedMove.thread {I N : Type*} : InterleavedMove I N → Option Nat
  | .spawn _ => none
  | .enter thread _ | .next thread => some thread

/-- The turns that begin with the step. -/
def InterleavedMove.moves {I N : Type*} : InterleavedMove I N → List (AtomicMove I N)
  | .spawn kind => [.spawn kind]
  | .enter thread input => [.turn thread input]
  | .next _ => []

namespace Sections

variable {G Loc T P I N : Type*} (S : Sections G Loc T P I N)

/-- All statements of a section from a point on. -/
def run (loc : Loc) (point : P) (memory : G) : T × G :=
  match _h : S.statement loc point memory with
  | (.inl thread, memory) => (thread, memory)
  | (.inr next, memory) => run loc next memory
termination_by S.rank point
decreasing_by exact S.rank_lt (congrArg Prod.fst _h)

/-- What a thread is when it has left the section it is in. -/
def leave (memory : G) : Place Loc T P → T
  | .outside thread => thread
  | .inside loc point => (S.run loc point memory).1

/-- A step of the threads, one statement at a time. A lock that is taken cannot be taken. -/
def interleavedStep [DecidableEq Loc] (state : Interleaved G Loc T P) :
    InterleavedMove I N → Option (Interleaved G Loc T P)
  | .spawn kind =>
      (S.spawn kind).map fun thread =>
        { state with places := state.places ++ [.outside thread] }
  | .enter i input =>
      match state.places[i]? with
      | some (.outside thread) =>
          match S.enter thread input with
          | none => none
          | some (.inl next) => some { state with places := state.places.set i (.outside next) }
          | some (.inr (loc, point)) =>
              -- a thread that finds the lock taken has to wait
              if state.locked loc then none
              else some {
                memory := S.acquire loc state.memory
                locked := Function.update state.locked loc true
                places := state.places.set i (.inside loc point) }
      | _ => none
  | .next i =>
      match state.places[i]? with
      | some (.inside loc point) =>
          match S.statement loc point state.memory with
          | (.inl thread, memory) => some {
              memory
              locked := Function.update state.locked loc false
              places := state.places.set i (.outside thread) }
          | (.inr next, memory) =>
              some { state with memory, places := state.places.set i (.inside loc next) }
      | _ => none

/-- A step of the threads, one turn at a time. -/
def atomicStep (state : Atomic G T) : AtomicMove I N → Option (Atomic G T)
  | .spawn kind =>
      (S.spawn kind).map fun thread => { state with threads := state.threads ++ [thread] }
  | .turn i input =>
      match state.threads[i]? with
      | none => none
      | some thread =>
          match S.enter thread input with
          | none => none
          | some (.inl next) => some { state with threads := state.threads.set i next }
          | some (.inr (loc, point)) =>
              let (next, memory) := S.run loc point (S.acquire loc state.memory)
              some { memory, threads := state.threads.set i next }

/-! ## Whole sections -/

section Run

variable {S} {loc : Loc} {point : P} {memory : G}

/-- A last statement ends the run. -/
theorem run_leave {thread : T} {final : G}
    (h : S.statement loc point memory = (.inl thread, final)) :
    S.run loc point memory = (thread, final) := by
  rw [run]
  split <;> simp_all

/-- A statement that is not the last leaves the rest to be run. -/
theorem run_next {next : P} {after : G}
    (h : S.statement loc point memory = (.inr next, after)) :
    S.run loc point memory = S.run loc next after := by
  rw [run]
  split <;> simp_all

end Run

/-! ## What a step does -/

/-- Everything a turn of a thread can do. -/
theorem atomic_step_turn {S : Sections G Loc T P I N} {state next : Atomic G T} {i : Nat}
    {input : I} (h : S.atomicStep state (.turn i input) = some next) :
    ∃ thread target, state.threads[i]? = some thread ∧ S.enter thread input = some target ∧
      next = match target with
        | .inl after => { state with threads := state.threads.set i after }
        | .inr (loc, point) => {
            memory := (S.run loc point (S.acquire loc state.memory)).2
            threads := state.threads.set i (S.run loc point (S.acquire loc state.memory)).1 } := by
  simp only [atomicStep] at h
  split at h
  · cases h
  · rename_i thread hthread
    split at h
    · cases h
    · rename_i after henter
      exact ⟨thread, .inl after, hthread, henter, (Option.some.inj h).symm⟩
    · rename_i loc point henter
      exact ⟨thread, .inr (loc, point), hthread, henter, (Option.some.inj h).symm⟩

/-- Everything a step can do. -/
theorem interleaved_step_cases [DecidableEq Loc] {S : Sections G Loc T P I N}
    {state next : Interleaved G Loc T P} {label : InterleavedMove I N}
    (h : S.interleavedStep state label = some next) :
    (∃ kind thread, label = .spawn kind ∧ S.spawn kind = some thread ∧
      next = { state with places := state.places ++ [.outside thread] }) ∨
    (∃ i input thread after, label = .enter i input ∧
      state.places[i]? = some (.outside thread) ∧ S.enter thread input = some (.inl after) ∧
      next = { state with places := state.places.set i (.outside after) }) ∨
    (∃ i input thread loc point, label = .enter i input ∧
      state.places[i]? = some (.outside thread) ∧
      S.enter thread input = some (.inr (loc, point)) ∧ state.locked loc = false ∧
      next = {
        memory := S.acquire loc state.memory
        locked := Function.update state.locked loc true
        places := state.places.set i (.inside loc point) }) ∨
    (∃ i loc point after memory, label = .next i ∧
      state.places[i]? = some (.inside loc point) ∧
      S.statement loc point state.memory = (.inr after, memory) ∧
      next = { state with memory, places := state.places.set i (.inside loc after) }) ∨
    (∃ i loc point thread memory, label = .next i ∧
      state.places[i]? = some (.inside loc point) ∧
      S.statement loc point state.memory = (.inl thread, memory) ∧
      next = {
        memory
        locked := Function.update state.locked loc false
        places := state.places.set i (.outside thread) }) := by
  cases label with
  | spawn kind =>
      obtain ⟨thread, hspawn, rfl⟩ := Option.map_eq_some_iff.mp h
      exact .inl ⟨kind, thread, rfl, hspawn, rfl⟩
  | enter i input =>
      simp only [interleavedStep] at h
      split at h
      · rename_i thread hplace
        split at h
        · cases h
        · rename_i after henter
          obtain rfl := Option.some.inj h
          exact .inr (.inl ⟨i, input, thread, after, rfl, hplace, henter, rfl⟩)
        · rename_i loc point henter
          split at h
          · cases h
          · rename_i hfree
            obtain rfl := Option.some.inj h
            exact .inr (.inr (.inl ⟨i, input, thread, loc, point, rfl, hplace, henter,
              by simpa using hfree, rfl⟩))
      · cases h
  | next i =>
      simp only [interleavedStep] at h
      split at h
      · rename_i loc point hplace
        split at h
        · rename_i thread memory hstatement
          obtain rfl := Option.some.inj h
          exact .inr (.inr (.inr (.inr ⟨i, loc, point, thread, memory, rfl, hplace, hstatement,
            rfl⟩)))
        · rename_i after memory hstatement
          obtain rfl := Option.some.inj h
          exact .inr (.inr (.inr (.inl ⟨i, loc, point, after, memory, rfl, hplace, hstatement,
            rfl⟩)))
      · cases h

end Sections

/-! ## Mutual exclusion -/

section Exclusive

variable {G Loc T P I N : Type*}

/-- A lock is taken exactly if a thread is inside its section, and then one thread is. -/
structure Interleaved.Exclusive (state : Interleaved G Loc T P) : Prop where
  locked_iff : ∀ loc, state.locked loc = true ↔
    ∃ (i : Nat) (point : P), state.places[i]? = some (.inside loc point)
  sole : ∀ {i j : Nat} {loc : Loc} {point other : P}, state.places[i]? = some (.inside loc point) →
    state.places[j]? = some (.inside loc other) → i = j

/-- No thread is inside. -/
def Interleaved.Quiet (state : Interleaved G Loc T P) : Prop :=
  ∀ place ∈ state.places, ∃ thread, place = .outside thread

/-- No threads yet, and no lock taken. -/
def Interleaved.start (memory : G) : Interleaved G Loc T P :=
  { memory, locked := fun _ => false, places := [] }

section Places

variable {places : List (Place Loc T P)} {i j : Nat} {loc : Loc} {point : P}

/-- A new thread is inside no section. -/
theorem inside_append {thread : T} :
    (places ++ [.outside thread])[i]? = some (.inside loc point) ↔
      places[i]? = some (.inside loc point) := by
  rw [List.getElem?_append]
  split
  · rfl
  · rename_i hlt
    rw [List.getElem?_eq_none (Nat.le_of_not_lt hlt)]
    cases i - places.length <;> simp

/-- Who is inside after thread `i` has moved. -/
theorem inside_set {old new : Place Loc T P} (h : places[i]? = some old) :
    (places.set i new)[j]? = some (.inside loc point) ↔
      if i = j then new = .inside loc point else places[j]? = some (.inside loc point) := by
  rw [List.getElem?_set, if_pos (List.getElem?_eq_some_iff.mp h).choose]
  split <;> simp

end Places

/-- At the start no thread is inside a section. -/
theorem exclusive_start (memory : G) :
    (Interleaved.start memory : Interleaved G Loc T P).Exclusive :=
  ⟨fun loc => by simp [Interleaved.start], fun h => by simp [Interleaved.start] at h⟩

variable {state : Interleaved G Loc T P}

namespace Interleaved.Exclusive

variable (h : state.Exclusive)
include h

/-- A location with a thread inside is locked. -/
theorem locked {i : Nat} {loc : Loc} {point : P}
    (hplace : state.places[i]? = some (Place.inside loc point)) : state.locked loc = true :=
  (h.locked_iff loc).mpr ⟨i, point, hplace⟩

/-- When nobody is inside, no lock is taken. -/
theorem free_of_quiet (hquiet : state.Quiet) (loc : Loc) : state.locked loc = false := by
  by_contra hlocked
  obtain ⟨i, point, hplace⟩ := (h.locked_iff loc).mp (by simpa using hlocked)
  obtain ⟨thread, heq⟩ := hquiet _ (List.mem_of_getElem? hplace)
  cases heq

/-- A new thread is outside. -/
theorem spawn (thread : T) :
    ({ state with places := state.places ++ [.outside thread] } :
      Interleaved G Loc T P).Exclusive := by
  constructor
  · intro loc
    simp only [inside_append]
    exact h.locked_iff loc
  · intro i j loc point other hi hj
    exact h.sole (inside_append.mp hi) (inside_append.mp hj)

/-- A thread that is outside stays outside. -/
theorem stay {i : Nat} {before after : T} {memory : G}
    (hplace : state.places[i]? = some (Place.outside before)) :
    ({ state with memory, places := state.places.set i (Place.outside after) } :
      Interleaved G Loc T P).Exclusive := by
  have hinside : ∀ (j : Nat) (loc : Loc) (point : P),
      (state.places.set i (Place.outside after))[j]? = some (.inside loc point) ↔
        state.places[j]? = some (.inside loc point) := by
    intro j loc point
    rw [inside_set hplace]
    split
    · rename_i hij
      subst hij
      simp [hplace]
    · rfl
  constructor
  · intro loc
    simp only [hinside]
    exact h.locked_iff loc
  · intro j k loc point other hj hk
    exact h.sole ((hinside j loc point).mp hj) ((hinside k loc other).mp hk)

/-- A thread inside goes on. -/
theorem go {i : Nat} {loc : Loc} {point after : P} {memory : G}
    (hplace : state.places[i]? = some (Place.inside loc point)) :
    ({ state with memory, places := state.places.set i (.inside loc after) } :
      Interleaved G Loc T P).Exclusive := by
  constructor
  · intro found
    simp only [inside_set hplace]
    rw [h.locked_iff found]
    constructor
    · rintro ⟨j, other, hj⟩
      by_cases hij : i = j
      · subst hij
        obtain ⟨rfl, rfl⟩ := Place.inside.inj (Option.some.inj (hplace.symm.trans hj))
        exact ⟨i, after, by simp⟩
      · exact ⟨j, other, by rwa [if_neg hij]⟩
    · rintro ⟨j, other, hj⟩
      split at hj
      · injection hj with hloc
        exact ⟨i, point, hloc ▸ hplace⟩
      · exact ⟨j, other, hj⟩
  · intro j k found point' other hj hk
    rw [inside_set hplace] at hj hk
    split at hj <;> split at hk
    · omega
    · rename_i hij _
      injection hj with hloc
      exact hij ▸ h.sole (hloc ▸ hplace) hk
    · rename_i _ hik
      injection hk with hloc
      exact hik ▸ h.sole hj (hloc ▸ hplace)
    · exact h.sole hj hk

variable [DecidableEq Loc]

/-- A thread takes a lock that is free. -/
theorem take {i : Nat} {thread : T} {loc : Loc} {point : P} {memory : G}
    (hplace : state.places[i]? = some (Place.outside thread))
    (hfree : state.locked loc = false) :
    ({ memory, locked := Function.update state.locked loc true
       places := state.places.set i (.inside loc point) } : Interleaved G Loc T P).Exclusive := by
  -- the lock was free, so the thread comes in alone
  have hnobody : ∀ (j : Nat) (other : P), state.places[j]? ≠ some (.inside loc other) := by
    intro j other hj
    simp [h.locked hj] at hfree
  constructor
  · intro found
    simp only [inside_set hplace]
    by_cases hfound : found = loc
    · subst hfound
      simp only [Function.update_self, true_iff]
      exact ⟨i, point, by simp⟩
    · rw [Function.update_of_ne hfound, h.locked_iff found]
      constructor
      · rintro ⟨j, other, hj⟩
        refine ⟨j, other, ?_⟩
        rw [if_neg (fun hij => by simp [← hij, hplace] at hj)]
        exact hj
      · rintro ⟨j, other, hj⟩
        split at hj
        · exact absurd (by injection hj with hloc; exact hloc.symm) hfound
        · exact ⟨j, other, hj⟩
  · intro j k found point' other hj hk
    rw [inside_set hplace] at hj hk
    split at hj <;> split at hk
    · omega
    · injection hj with hloc
      subst hloc
      exact absurd hk (hnobody k other)
    · injection hk with hloc
      subst hloc
      exact absurd hj (hnobody j point')
    · exact h.sole hj hk

/-- A thread gives its lock back. -/
theorem give {i : Nat} {loc : Loc} {point : P} {thread : T} {memory : G}
    (hplace : state.places[i]? = some (Place.inside loc point)) :
    ({ memory, locked := Function.update state.locked loc false
       places := state.places.set i (.outside thread) } : Interleaved G Loc T P).Exclusive := by
  -- only the thread that leaves was inside at this location
  have hothers : ∀ (j : Nat) (found : Loc) (other : P),
      (state.places.set i (Place.outside thread))[j]? = some (.inside found other) ↔
        found ≠ loc ∧ state.places[j]? = some (Place.inside found other) := by
    intro j found other
    rw [inside_set hplace]
    split
    · rename_i hij
      subst hij
      simp only [reduceCtorEq, false_iff, not_and]
      intro hne hj
      obtain ⟨rfl, -⟩ := Place.inside.inj (Option.some.inj (hplace.symm.trans hj))
      exact hne rfl
    · rename_i hij
      refine ⟨fun hj => ⟨?_, hj⟩, fun hj => hj.2⟩
      rintro rfl
      exact hij (h.sole hplace hj)
  constructor
  · intro found
    simp only [hothers]
    by_cases hfound : found = loc
    · subst hfound
      simp
    · rw [Function.update_of_ne hfound, h.locked_iff found]
      simp [hfound]
  · intro j k found point' other hj hk
    exact h.sole ((hothers j found point').mp hj).2 ((hothers k found other).mp hk).2

end Interleaved.Exclusive

/-- Every step keeps the sections exclusive. -/
theorem Interleaved.Exclusive.step [DecidableEq Loc] {S : Sections G Loc T P I N}
    {next : Interleaved G Loc T P} (h : state.Exclusive) {label : InterleavedMove I N}
    (hstep : S.interleavedStep state label = some next) : next.Exclusive := by
  rcases Sections.interleaved_step_cases hstep with ⟨kind, thread, -, -, rfl⟩ |
    ⟨i, input, thread, after, -, hplace, -, rfl⟩ |
    ⟨i, input, thread, loc, point, -, hplace, -, hfree, rfl⟩ |
    ⟨i, loc, point, after, memory, -, hplace, -, rfl⟩ |
    ⟨i, loc, point, thread, memory, -, hplace, -, rfl⟩
  · exact h.spawn thread
  · exact h.stay hplace
  · exact h.take hplace hfree
  · exact h.go hplace
  · exact h.give hplace

/-- At the end of every run from a state where they are exclusive they still are. -/
theorem Interleaved.Exclusive.run [DecidableEq Loc] {S : Sections G Loc T P I N}
    {final : Interleaved G Loc T P} (h : state.Exclusive) {labels : List (InterleavedMove I N)}
    (hrun : runFrom S.interleavedStep state labels = some final) : final.Exclusive :=
  Reachable.invariant ⟨labels, hrun⟩ h (fun _ _ _ hstate hstep => hstate.step hstep)

end Exclusive

/-! ## The thread inside -/

section Held

variable {G Loc T P : Type*}

/-- The thread that is inside at a location, if one is. -/
def HeldBy (places : List (Place Loc T P)) (loc : Loc) (holder : Option Nat) : Prop :=
  ∀ i, holder = some i ↔ ∃ point, places[i]? = some (.inside loc point)

/-- Without threads nothing is held. -/
theorem held_by_nil (loc : Loc) : HeldBy ([] : List (Place Loc T P)) loc none :=
  fun i => by simp

variable {places : List (Place Loc T P)} {loc : Loc} {holder : Option Nat}

/-- A lock is taken exactly if some thread is inside. -/
theorem Interleaved.Exclusive.locked_eq {state : Interleaved G Loc T P} (h : state.Exclusive)
    (hheld : HeldBy state.places loc holder) : state.locked loc = holder.isSome := by
  rw [Bool.eq_iff_iff, h.locked_iff loc, Option.isSome_iff_exists]
  exact exists_congr fun i => (hheld i).symm

/-- There is one thread inside, or none. -/
theorem Interleaved.Exclusive.exists_held {state : Interleaved G Loc T P} (h : state.Exclusive)
    (loc : Loc) : ∃ holder, HeldBy state.places loc holder := by
  by_cases hinside : ∃ (i : Nat) (point : P), state.places[i]? = some (.inside loc point)
  · obtain ⟨i, point, hi⟩ := hinside
    refine ⟨some i, fun j => ⟨?_, ?_⟩⟩
    · rintro hij
      obtain rfl := Option.some.inj hij
      exact ⟨point, hi⟩
    · rintro ⟨other, hj⟩
      exact congrArg some (h.sole hi hj)
  · exact ⟨none, fun j => by simpa using fun point hj => hinside ⟨j, point, hj⟩⟩

namespace HeldBy

variable (h : HeldBy places loc holder)
include h

/-- Nobody else is inside. -/
theorem sole {i j : Nat} {point other : P} (hi : places[i]? = some (.inside loc point))
    (hj : places[j]? = some (.inside loc other)) : i = j :=
  Option.some.inj (((h i).mpr ⟨point, hi⟩).symm.trans ((h j).mpr ⟨other, hj⟩))

/-- A new thread is outside. -/
theorem spawn (thread : T) : HeldBy (places ++ [.outside thread]) loc holder := by
  intro i
  simp only [inside_append]
  exact h i

/-- A thread that is at no time inside at the location moves. -/
theorem move {i : Nat} {old new : Place Loc T P} (hplace : places[i]? = some old)
    (hold : ∀ point, old ≠ .inside loc point) (hnew : ∀ point, new ≠ .inside loc point) :
    HeldBy (places.set i new) loc holder := by
  intro j
  simp only [h j, inside_set hplace]
  by_cases hij : i = j
  · subst hij
    simp [hplace, hold, hnew]
  · simp only [if_neg hij]

/-- The thread inside goes on. -/
theorem go {i : Nat} {point after : P} (hplace : places[i]? = some (Place.inside loc point)) :
    HeldBy (places.set i (.inside loc after)) loc holder := by
  intro j
  simp only [h j, inside_set hplace]
  by_cases hij : i = j
  · subst hij
    simp [hplace]
  · simp only [if_neg hij]

/-- A thread comes in where nobody is. -/
theorem take {i : Nat} {old : Place Loc T P} {point : P} (hplace : places[i]? = some old)
    (hnobody : holder = none) : HeldBy (places.set i (.inside loc point)) loc (some i) := by
  subst hnobody
  intro j
  simp only [inside_set hplace, Option.some.injEq]
  by_cases hij : i = j
  · simp [hij]
  · simpa only [hij, if_false, false_iff, reduceCtorEq] using h j

/-- The thread inside leaves. -/
theorem give {i : Nat} {point : P} {thread : T}
    (hplace : places[i]? = some (Place.inside loc point)) :
    HeldBy (places.set i (.outside thread)) loc none := by
  intro j
  simp only [inside_set hplace, reduceCtorEq, false_iff]
  rintro ⟨other, hj⟩
  split at hj
  · cases hj
  · rename_i hij
    exact hij (h.sole hplace hj)

end HeldBy

end Held

/-! ## Threads inside always get out -/

section Finish

variable {G Loc T P I N : Type*} (S : Sections G Loc T P I N)

/-- How many statements the threads inside may have left. -/
def Sections.pending (places : List (Place Loc T P)) : Nat :=
  (places.map fun
    | .outside _ => 0
    | .inside _ point => S.rank point + 1).sum

variable {S}

/-- A smaller entry makes a smaller sum. -/
theorem sum_set_lt {l : List Nat} {i old new : Nat} (h : l[i]? = some old) (hlt : new < old) :
    (l.set i new).sum < l.sum := by
  induction l generalizing i with
  | nil => simp at h
  | cons head tail ih =>
      cases i with
      | zero =>
          obtain rfl := Option.some.inj h
          simpa using hlt
      | succ i =>
          have htail := ih (i := i) (by simpa using h)
          simpa using htail

/-- A statement leaves fewer statements pending. -/
theorem pending_set_lt {places : List (Place Loc T P)} {i : Nat} {loc : Loc} {point : P}
    {new : Place Loc T P} (h : places[i]? = some (.inside loc point))
    (hnew : (match new with
      | .outside _ => 0
      | .inside _ next => S.rank next + 1) < S.rank point + 1) :
    S.pending (places.set i new) < S.pending places := by
  unfold Sections.pending
  rw [List.map_set]
  exact sum_set_lt (by rw [List.getElem?_map, h]; rfl) hnew

variable [DecidableEq Loc]

/-- From every state the threads inside, without help from others, come to a state where nobody
is inside. No thread is ever stuck behind a lock for good. -/
theorem quiet_after (state : Interleaved G Loc T P) :
    ∃ labels final, runFrom S.interleavedStep state labels = some final ∧ final.Quiet ∧
      labels.flatMap InterleavedMove.moves = [] := by
  by_cases hquiet : state.Quiet
  · exact ⟨[], state, rfl, hquiet, rfl⟩
  · simp only [Interleaved.Quiet, not_forall] at hquiet
    obtain ⟨place, hmem, hinside⟩ := hquiet
    obtain ⟨i, hi⟩ := List.mem_iff_getElem?.mp hmem
    cases place with
    | outside thread => exact absurd ⟨thread, rfl⟩ hinside
    | inside loc point =>
        -- its next statement needs no lock, and then fewer are left
        obtain ⟨next, hstep, hlt⟩ : ∃ next, S.interleavedStep state (.next i) = some next ∧
            S.pending next.places < S.pending state.places := by
          rcases hstatement : S.statement loc point state.memory with ⟨thread | after, memory⟩
          · refine ⟨_, by simp only [Sections.interleavedStep, hi, hstatement]; rfl, ?_⟩
            exact pending_set_lt hi (Nat.succ_pos _)
          · refine ⟨_, by simp only [Sections.interleavedStep, hi, hstatement]; rfl, ?_⟩
            exact pending_set_lt hi
              (Nat.succ_lt_succ (S.rank_lt (congrArg Prod.fst hstatement)))
        obtain ⟨labels, final, hrun, hfinal, hmoves⟩ := quiet_after next
        exact ⟨.next i :: labels, final, run_from_cons.mpr ⟨next, hstep, hrun⟩, hfinal,
          by simpa [InterleavedMove.moves] using hmoves⟩
termination_by S.pending state.places

end Finish

end DynocClient.Lib
