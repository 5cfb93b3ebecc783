import Mathlib.Tactic.Common

/-!
# Runs of a partial step function

A system is a partial function `step : σ → ι → Option σ`: the label `ι` carries every choice
(which party moves, what its environment answers), so a run is a list of labels.
`Throughout P` says that `P` holds in every state a run visits, `EachStep C` that every step
the run takes meets the condition `C` on the state before it.

`throughout_of_step` is the invariant rule. `throughout_iff_each_step` is its exact form: when
a step keeps `P` exactly if it meets `C`, a run keeps `P` exactly if all its steps meet `C`.
-/

namespace DynocClient.Lib

variable {σ ι : Type*} (step : σ → ι → Option σ)

/-- Take the labelled steps one after the other; `none` as soon as one is not enabled. -/
def runFrom : σ → List ι → Option σ
  | state, [] => some state
  | state, label :: rest => (step state label).bind fun next => runFrom next rest

/-- The predicate holds in the start state and in every state the run reaches. -/
def Throughout (P : σ → Prop) : σ → List ι → Prop
  | state, [] => P state
  | state, label :: rest =>
      P state ∧ ∀ next, step state label = some next → Throughout P next rest

/-- Every step the run takes meets the condition on the state before it. -/
def EachStep (C : σ → ι → Prop) : σ → List ι → Prop
  | _, [] => True
  | state, label :: rest =>
      C state label ∧ ∀ next, step state label = some next → EachStep C next rest

/-- The states some run reaches from `start`. -/
def Reachable (start state : σ) : Prop :=
  ∃ labels, runFrom step start labels = some state

variable {step}

/-- No steps lead nowhere. -/
@[simp] theorem run_from_nil (state : σ) : runFrom step state [] = some state := rfl

/-- A run of one more step begins with an enabled step. -/
theorem run_from_cons {state final : σ} {label : ι} {rest : List ι} :
    runFrom step state (label :: rest) = some final ↔
      ∃ next, step state label = some next ∧ runFrom step next rest = some final := by
  simp [runFrom, Option.bind_eq_some_iff]

/-- Runs compose. -/
theorem run_from_append (state : σ) (first second : List ι) :
    runFrom step state (first ++ second) =
      (runFrom step state first).bind fun next => runFrom step next second := by
  induction first generalizing state with
  | nil => rfl
  | cons label rest ih =>
      simp only [List.cons_append, runFrom]
      cases step state label with
      | none => rfl
      | some next => exact ih next

/-- A view of a system that its steps change as another system's steps do, or not at all, runs as
that system does. -/
theorem run_from_view {τ κ : Type*} {inner : τ → κ → Option τ} (view : σ → τ) (seen : ι → Option κ)
    (hseen : ∀ state label shown next, seen label = some shown →
      step state label = some next → inner (view state) shown = some (view next))
    (hhidden : ∀ state label next, seen label = none →
      step state label = some next → view next = view state)
    {state final : σ} {labels : List ι} (hrun : runFrom step state labels = some final) :
    runFrom inner (view state) (labels.filterMap seen) = some (view final) := by
  induction labels generalizing state with
  | nil =>
      cases hrun
      rfl
  | cons label rest ih =>
      obtain ⟨next, hnext, hrest⟩ := run_from_cons.mp hrun
      have hlater := ih hrest
      cases hlabel : seen label with
      | none => rwa [List.filterMap_cons_none hlabel, ← hhidden state label next hlabel hnext]
      | some shown =>
          rw [List.filterMap_cons_some hlabel]
          exact run_from_cons.mpr ⟨_, hseen state label shown next hlabel hnext, hlater⟩

/-- Where every step lowers the measure of a part that is there by one if it is of some kind, and
does not raise it otherwise, a run has no more steps of the kind than the measure leaves room
for. -/
theorem run_count_le {τ : Type*} (measure : τ → Nat) (kind : ι → Bool) (part : σ → Option τ)
    (hstep : ∀ state label next before, part state = some before →
      step state label = some next → ∃ after, part next = some after ∧
        (if kind label then 1 else 0) + measure after ≤ measure before)
    {state final : σ} {labels : List ι} {before : τ} (hbefore : part state = some before)
    (hrun : runFrom step state labels = some final) :
    ∃ after, part final = some after ∧ labels.countP kind + measure after ≤ measure before := by
  induction labels generalizing state before with
  | nil =>
      cases hrun
      exact ⟨before, hbefore, by simp⟩
  | cons label rest ih =>
      obtain ⟨next, hnext, hrest⟩ := run_from_cons.mp hrun
      obtain ⟨middle, hmiddle, hlower⟩ := hstep state label next before hbefore hnext
      obtain ⟨after, hafter, hcount⟩ := ih hmiddle hrest
      refine ⟨after, hafter, ?_⟩
      rw [List.countP_cons]
      omega

/-- A reachable state's successors are reachable. -/
theorem Reachable.tail {start state next : σ} {label : ι} (h : Reachable step start state)
    (hstep : step state label = some next) : Reachable step start next := by
  obtain ⟨labels, hrun⟩ := h
  refine ⟨labels ++ [label], ?_⟩
  rw [run_from_append, hrun]
  simp [runFrom, hstep]

/-- The invariant rule: what holds at the start and is kept by every step holds of every
reachable state. -/
theorem Reachable.invariant {P : σ → Prop} {start state : σ} (h : Reachable step start state)
    (hstart : P start)
    (hkeep : ∀ state label next, P state → step state label = some next → P next) :
    P state := by
  obtain ⟨labels, hrun⟩ := h
  induction labels generalizing start with
  | nil =>
      cases hrun
      exact hstart
  | cons label rest ih =>
      obtain ⟨next, hstep, hrest⟩ := run_from_cons.mp hrun
      exact ih (hkeep start label next hstart hstep) hrest

/-- A predicate that holds throughout a run holds at its start. -/
theorem Throughout.start {P : σ → Prop} {state : σ} {labels : List ι}
    (h : Throughout step P state labels) : P state := by
  cases labels with
  | nil => exact h
  | cons label rest => exact h.1

/-- A predicate that holds throughout a run holds in its last state. -/
theorem Throughout.last {P : σ → Prop} {state final : σ} {labels : List ι}
    (h : Throughout step P state labels) (hrun : runFrom step state labels = some final) :
    P final := by
  induction labels generalizing state with
  | nil =>
      cases hrun
      exact h
  | cons label rest ih =>
      obtain ⟨next, hstep, hrest⟩ := run_from_cons.mp hrun
      exact ih (h.2 next hstep) hrest

/-- What holds at the start of a run and is kept by its steps, each of which meets a condition,
holds at its end. -/
theorem EachStep.invariant {P : σ → Prop} {C : σ → ι → Prop} {state final : σ} {labels : List ι}
    (h : EachStep step C state labels) (hrun : runFrom step state labels = some final)
    (hstart : P state)
    (hkeep : ∀ state label next, P state → C state label → step state label = some next →
      P next) :
    P final := by
  induction labels generalizing state with
  | nil =>
      cases hrun
      exact hstart
  | cons label rest ih =>
      obtain ⟨next, hstep, hrest⟩ := run_from_cons.mp hrun
      exact ih (h.2 next hstep) hrest (hkeep state label next hstart h.1 hstep)

/-- Take a run whose steps all meet `D`. Where such a step of an `I`-state keeps `P` exactly if
it meets `C`, the run keeps `P` exactly if every one of its steps meets `C`. -/
theorem throughout_iff_each_step {I P : σ → Prop} {C D : σ → ι → Prop}
    (hinv : ∀ state label next, I state → D state label → C state label →
      step state label = some next → I next)
    (hexact : ∀ state label, I state → P state → D state label →
      (C state label ↔ ∀ next, step state label = some next → P next))
    {state : σ} (hI : I state) (hP : P state) {labels : List ι}
    (hD : EachStep step D state labels) :
    Throughout step P state labels ↔ EachStep step C state labels := by
  induction labels generalizing state with
  | nil => exact ⟨fun _ => trivial, fun _ => hP⟩
  | cons label rest ih =>
      simp only [Throughout, EachStep, hP, true_and]
      constructor
      · intro h
        have hC : C state label :=
          (hexact state label hI hP hD.1).mpr fun next hnext => (h next hnext).start
        refine ⟨hC, fun next hnext => ?_⟩
        have hnextI := hinv state label next hI hD.1 hC hnext
        exact (ih hnextI (h next hnext).start (hD.2 next hnext)).mp (h next hnext)
      · intro hcase next hnext
        obtain ⟨hC, h⟩ := hcase
        have hnextP := (hexact state label hI hP hD.1).mp hC next hnext
        exact (ih (hinv state label next hI hD.1 hC hnext) hnextP (hD.2 next hnext)).mpr
          (h next hnext)

/-- A condition that follows from an invariant is met along every run. -/
theorem each_step_of_invariant {I : σ → Prop} {C : σ → ι → Prop}
    (hkeep : ∀ state label next, I state → step state label = some next → I next)
    (hmeet : ∀ state label, I state → C state label) {state : σ} (hI : I state)
    (labels : List ι) : EachStep step C state labels := by
  induction labels generalizing state with
  | nil => trivial
  | cons label rest ih =>
      exact ⟨hmeet state label hI, fun next hstep => ih (hkeep state label next hI hstep)⟩

/-- A condition that every step meets is met along every run. -/
theorem each_step_of_forall {C : σ → ι → Prop} (h : ∀ state label, C state label) (state : σ)
    (labels : List ι) : EachStep step C state labels :=
  each_step_of_invariant (I := fun _ => True) (fun _ _ _ _ _ => trivial)
    (fun state label _ => h state label) trivial labels

/-- A condition on the steps of a given run can be evaluated. -/
instance decidableEachStep (C : σ → ι → Prop) [∀ state label, Decidable (C state label)] :
    ∀ (state : σ) (labels : List ι), Decidable (EachStep step C state labels)
  | _, [] => isTrue trivial
  | state, label :: rest =>
      match hstep : step state label with
      | none =>
          decidable_of_iff (C state label) (by simp [EachStep, hstep])
      | some next =>
          have := decidableEachStep C next rest
          decidable_of_iff (C state label ∧ EachStep step C next rest)
            (by simp [EachStep, hstep])

end DynocClient.Lib
