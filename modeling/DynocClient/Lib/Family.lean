import DynocClient.Lib.Runs
import Mathlib.Logic.Function.Basic

/-!
# Systems side by side

A family of systems that have nothing in common makes steps of one of them at a time. Where the
steps of every system add to a log of its own, those of the family add to one log, in which every
system finds its own (`family_log_run`).
-/

namespace DynocClient.Lib

variable {κ σ ι ε : Type*} [DecidableEq κ] (step : κ → σ → ι → Option σ)

/-- A step of one of the systems. -/
def familyStep (states : κ → σ) (label : κ × ι) : Option (κ → σ) :=
  (step label.1 (states label.1) label.2).map fun next => Function.update states label.1 next

/-- What one of the systems finds in the log of all. -/
def logOf (k : κ) (log : List (κ × ε)) : List ε :=
  log.filterMap fun entry => if entry.1 = k then some entry.2 else none

/-- In a longer log a system finds what it found before, and then the rest. -/
theorem log_of_append (k : κ) (log later : List (κ × ε)) :
    logOf k (log ++ later) = logOf k log ++ logOf k later := List.filterMap_append

/-- A system finds the entries that are its own. -/
theorem mem_log_of {k : κ} {log : List (κ × ε)} {entry : ε} :
    entry ∈ logOf k log ↔ (k, entry) ∈ log := by
  unfold logOf
  rw [List.mem_filterMap]
  constructor
  · rintro ⟨⟨other, found⟩, hmem, hentry⟩
    split at hentry
    · rename_i heq
      obtain rfl : other = k := heq
      obtain rfl := Option.some.inj hentry
      exact hmem
    · cases hentry
  · exact fun hmem => ⟨(k, entry), hmem, if_pos rfl⟩

/-- The entries of one system. -/
theorem log_of_map (k other : κ) (entries : List ε) :
    logOf k (entries.map fun entry => (other, entry)) = if other = k then entries else [] := by
  unfold logOf
  rw [List.filterMap_map]
  by_cases hother : other = k
  · have hall : ((fun entry : κ × ε => if entry.1 = k then some entry.2 else none) ∘
        fun entry => (other, entry)) = some := funext fun entry => if_pos hother
    rw [hall, List.filterMap_some, if_pos hother]
  · rw [if_neg hother]
    exact List.filterMap_eq_nil_iff.mpr fun entry _ => if_neg hother

variable {step} {P : κ → σ → List ε → Prop} {C : κ → σ → ι → Prop}
  (hkeep : ∀ k state label next log, P k state log → C k state label →
    step k state label = some next → ∃ entries, P k next (log ++ entries))
include hkeep

/-- A step of one system adds its entries to the log of all. -/
theorem family_log_step {states next : κ → σ} {label : κ × ι} {log : List (κ × ε)}
    (h : ∀ k, P k (states k) (logOf k log)) (hmet : C label.1 (states label.1) label.2)
    (hstep : familyStep step states label = some next) :
    ∃ entries, ∀ k, P k (next k) (logOf k (log ++ entries)) := by
  obtain ⟨reached, hreached, rfl⟩ := Option.map_eq_some_iff.mp hstep
  obtain ⟨entries, hentries⟩ := hkeep _ _ _ _ _ (h label.1) hmet hreached
  refine ⟨entries.map fun entry => (label.1, entry), fun k => ?_⟩
  rw [log_of_append, log_of_map]
  by_cases hk : label.1 = k
  · subst hk
    rw [Function.update_self, if_pos rfl]
    exact hentries
  · -- the others neither move nor log
    rw [Function.update_of_ne (Ne.symm hk), if_neg hk, List.append_nil]
    exact h k

/-- A run of the systems adds entries to the log of all. -/
theorem family_log_run {states final : κ → σ} {labels : List (κ × ι)} {log : List (κ × ε)}
    (h : ∀ k, P k (states k) (logOf k log))
    (hmet : EachStep (familyStep step) (fun states label => C label.1 (states label.1) label.2)
      states labels)
    (hrun : runFrom (familyStep step) states labels = some final) :
    ∃ later, ∀ k, P k (final k) (logOf k (log ++ later)) := by
  induction labels generalizing states log with
  | nil =>
      cases hrun
      refine ⟨[], fun k => ?_⟩
      rw [List.append_nil]
      exact h k
  | cons label rest ih =>
      obtain ⟨next, hstep, hrest⟩ := run_from_cons.mp hrun
      obtain ⟨entries, hnext⟩ := family_log_step hkeep h hmet.1 hstep
      obtain ⟨later, hfinal⟩ := ih hnext (hmet.2 next hstep) hrest
      refine ⟨entries ++ later, fun k => ?_⟩
      rw [← List.append_assoc]
      exact hfinal k

end DynocClient.Lib
