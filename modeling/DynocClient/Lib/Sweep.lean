import Mathlib.Data.List.Induction
import Mathlib.Data.List.Nodup
import Mathlib.Logic.Function.Basic
import Mathlib.Tactic.Common

/-!
# Loops over distinct cells with a carried variable

A loop visits items in order. Each visit reads and writes one cell of a memory and updates a
variable that the loop carries on. If no two items share a cell, every visit finds its cell as
the loop found it, so a cell's final content depends on its own first content and on the value
carried to it, `carried`, and on nothing else (`sweep_at`).

`loop_view` relates a loop on a larger state to the sweep over a view of it.
-/

namespace DynocClient.Lib

variable {τ κ ν γ σ : Type*}

/-- Run a step over the items, in order. -/
def loop (step : τ → γ → σ → γ × σ) : List τ → γ → σ → γ × σ
  | [], carry, state => (carry, state)
  | item :: rest, carry, state =>
      loop step rest (step item carry state).1 (step item carry state).2

/-- What a visit does to the carried variable and to its cell, both from the cell's content and
the carried value before. -/
structure Visit (τ κ ν γ : Type*) where
  cell : τ → κ
  carry : τ → ν → γ → γ
  value : τ → ν → γ → ν

variable [DecidableEq κ] (visit : Visit τ κ ν γ)

/-- One visit, on a plain memory. -/
def Visit.step (item : τ) (carry : γ) (memory : κ → ν) : γ × (κ → ν) :=
  (visit.carry item (memory (visit.cell item)) carry,
    Function.update memory (visit.cell item)
      (visit.value item (memory (visit.cell item)) carry))

/-- The loop that visits the items, on a plain memory. -/
def sweep : List τ → γ → (κ → ν) → γ × (κ → ν) := loop visit.step

/-- The carried value after some items, each finding its cell with the given content. -/
def carried (memory : κ → ν) (items : List τ) (carry : γ) : γ :=
  items.foldl (fun carry item => visit.carry item (memory (visit.cell item)) carry) carry

omit [DecidableEq κ] in
/-- A loop over two lists is a loop over the one and then over the other. -/
theorem loop_append (step : τ → γ → σ → γ × σ) (first second : List τ) (carry : γ) (state : σ) :
    loop step (first ++ second) carry state =
      loop step second (loop step first carry state).1 (loop step first carry state).2 := by
  induction first generalizing carry state with
  | nil => rfl
  | cons item rest ih => exact ih _ _

/-- A loop whose steps act on a view of the state as visits do acts on it as the sweep does. -/
theorem loop_view (view : σ → κ → ν) {step : τ → γ → σ → γ × σ}
    (h : ∀ item carry state,
      (step item carry state).1 = visit.carry item (view state (visit.cell item)) carry ∧
      view (step item carry state).2 = Function.update (view state) (visit.cell item)
        (visit.value item (view state (visit.cell item)) carry))
    (items : List τ) (carry : γ) (state : σ) :
    (loop step items carry state).1 = (sweep visit items carry (view state)).1 ∧
      view (loop step items carry state).2 = (sweep visit items carry (view state)).2 := by
  induction items generalizing carry state with
  | nil => exact ⟨rfl, rfl⟩
  | cons item rest ih =>
      obtain ⟨hcarry, hview⟩ := h item carry state
      have hrest := ih (step item carry state).1 (step item carry state).2
      rw [hview, hcarry] at hrest
      show (loop step rest _ _).1 = (sweep visit rest _ _).1 ∧
        view (loop step rest _ _).2 = (sweep visit rest _ _).2
      rw [hcarry]
      exact hrest

/-- A cell that no item visits keeps its content. -/
theorem sweep_other {items : List τ} {cell : κ} (h : cell ∉ items.map visit.cell) (carry : γ)
    (memory : κ → ν) : (sweep visit items carry memory).2 cell = memory cell := by
  induction items generalizing carry memory with
  | nil => rfl
  | cons item rest ih =>
      rw [List.map_cons, List.mem_cons, not_or] at h
      show (sweep visit rest (visit.step item carry memory).1
        (visit.step item carry memory).2).2 cell = memory cell
      rw [ih h.2]
      exact Function.update_of_ne h.1 _ _

omit [DecidableEq κ] in
/-- The carried value depends only on what is in the visited cells. -/
theorem carried_congr {items : List τ} {memory other : κ → ν}
    (h : ∀ item ∈ items, memory (visit.cell item) = other (visit.cell item)) (carry : γ) :
    carried visit memory items carry = carried visit other items carry := by
  induction items generalizing carry with
  | nil => rfl
  | cons item rest ih =>
      simp only [carried, List.foldl_cons, h item List.mem_cons_self]
      exact ih (fun item hmem => h item (List.mem_cons_of_mem _ hmem)) _

/-- Over distinct cells the sweep carries what it would if it wrote nothing. -/
theorem sweep_carry {items : List τ} (h : (items.map visit.cell).Nodup) (carry : γ)
    (memory : κ → ν) :
    (sweep visit items carry memory).1 = carried visit memory items carry := by
  induction items generalizing carry memory with
  | nil => rfl
  | cons item rest ih =>
      rw [List.map_cons, List.nodup_cons] at h
      show (sweep visit rest (visit.step item carry memory).1
        (visit.step item carry memory).2).1 = carried visit memory (item :: rest) carry
      rw [ih h.2]
      refine carried_congr visit (fun other hmem => ?_) _
      have hne : visit.cell other ≠ visit.cell item := by
        intro heq
        exact h.1 (heq ▸ List.mem_map_of_mem hmem)
      exact Function.update_of_ne hne _ _

/-- After the loop a cell holds what its own visit wrote, computed from its first content and
the value carried to it. -/
theorem sweep_at {before after : List τ} {item : τ}
    (h : ((before ++ item :: after).map visit.cell).Nodup) (carry : γ) (memory : κ → ν) :
    (sweep visit (before ++ item :: after) carry memory).2 (visit.cell item) =
      visit.value item (memory (visit.cell item)) (carried visit memory before carry) := by
  rw [List.map_append, List.map_cons] at h
  obtain ⟨hbefore, hrest, hdisjoint⟩ := List.nodup_append.mp h
  have hnot : visit.cell item ∉ before.map visit.cell := by
    intro hmem
    exact hdisjoint _ hmem _ List.mem_cons_self rfl
  have hafter : visit.cell item ∉ after.map visit.cell := (List.nodup_cons.mp hrest).1
  unfold sweep
  rw [loop_append]
  show (sweep visit after _ (Function.update (sweep visit before carry memory).2
    (visit.cell item) (visit.value item ((sweep visit before carry memory).2 (visit.cell item))
      (sweep visit before carry memory).1))).2 (visit.cell item) = _
  rw [sweep_other visit hafter, Function.update_self, sweep_other visit hnot,
    sweep_carry visit hbefore]

/-- A carried variable that some visits overwrite holds the latest of the values written. -/
theorem foldl_latest (write : τ → Option γ) (items : List τ) (carry : γ) :
    items.foldl (fun carry item => (write item).getD carry) carry =
      (items.filterMap write).getLast?.getD carry := by
  induction items using List.reverseRecOn with
  | nil => rfl
  | append_singleton items item ih =>
      rw [List.foldl_append, ih, List.filterMap_append]
      cases hwrite : write item with
      | none => simp [hwrite]
      | some value => simp [hwrite]

end DynocClient.Lib
