import Mathlib.Tactic.Common

/-!
# Computations with a record of what they do

A `Traced` computation may fail, and its events are kept up to that point. What it returns does
not depend on the record: `result` turns a traced computation into a plain one, step by step
(`result_bind`). `OnlyDoes` says that every event of a computation is of a kind that is allowed,
and its rules go by the steps of the computation too.
-/

namespace DynocClient.Lib

/-- What a computation does, and what it returns or fails with. -/
structure Traced (ε ι α : Type) where
  events : List ι
  result : Except ε α

namespace Traced

variable {ε ι α β : Type}

/-- What follows a failure is not done. -/
protected def bind (m : Traced ε ι α) (f : α → Traced ε ι β) : Traced ε ι β :=
  match m.result with
  | .ok a => ⟨m.events ++ (f a).events, (f a).result⟩
  | .error e => ⟨m.events, .error e⟩

instance : Monad (Traced ε ι) where
  pure a := ⟨[], .ok a⟩
  bind := Traced.bind

/-- A step that is recorded, whether it fails or not. -/
def act (event : ι) (result : Except ε α) : Traced ε ι α := ⟨[event], result⟩

/-- A step that is not recorded. -/
def silent (result : Except ε α) : Traced ε ι α := ⟨[], result⟩

/-! ## The result -/

/-- A value is its own result. -/
@[simp] theorem result_pure (a : α) : (pure a : Traced ε ι α).result = pure a := rfl

/-- An event does not change the result. -/
@[simp] theorem result_act (event : ι) (result : Except ε α) :
    (act event result).result = result := rfl

/-- A silent computation has its result. -/
@[simp] theorem result_silent (result : Except ε α) :
    (silent result : Traced ε ι α).result = result := rfl

/-- Results are bound as computations are. -/
@[simp] theorem result_bind (m : Traced ε ι α) (f : α → Traced ε ι β) :
    (m >>= f).result = m.result >>= fun a => (f a).result := by
  show (Traced.bind m f).result = _
  rw [Traced.bind]
  cases m.result <;> rfl

/-- The result of a branch is that of the branch taken. -/
@[simp] theorem result_ite (c : Prop) [Decidable c] (m n : Traced ε ι α) :
    (if c then m else n).result = if c then m.result else n.result := by
  split <;> rfl

/-! ## The events -/

/-- Every event is allowed. -/
def OnlyDoes (allowed : ι → Prop) (m : Traced ε ι α) : Prop := ∀ event ∈ m.events, allowed event

section OnlyDoes

variable {allowed : ι → Prop}

/-- A value does nothing. -/
theorem only_does_pure (a : α) : OnlyDoes allowed (pure a : Traced ε ι α) := by
  intro event hevent
  exact absurd hevent List.not_mem_nil

/-- An event that is allowed is all that is done. -/
theorem only_does_act (event : ι) (result : Except ε α) (h : allowed event) :
    OnlyDoes allowed (act event result) := by
  intro other hother
  rwa [List.mem_singleton.mp hother]

/-- A step that returns allows the next one to start from what it returned. -/
theorem OnlyDoes.bind {m : Traced ε ι α} {f : α → Traced ε ι β} (hm : OnlyDoes allowed m)
    (hf : ∀ a, m.result = .ok a → OnlyDoes allowed (f a)) : OnlyDoes allowed (m >>= f) := by
  intro event hevent
  have hbind : event ∈ (Traced.bind m f).events := hevent
  rw [Traced.bind] at hbind
  split at hbind
  · next a ha =>
      rcases List.mem_append.mp hbind with hfirst | hnext
      · exact hm event hfirst
      · exact hf a ha event hnext
  · exact hm event hbind

end OnlyDoes

end Traced

end DynocClient.Lib
