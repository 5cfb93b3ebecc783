import Mathlib.Logic.Function.Basic
import Mathlib.Tactic.Common

/-!
# A store in shards

A store keeps a value for each key, and an operation acts on the value of one key. Some of the
keys have a home among the shards, each of which is a store. Operations that are all made at the
homes of their keys are answered as one store would answer them in the same order, and leave the
values it would leave (`answers_at_homes`, `perform_at_homes`).
-/

namespace DynocClient.Lib

variable {K S O V R : Type*} [DecidableEq K] [DecidableEq S]

/-- What operations do: the key each acts on, what it makes of the value there, and what it
answers. -/
structure Operations (K O V R : Type*) where
  key : O → K
  act : O → V → V
  answer : O → V → R

/-- Each key has the same value in its home as in the store. -/
def Agree (home : K → Option S) (shards : S → K → V) (store : K → V) : Prop :=
  ∀ key shard, home key = some shard → shards shard key = store key

namespace Operations

variable (ops : Operations K O V R)

/-- The store after an operation. -/
def perform (store : K → V) (op : O) : K → V :=
  Function.update store (ops.key op) (ops.act op (store (ops.key op)))

/-- The answers of a store to operations in this order. -/
def answers : (K → V) → List O → List R
  | _, [] => []
  | store, op :: rest =>
      ops.answer op (store (ops.key op)) :: answers (ops.perform store op) rest

/-- The shards after an operation at one of them. -/
def performAt (shards : S → K → V) (entry : S × O) : S → K → V :=
  Function.update shards entry.1 (ops.perform (shards entry.1) entry.2)

/-- The answers of the shards to operations in this order, each at its shard. -/
def answersAt : (S → K → V) → List (S × O) → List R
  | _, [] => []
  | shards, entry :: rest =>
      ops.answer entry.2 (shards entry.1 (ops.key entry.2)) ::
        answersAt (ops.performAt shards entry) rest

section Homes

variable {home : K → Option S} {shards : S → K → V} {store : K → V}

/-- An operation at the home of its key. -/
theorem agree_perform_at (h : Agree home shards store) {entry : S × O}
    (hhome : home (ops.key entry.2) = some entry.1) :
    Agree home (ops.performAt shards entry) (ops.perform store entry.2) := by
  intro key shard hkey
  by_cases hshard : shard = entry.1
  · subst hshard
    rw [performAt, Function.update_self]
    by_cases hsame : key = ops.key entry.2
    · subst hsame
      rw [perform, perform, Function.update_self, Function.update_self, h _ _ hhome]
    · rw [perform, perform, Function.update_of_ne hsame, Function.update_of_ne hsame, h _ _ hkey]
  -- a key has one home, so the shards but this one keep what they have
  · have hother : key ≠ ops.key entry.2 := by
      rintro rfl
      exact hshard (Option.some.inj (hkey.symm.trans hhome))
    rw [performAt, Function.update_of_ne hshard, perform, Function.update_of_ne hother, h _ _ hkey]

variable {log : List (S × O)} (hlog : ∀ entry ∈ log, home (ops.key entry.2) = some entry.1)
include hlog

/-- The shards answer as the one store. -/
theorem answers_at_homes (h : Agree home shards store) :
    ops.answersAt shards log = ops.answers store (log.map Prod.snd) := by
  induction log generalizing shards store with
  | nil => rfl
  | cons entry rest ih =>
      have hentry := hlog entry List.mem_cons_self
      rw [List.map_cons, answersAt, answers, h _ _ hentry,
        ih (fun later hlater => hlog later (List.mem_cons_of_mem _ hlater))
          (agree_perform_at ops h hentry)]

/-- The shards agree with the one store again after the log. -/
theorem perform_at_homes (h : Agree home shards store) :
    Agree home (log.foldl ops.performAt shards) ((log.map Prod.snd).foldl ops.perform store) := by
  induction log generalizing shards store with
  | nil => exact h
  | cons entry rest ih =>
      exact ih (fun later hlater => hlog later (List.mem_cons_of_mem _ hlater))
        (agree_perform_at ops h (hlog entry List.mem_cons_self))

end Homes

end Operations

end DynocClient.Lib
