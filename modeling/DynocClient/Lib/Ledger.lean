import Mathlib.Data.List.Perm.Subperm
import Mathlib.Data.List.Nodup
import Mathlib.Tactic.Common

/-!
# Ledgers of acquired and released handles

A `Ledger` accounts for handles that a library hands out and takes back. Handles are numbered
in the order they are issued, so a fresh handle is one no earlier call returned. The log of
releases keeps every call, a second release of one handle included, so that `Sound` can say
that there was none.
-/

namespace DynocClient.Lib

/-- The handles `0 .. issued - 1` have been handed out; `released` logs the ones given back,
the newest first. -/
structure Ledger where
  issued : Nat
  released : List Nat
  deriving DecidableEq

namespace Ledger

/-- Nothing handed out yet. -/
def empty : Ledger := ⟨0, []⟩

/-- Hand out a fresh handle, `ledger.issued`. -/
def acquire (ledger : Ledger) : Ledger := { ledger with issued := ledger.issued + 1 }

/-- Take a handle back. -/
def release (ledger : Ledger) (handle : Nat) : Ledger :=
  { ledger with released := handle :: ledger.released }

/-- The handle was handed out and has not been given back. -/
def Live (ledger : Ledger) (handle : Nat) : Prop :=
  handle < ledger.issued ∧ handle ∉ ledger.released

instance (ledger : Ledger) (handle : Nat) : Decidable (ledger.Live handle) :=
  inferInstanceAs (Decidable (_ ∧ _))

/-- The live handles, in the order they were handed out. -/
def live (ledger : Ledger) : List Nat :=
  (List.range ledger.issued).filter fun handle => handle ∉ ledger.released

/-- Every release gave back a handle that had been handed out, and none did so twice. -/
structure Sound (ledger : Ledger) : Prop where
  once : ledger.released.Nodup
  issued : ∀ handle ∈ ledger.released, handle < ledger.issued

/-- An acquisition issues one handle. -/
@[simp] theorem acquire_issued (ledger : Ledger) :
    ledger.acquire.issued = ledger.issued + 1 := rfl

/-- An acquisition releases none. -/
@[simp] theorem acquire_released (ledger : Ledger) :
    ledger.acquire.released = ledger.released := rfl

/-- A release issues none. -/
@[simp] theorem release_issued (ledger : Ledger) (handle : Nat) :
    (ledger.release handle).issued = ledger.issued := rfl

/-- A release releases its handle. -/
@[simp] theorem release_released (ledger : Ledger) (handle : Nat) :
    (ledger.release handle).released = handle :: ledger.released := rfl

/-- The live handles are those issued and not released. -/
theorem mem_live {ledger : Ledger} {handle : Nat} :
    handle ∈ ledger.live ↔ ledger.Live handle := by
  simp [live, Live]

/-- A new ledger is sound. -/
theorem sound_empty : empty.Sound := ⟨List.nodup_nil, by simp [empty]⟩

/-- A new ledger has no live handle. -/
theorem not_live_empty (handle : Nat) : ¬ empty.Live handle := by
  simp [Live, empty]

/-- An acquisition keeps a ledger sound. -/
theorem Sound.acquire {ledger : Ledger} (h : ledger.Sound) : ledger.acquire.Sound :=
  ⟨h.once, fun handle hmem => Nat.lt_succ_of_lt (h.issued handle hmem)⟩

/-- Giving back a live handle keeps the ledger sound. -/
theorem Sound.release {ledger : Ledger} {handle : Nat} (h : ledger.Sound)
    (hlive : ledger.Live handle) : (ledger.release handle).Sound := by
  refine ⟨List.nodup_cons.mpr ⟨hlive.2, h.once⟩, fun other hmem => ?_⟩
  rcases List.mem_cons.mp hmem with rfl | hmem
  · exact hlive.1
  · exact h.issued other hmem

/-- The handle handed out next was never given back before. -/
theorem Sound.fresh {ledger : Ledger} (h : ledger.Sound) :
    ledger.issued ∉ ledger.released :=
  fun hmem => Nat.lt_irrefl _ (h.issued _ hmem)

/-- After an acquisition one more handle is live, the one issued. -/
theorem Sound.live_acquire {ledger : Ledger} {handle : Nat} (h : ledger.Sound) :
    ledger.acquire.Live handle ↔ ledger.Live handle ∨ handle = ledger.issued := by
  constructor
  · intro hcase
    obtain ⟨hissued, hkept⟩ := hcase
    rcases Nat.lt_succ_iff_lt_or_eq.mp hissued with hlt | heq
    · exact .inl ⟨hlt, hkept⟩
    · exact .inr heq
  · rintro (hlive | rfl)
    · exact ⟨Nat.lt_succ_of_lt hlive.1, hlive.2⟩
    · exact ⟨Nat.lt_succ_self _, h.fresh⟩

/-- After a release its handle is live no more, and the others as before. -/
theorem live_release {ledger : Ledger} {handle other : Nat} :
    (ledger.release handle).Live other ↔ ledger.Live other ∧ other ≠ handle := by
  simp only [Live, release_issued, release_released, List.mem_cons, not_or]
  constructor
  · intro hcase
    obtain ⟨hissued, hne, hkept⟩ := hcase
    exact ⟨⟨hissued, hkept⟩, hne⟩
  · intro hcase
    obtain ⟨⟨hissued, hkept⟩, hne⟩ := hcase
    exact ⟨hissued, hne, hkept⟩

/-- If every live handle is held by one of the holders, there are no more live handles than
holders. -/
theorem live_length_le {α : Type*} {ledger : Ledger} (holders : List α) (hold : α → Option Nat)
    (h : ∀ handle, ledger.Live handle → ∃ holder ∈ holders, hold holder = some handle) :
    ledger.live.length ≤ holders.length := by
  have hsubset : ledger.live ⊆ holders.filterMap hold := by
    intro handle hmem
    obtain ⟨holder, hholder, heq⟩ := h handle (mem_live.mp hmem)
    exact List.mem_filterMap.mpr ⟨holder, hholder, heq⟩
  have hnodup : ledger.live.Nodup := List.nodup_range.filter _
  calc ledger.live.length
      ≤ (holders.filterMap hold).length := (hnodup.subperm hsubset).length_le
    _ ≤ holders.length := List.length_filterMap_le hold holders

/-! ## Settled ledgers -/

/-- Every handle handed out was given back once or passed on once, and none was both. -/
def Settled (ledger : Ledger) (passed : List Nat) : Prop :=
  (ledger.released ++ passed).Perm (List.range ledger.issued)

/-- A new ledger is settled with nothing passed on. -/
theorem settled_empty : empty.Settled [] := List.Perm.refl []

/-- The order of what was passed on does not matter. -/
theorem Settled.perm {ledger : Ledger} {passed passed' : List Nat} (h : ledger.Settled passed)
    (hperm : passed'.Perm passed) : ledger.Settled passed' :=
  (hperm.append_left _).trans h

/-- Settled, what was released and what was passed on count up to what was issued. -/
theorem Settled.length {ledger : Ledger} {passed : List Nat} (h : ledger.Settled passed) :
    ledger.released.length + passed.length = ledger.issued := by
  rw [← List.length_append, h.length_eq, List.length_range]

/-- A handle that is given back at once settles nothing and leaves nothing open. -/
theorem settled_bounce {ledger : Ledger} {passed : List Nat} :
    (ledger.acquire.release ledger.issued).Settled passed ↔ ledger.Settled passed := by
  unfold Settled
  simp only [release_released, acquire_released, release_issued, acquire_issued, List.cons_append,
    List.range_succ]
  constructor
  · intro h
    exact (List.perm_cons _).mp (h.trans (List.perm_append_singleton _ _))
  · intro h
    exact ((List.perm_cons _).mpr h).trans (List.perm_append_singleton _ _).symm

/-- A handle that is passed on is settled. -/
theorem Settled.pass {ledger : Ledger} {passed : List Nat} (h : ledger.Settled passed) :
    ledger.acquire.Settled (passed ++ [ledger.issued]) := by
  unfold Settled
  rw [acquire_released, acquire_issued, List.range_succ, ← List.append_assoc]
  exact h.append_right _

/-- A handle that is neither given back nor passed on never will be settled by later ones. -/
theorem not_settled_acquire {ledger : Ledger} {passed : List Nat}
    (h : ledger.released.length + passed.length ≤ ledger.issued) :
    ¬ ledger.acquire.Settled passed := by
  intro hsettled
  have hlength := hsettled.length
  rw [acquire_released, acquire_issued] at hlength
  omega

end Ledger

end DynocClient.Lib
