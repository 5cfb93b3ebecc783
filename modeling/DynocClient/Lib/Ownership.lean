import DynocClient.Lib.Ledger
import Mathlib.Logic.ExistsUnique
import Mathlib.Logic.Function.Basic

/-!
# Handles and those who hold them

`hold` says which handle, if any, each holder has. The holding is `Owned` if what is held is
live and held once, and `Kept` if every live handle is held. The first is what makes a handle
safe to use and to give back; the second is that none is lost.

A fresh handle may be given to any holder and the holding stays `Owned`. It stays `Kept` exactly
if that holder had none (`Owned.kept_acquire_iff`).
-/

namespace DynocClient.Lib.Ledger

variable {α : Type*}

/-- What the holders have is live, and no two of them have the same handle. -/
structure Owned (holders : α → Prop) (hold : α → Option Nat) (ledger : Ledger) : Prop where
  sound : ledger.Sound
  live : ∀ {holder handle}, holders holder → hold holder = some handle → ledger.Live handle
  sole : ∀ {holder other handle}, holders holder → holders other →
    hold holder = some handle → hold other = some handle → holder = other

/-- Every live handle is with one of the holders. -/
def Kept (holders : α → Prop) (hold : α → Option Nat) (ledger : Ledger) : Prop :=
  ∀ handle, ledger.Live handle → ∃ holder, holders holder ∧ hold holder = some handle

variable {holders : α → Prop} {hold : α → Option Nat} {ledger : Ledger}

/-- Where nothing is held a new ledger is owned. -/
theorem owned_empty (h : ∀ holder, holders holder → hold holder = none) :
    Owned holders hold empty where
  sound := sound_empty
  live hholder hhold := by simp [h _ hholder] at hhold
  sole hholder _ hhold := by simp [h _ hholder] at hhold

/-- A new ledger has lost nothing. -/
theorem kept_empty : Kept holders hold empty :=
  fun handle hlive => absurd hlive (not_live_empty handle)

/-- In a holding that is `Owned` and `Kept` every live handle has exactly one holder. -/
theorem Owned.exists_unique (h : Owned holders hold ledger) (hkept : Kept holders hold ledger)
    {handle : Nat} (hlive : ledger.Live handle) :
    ∃! holder, holders holder ∧ hold holder = some handle := by
  obtain ⟨holder, hholder, hhold⟩ := hkept handle hlive
  exact ⟨holder, ⟨hholder, hhold⟩, fun other hother => h.sole hother.1 hholder hother.2 hhold⟩

/-! ## A fresh handle that is given back at once -/

/-- A handle acquired and released at once changes none that is live. -/
theorem Sound.live_bounce (h : ledger.Sound) {handle : Nat} :
    (ledger.acquire.release ledger.issued).Live handle ↔ ledger.Live handle := by
  rw [live_release, h.live_acquire]
  constructor
  · intro hlive
    exact hlive.1.resolve_right hlive.2
  · intro hlive
    exact ⟨.inl hlive, Nat.ne_of_lt hlive.1⟩

/-- A handle acquired and released at once leaves the ledger owned. -/
theorem Owned.bounce (h : Owned holders hold ledger) :
    Owned holders hold (ledger.acquire.release ledger.issued) where
  sound := h.sound.acquire.release (h.sound.live_acquire.mpr (.inr rfl))
  live hholder hhold := h.sound.live_bounce.mpr (h.live hholder hhold)
  sole := h.sole

/-- A handle acquired and released at once loses nothing. -/
theorem Owned.kept_bounce (h : Owned holders hold ledger) (hkept : Kept holders hold ledger) :
    Kept holders hold (ledger.acquire.release ledger.issued) :=
  fun handle hlive => hkept handle (h.sound.live_bounce.mp hlive)

variable [DecidableEq α] {holder : α}

/-! ## A fresh handle that is given to a holder -/

/-- Whatever the holder had before. -/
theorem Owned.acquire (h : Owned holders hold ledger) (holder : α) :
    Owned holders (Function.update hold holder (some ledger.issued)) ledger.acquire where
  sound := h.sound.acquire
  live := by
    intro other handle hother hhold
    rw [h.sound.live_acquire]
    by_cases hne : other = holder
    · subst hne
      rw [Function.update_self] at hhold
      exact .inr (Option.some.inj hhold).symm
    · rw [Function.update_of_ne hne] at hhold
      exact .inl (h.live hother hhold)
  sole := by
    intro first second handle hfirst hsecond hholdFirst hholdSecond
    -- what the others have was issued before
    have hbefore : ∀ other, holders other → other ≠ holder →
        Function.update hold holder (some ledger.issued) other ≠ some ledger.issued := by
      intro other hother hne hhold
      rw [Function.update_of_ne hne] at hhold
      exact Nat.lt_irrefl _ (h.live hother hhold).1
    by_cases hfirstNe : first = holder <;> by_cases hsecondNe : second = holder
    · rw [hfirstNe, hsecondNe]
    · subst hfirstNe
      rw [Function.update_self] at hholdFirst
      exact absurd (hholdSecond.trans hholdFirst.symm) (hbefore second hsecond hsecondNe)
    · subst hsecondNe
      rw [Function.update_self] at hholdSecond
      exact absurd (hholdFirst.trans hholdSecond.symm) (hbefore first hfirst hfirstNe)
    · rw [Function.update_of_ne hfirstNe] at hholdFirst
      rw [Function.update_of_ne hsecondNe] at hholdSecond
      exact h.sole hfirst hsecond hholdFirst hholdSecond

/-- No handle gets lost exactly if the holder had none. -/
theorem Owned.kept_acquire_iff (h : Owned holders hold ledger) (hkept : Kept holders hold ledger)
    (hholder : holders holder) :
    Kept holders (Function.update hold holder (some ledger.issued)) ledger.acquire ↔
      hold holder = none := by
  constructor
  · intro hacquire
    cases hhold : hold holder with
    | none => rfl
    | some handle =>
        have hlive := h.live hholder hhold
        obtain ⟨other, hother, hheld⟩ := hacquire handle (h.sound.live_acquire.mpr (.inl hlive))
        by_cases hne : other = holder
        · subst hne
          rw [Function.update_self] at hheld
          exact absurd (Option.some.inj hheld).symm (Nat.ne_of_lt hlive.1)
        · rw [Function.update_of_ne hne] at hheld
          exact absurd (h.sole hother hholder hheld hhold) hne
  · intro hnone handle hlive
    rcases h.sound.live_acquire.mp hlive with hbefore | rfl
    · obtain ⟨other, hother, hheld⟩ := hkept handle hbefore
      have hne : other ≠ holder := by
        rintro rfl
        simp [hnone] at hheld
      exact ⟨other, hother, by rwa [Function.update_of_ne hne]⟩
    · exact ⟨holder, hholder, Function.update_self ..⟩

/-! ## A handle that its holder gives back -/

/-- A holder that releases its handle holds none. -/
theorem Owned.release (h : Owned holders hold ledger) (hholder : holders holder) {handle : Nat}
    (hhold : hold holder = some handle) :
    Owned holders (Function.update hold holder none) (ledger.release handle) := by
  have hkeeps : ∀ {other held}, Function.update hold holder none other = some held →
      other ≠ holder ∧ hold other = some held := by
    intro other held hheld
    by_cases hne : other = holder
    · subst hne
      simp at hheld
    · exact ⟨hne, by rwa [Function.update_of_ne hne] at hheld⟩
  refine ⟨h.sound.release (h.live hholder hhold), ?_, ?_⟩
  · intro other held hother hheld
    obtain ⟨hne, hheld⟩ := hkeeps hheld
    refine live_release.mpr ⟨h.live hother hheld, ?_⟩
    rintro rfl
    exact hne (h.sole hother hholder hheld hhold)
  · intro first second held hfirst hsecond hheldFirst hheldSecond
    exact h.sole hfirst hsecond (hkeeps hheldFirst).2 (hkeeps hheldSecond).2

/-- A handle released by its holder is not lost. -/
theorem Kept.release (hkept : Kept holders hold ledger) {handle : Nat}
    (hhold : hold holder = some handle) :
    Kept holders (Function.update hold holder none) (ledger.release handle) := by
  intro other hlive
  obtain ⟨hbefore, hne⟩ := live_release.mp hlive
  obtain ⟨keeper, hkeeper, hheld⟩ := hkept other hbefore
  refine ⟨keeper, hkeeper, ?_⟩
  rw [Function.update_of_ne, hheld]
  rintro rfl
  exact hne (Option.some.inj (hheld.symm.trans hhold))

end DynocClient.Lib.Ledger
