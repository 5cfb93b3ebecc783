import DynocClient.Lib.Ownership

/-!
# Giving everything back

A teardown goes through the holders and gives back what each of them has, without taking it from
them. Where the holding is `Owned` and no holder comes twice, nothing is given back that is not
live (`Owned.sound_give_back`), and what stays live is what none of them had
(`live_give_back`). Where it is `Kept` as well and everyone comes, nothing stays live
(`Owned.settled_give_back`).
-/

namespace DynocClient.Lib.Ledger

variable {α : Type*}

/-- Give back what a holder has, if anything. -/
def giveBackOne (hold : α → Option Nat) (ledger : Ledger) (holder : α) : Ledger :=
  match hold holder with
  | none => ledger
  | some handle => ledger.release handle

/-- Give back what the holders have, one after the other. -/
def giveBack (hold : α → Option Nat) (ledger : Ledger) (list : List α) : Ledger :=
  list.foldl (giveBackOne hold) ledger

/-- The handles that the holders have. -/
def given (hold : α → Option Nat) (list : List α) : List Nat := list.filterMap hold

variable {holders : α → Prop} {hold : α → Option Nat} {ledger : Ledger} {list : List α}

/-- Two lists are given back one after the other. -/
theorem give_back_append (first second : List α) :
    giveBack hold ledger (first ++ second) = giveBack hold (giveBack hold ledger first) second :=
  List.foldl_append ..

/-- Giving back issues no handle. -/
@[simp] theorem give_back_one_issued (holder : α) :
    (giveBackOne hold ledger holder).issued = ledger.issued := by
  unfold giveBackOne
  cases hold holder <;> rfl

/-- Giving back a list issues no handle. -/
@[simp] theorem give_back_issued : (giveBack hold ledger list).issued = ledger.issued := by
  induction list generalizing ledger with
  | nil => rfl
  | cons holder rest ih => exact ih.trans (give_back_one_issued holder)

/-- What is given back, the latest first. -/
theorem give_back_released :
    (giveBack hold ledger list).released = (given hold list).reverse ++ ledger.released := by
  induction list generalizing ledger with
  | nil => rfl
  | cons holder rest ih =>
      show (giveBack hold (giveBackOne hold ledger holder) rest).released = _
      rw [ih]
      cases hhold : hold holder with
      | none => simp [given, giveBackOne, hhold]
      | some handle => simp [given, giveBackOne, hhold]

/-- The handles given back are those that the list holds. -/
theorem mem_given {handle : Nat} :
    handle ∈ given hold list ↔ ∃ holder ∈ list, hold holder = some handle :=
  List.mem_filterMap

/-- What stays live is what none of them had. -/
theorem live_give_back {handle : Nat} :
    (giveBack hold ledger list).Live handle ↔
      ledger.Live handle ∧ ∀ holder ∈ list, hold holder ≠ some handle := by
  unfold Live
  rw [give_back_issued, give_back_released, List.mem_append, List.mem_reverse, mem_given]
  constructor
  · rintro ⟨hissued, hkept⟩
    rw [not_or] at hkept
    exact ⟨⟨hissued, hkept.2⟩, fun holder hmem hhold => hkept.1 ⟨holder, hmem, hhold⟩⟩
  · rintro ⟨⟨hissued, hkept⟩, hnobody⟩
    refine ⟨hissued, not_or.mpr ⟨?_, hkept⟩⟩
    rintro ⟨holder, hmem, hhold⟩
    exact hnobody holder hmem hhold

/-- Holders that come once give back what they have once. -/
theorem Owned.given_nodup (h : Owned holders hold ledger) (hmem : ∀ holder ∈ list, holders holder)
    (hnodup : list.Nodup) : (given hold list).Nodup := by
  induction list with
  | nil => exact List.nodup_nil
  | cons holder rest ih =>
      obtain ⟨hholder, hrest⟩ := List.forall_mem_cons.mp hmem
      obtain ⟨hnot, hnodup⟩ := List.nodup_cons.mp hnodup
      have hnext := ih hrest hnodup
      cases hhold : hold holder with
      | none => simpa [given, hhold] using hnext
      | some handle =>
          have hfresh : handle ∉ given hold rest := by
            intro hgiven
            obtain ⟨other, hother, hsame⟩ := mem_given.mp hgiven
            exact hnot (h.sole hholder (hrest other hother) hhold hsame ▸ hother)
          simpa [given, hhold] using ⟨by simpa [given] using hfresh, hnext⟩

/-- Nothing is given back that is not live. -/
theorem Owned.sound_give_back (h : Owned holders hold ledger)
    (hmem : ∀ holder ∈ list, holders holder) (hnodup : list.Nodup) :
    (giveBack hold ledger list).Sound := by
  have hlive : ∀ handle ∈ given hold list, ledger.Live handle := by
    intro handle hgiven
    obtain ⟨holder, hholder, hhold⟩ := mem_given.mp hgiven
    exact h.live (hmem holder hholder) hhold
  constructor
  · rw [give_back_released, List.nodup_append]
    refine ⟨List.nodup_reverse.mpr (h.given_nodup hmem hnodup), h.sound.once, ?_⟩
    rintro handle hgiven other hreleased rfl
    exact (hlive handle (List.mem_reverse.mp hgiven)).2 hreleased
  · intro handle hreleased
    rw [give_back_released, List.mem_append, List.mem_reverse] at hreleased
    rw [give_back_issued]
    exact hreleased.elim (fun hgiven => (hlive handle hgiven).1) (h.sound.issued handle)

/-- Where no live handle is lost, all are closed exactly if everyone who has one comes. -/
theorem Kept.closed (hkept : Kept holders hold ledger)
    (hall : ∀ holder, holders holder → hold holder ≠ none → holder ∈ list) (handle : Nat) :
    ¬ (giveBack hold ledger list).Live handle := by
  rw [live_give_back]
  rintro ⟨hlive, hnobody⟩
  obtain ⟨holder, hholder, hhold⟩ := hkept handle hlive
  exact hnobody holder (hall holder hholder (by simp [hhold])) hhold

/-- A ledger that is sound and has nothing live is settled. -/
theorem Sound.settled (h : ledger.Sound) (hclosed : ∀ handle, ¬ ledger.Live handle) :
    ledger.Settled [] := by
  unfold Settled
  rw [List.append_nil, List.perm_ext_iff_of_nodup h.once List.nodup_range]
  intro handle
  rw [List.mem_range]
  refine ⟨h.issued handle, fun hissued => ?_⟩
  by_contra hkept
  exact hclosed handle ⟨hissued, hkept⟩

/-- Everything that was handed out has been given back once. -/
theorem Owned.settled_give_back (h : Owned holders hold ledger)
    (hkept : Kept holders hold ledger) (hmem : ∀ holder ∈ list, holders holder)
    (hnodup : list.Nodup)
    (hall : ∀ holder, holders holder → hold holder ≠ none → holder ∈ list) :
    (giveBack hold ledger list).Settled [] :=
  (h.sound_give_back hmem hnodup).settled (hkept.closed hall)

/-! ## Holders that change places -/

section Comp

variable {β : Type*} {place : β → α}

/-- A holding stays owned if every holder takes the place of another one. -/
theorem Owned.comp (h : Owned holders hold ledger) (hplace : Function.Injective place) :
    Owned (fun holder => holders (place holder)) (fun holder => hold (place holder)) ledger where
  sound := h.sound
  live := fun hholder hhold => h.live hholder hhold
  sole := fun hholder hother hhold hsame => hplace (h.sole hholder hother hhold hsame)

/-- It stays kept if every place is taken. -/
theorem Kept.comp (h : Kept holders hold ledger) (hplace : Function.Surjective place) :
    Kept (fun holder => holders (place holder)) (fun holder => hold (place holder)) ledger := by
  intro handle hlive
  obtain ⟨holder, hholder, hhold⟩ := h handle hlive
  obtain ⟨before, rfl⟩ := hplace holder
  exact ⟨before, hholder, hhold⟩

end Comp

end DynocClient.Lib.Ledger
