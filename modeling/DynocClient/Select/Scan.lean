import DynocClient.Select.Search

/-!
# The search against a scan

`linearScan` is what `select_continuum` is for: from the left, the first element whose token is
not less than the one looked up. On sorted elements the search returns the element that the scan
finds, or one with an equal token (`select_continuum_scan`).
-/

namespace DynocClient

open Lib

/-- The position of the first element whose token is at or after this one. -/
def linearScan (elements : List Continuum) (token : Token) : Option Nat :=
  elements.findIdx? fun element => 0 ≤ tokenCmp element.token token

section Scan

variable {elements : List Continuum} {n : UInt32}

/-- An array that starts with the elements has them at their index. -/
theorem get_element (hlen : elements.length = n.toNat) (rest : List Continuum)
    (i : Fin n.toNat) :
    (elements ++ rest)[i.val]? = some (elements.get (i.cast hlen.symm)) := by
  have hlt : i.val < elements.length := by omega
  rw [List.getElem?_append_left hlt, List.getElem?_eq_getElem hlt]
  rfl

/-- Sorted elements have tokens that do not fall. -/
theorem element_monotone
    (hsorted : elements.Pairwise fun e e' => tokenCmp e.token e'.token ≤ 0)
    (hlen : elements.length = n.toNat) :
    Monotone fun i : Fin n.toNat => (elements.get (i.cast hlen.symm)).token.key := by
  intro i j hij
  rcases lt_or_eq_of_le hij with hlt | rfl
  · exact (token_cmp_ordered_by.le_iff _ _).mp
      (List.pairwise_iff_getElem.mp hsorted i.val j.val (by omega) (by omega) hlt)
  · exact le_refl _

/-- Past the last token the search returns the first element. -/
theorem select_continuum_past (hlen : elements.length = n.toNat) (hpos : 0 < elements.length)
    (rest : List Continuum) {token : Token}
    (hbelow : ∀ element ∈ elements, tokenCmp element.token token < 0) :
    selectContinuum (elements ++ rest) n token = .ok elements[0].index := by
  have hfirst : readContinuum (elements ++ rest) n 0 = .ok elements[0] :=
    read_continuum_eq (get_element hlen rest) ⟨0, by omega⟩
  have hlast : readContinuum (elements ++ rest) n (n.toNat - 1 : Int) =
      .ok elements[n.toNat - 1] := by
    have hread := read_continuum_eq (get_element hlen rest) ⟨n.toNat - 1, by omega⟩
    rwa [Int.ofNat_sub (by omega)] at hread
  have hless := hbelow elements[n.toNat - 1] (List.getElem_mem _)
  simp only [selectContinuum, hlast, hfirst, hless, if_true, bind, Except.bind, pure,
    Except.pure]

/-- On sorted elements, ties allowed, the search ends, reads no other element and returns a
position with the token that the scan finds, or position 0 if the scan finds none. Where all
tokens differ it is the position that the scan finds. -/
theorem select_continuum_scan (hlen : elements.length = n.toNat) (hpos : 1 ≤ n.toNat)
    (hindex : ∀ i (h : i < elements.length), elements[i].index.toNat = i)
    (hsorted : elements.Pairwise fun e e' => tokenCmp e.token e'.token ≤ 0)
    (rest : List Continuum) (token : Token) :
    ∃ p, ∃ h : p < elements.length,
      selectContinuum (elements ++ rest) n token = .ok elements[p].index ∧
      elements[p].index.toNat = p ∧
      match linearScan elements token with
      | some first => ∃ h' : first < elements.length,
          tokenCmp elements[p].token elements[first].token = 0 ∧
          (elements.Pairwise (fun e e' => tokenCmp e.token e'.token ≠ 0) → p = first)
      | none => p = 0 := by
  cases hscan : linearScan elements token with
  | none =>
      have hbelow : ∀ element ∈ elements, tokenCmp element.token token < 0 := by
        intro element hmem
        simpa using List.findIdx?_eq_none_iff.mp hscan element hmem
      have hzero : 0 < elements.length := by omega
      exact ⟨0, hzero, select_continuum_past hlen hzero rest hbelow, hindex 0 hzero, rfl⟩
  | some first =>
      obtain ⟨hlt, hge, hbefore⟩ := List.findIdx?_eq_some_iff_getElem.mp hscan
      obtain ⟨i, hselect, howner⟩ :=
        select_continuum_spec (get_element hlen rest) token hpos
      have hi : i.val < elements.length := by omega
      -- the element that the scan finds owns the token as well
      have hfirst := is_owner_first (i := ⟨first, by omega⟩) (element_monotone hsorted hlen)
        ((token_cmp_ordered_by.ge_iff _ _).mp (of_decide_eq_true hge)) (fun j hj => by
          have hless := hbefore j.val hj
          simp only [decide_eq_true_eq, Int.not_le] at hless
          exact (token_cmp_ordered_by.neg_iff _ _).mp hless)
      have hequal : tokenCmp elements[i.val].token elements[first].token = 0 :=
        (token_cmp_ordered_by.eq_iff _ _).mpr
          ((howner (element_monotone hsorted hlen)).unique hfirst)
      refine ⟨i.val, hi, hselect, hindex i.val hi, hlt, hequal, fun hdiffer => ?_⟩
      rcases Nat.lt_trichotomy i.val first with hless | heq | hgreater
      · exact absurd hequal (List.pairwise_iff_getElem.mp hdiffer i.val first hi hlt hless)
      · exact heq
      · refine absurd ?_ (List.pairwise_iff_getElem.mp hdiffer first i.val hlt hi hgreater)
        rw [token_cmp_ordered_by.eq_iff] at hequal ⊢
        exact hequal.symm

end Scan

/-- Three elements, two of them with one token. -/
def tiedElements : List Continuum :=
  [5, 5, 9].mapIdx fun i value =>
    ⟨UInt32.ofNat i, ⟨some (.ofAscii "113.107.149.188"), 6501, none⟩, tokenSetInt tokenInit value⟩

/-- A search finds one of two elements with the same token. -/
theorem select_tied :
    ∃ p, ∃ h : p < tiedElements.length,
      selectContinuum (tiedElements ++ []) 3 (tokenSetInt tokenInit 4) =
        .ok tiedElements[p].index ∧
      tokenCmp tiedElements[p].token (tokenSetInt tokenInit 5) = 0 := by
  have hlen : tiedElements.length = (3 : UInt32).toNat := by decide
  have hindex : ∀ i (h : i < tiedElements.length), tiedElements[i].index.toNat = i := by
    decide +kernel
  have hsorted : tiedElements.Pairwise fun e e' => tokenCmp e.token e'.token ≤ 0 := by
    decide +kernel
  have hscan : linearScan tiedElements (tokenSetInt tokenInit 4) = some 0 := by decide +kernel
  obtain ⟨p, h, hselect, -, hfound⟩ :=
    select_continuum_scan hlen (by decide) hindex hsorted [] (tokenSetInt tokenInit 4)
  rw [hscan] at hfound
  obtain ⟨_, hequal, _⟩ := hfound
  exact ⟨p, h, hselect, hequal⟩

end DynocClient
