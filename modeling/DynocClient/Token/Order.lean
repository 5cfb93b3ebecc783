import DynocClient.Lib.Comparator
import DynocClient.Token.Basic
import Mathlib.Data.Prod.Lex
import Mathlib.Data.List.Lex

/-!
# The order of tokens

`token_cmp` goes through a token in stages. `Token.key` is the value these stages compare in
lexicographic order, so `token_cmp_ordered_by` makes every fact about the order of tokens one
about a linear order.
-/

namespace DynocClient

open Lib

/-- What `token_cmp` compares: the sign word, then the length, then the words in use. Of a token
with sign word 0 nothing else counts. -/
def Token.key (token : Token) : ℕ ×ₗ ℕ ×ₗ List ℕ :=
  if token.signum = 0 then toLex (0, toLex (0, []))
  else toLex (token.signum.toNat, toLex (token.length.toNat, token.words.map UInt32.toNat))

/-- A token has `len` words in use. -/
theorem Token.words_length (token : Token) : token.words.length = token.length.toNat := by
  have h : token.length.toNat ≤ 4 := UInt32.le_iff_toNat_le.mp token.length_le
  simp only [words, List.length_take, Vector.length_toList]
  omega

/-- On lists of one length the word loop decides the lexicographic order. -/
theorem token_cmp_words_iff (as bs : List UInt32) (h : as.length = bs.length) :
    (tokenCmpWords as bs < 0 ↔ as.map UInt32.toNat < bs.map UInt32.toNat) ∧
      (0 < tokenCmpWords as bs ↔ bs.map UInt32.toNat < as.map UInt32.toNat) := by
  induction as generalizing bs with
  | nil =>
      obtain rfl : bs = [] := List.length_eq_zero_iff.mp h.symm
      simp [tokenCmpWords]
  | cons a as ih =>
      obtain ⟨b, bs, rfl⟩ : ∃ b bs', bs = b :: bs' :=
        List.exists_cons_of_length_eq_add_one h.symm
      have hrest := ih bs (Nat.succ.inj h)
      simp only [List.map_cons, List.cons_lt_cons_iff, tokenCmpWords]
      rcases Nat.lt_trichotomy a.toNat b.toNat with hlt | heq | hgt
      · have hne : a ≠ b := fun hab => by simp [hab] at hlt
        have hngt : ¬ a > b := fun hab => Nat.lt_asymm hlt (UInt32.lt_iff_toNat_lt.mp hab)
        rw [if_pos hne, if_neg hngt]
        omega
      · obtain rfl : a = b := UInt32.toNat_inj.mp heq
        simpa using hrest
      · have hne : a ≠ b := fun hab => by simp [hab] at hgt
        rw [if_pos hne, if_pos (UInt32.lt_iff_toNat_lt.mpr hgt)]
        omega

/-- The sign word is compared first. -/
theorem Token.key_lt_of_signum_lt {a b : Token} (h : a.signum < b.signum) : a.key < b.key := by
  have hlt : a.signum.toNat < b.signum.toNat := UInt32.lt_iff_toNat_lt.mp h
  have hb : b.signum ≠ 0 := by
    intro hb
    simp [hb] at hlt
  simp only [Token.key, if_neg hb]
  split
  · refine Prod.Lex.toLex_lt_toLex.mpr (.inl ?_)
    exact Nat.lt_of_le_of_lt (Nat.zero_le _) hlt
  · exact Prod.Lex.toLex_lt_toLex.mpr (.inl hlt)

/-- `token_cmp` compares the keys. -/
theorem token_cmp_ordered_by : OrderedBy tokenCmp Token.key := by
  suffices h : ∀ a b : Token, (tokenCmp a b < 0 ↔ a.key < b.key) ∧
      (0 < tokenCmp a b ↔ b.key < a.key) from ⟨fun a b => (h a b).1, fun a b => (h a b).2⟩
  intro a b
  simp only [tokenCmp]
  by_cases hsign : a.signum = b.signum
  · by_cases ha : a.signum = 0
    · have hb : b.signum = 0 := hsign ▸ ha
      simp [Token.key, ha, hb]
    · have hb : b.signum ≠ 0 := hsign ▸ ha
      rw [if_pos hsign, if_neg ha, Token.key, if_neg ha, Token.key, if_neg hb]
      by_cases hlen : a.length = b.length
      · rw [if_pos hlen]
        have hwords := token_cmp_words_iff a.words b.words (by simp [Token.words_length, hlen])
        simpa [Prod.Lex.toLex_lt_toLex, hsign, hlen] using hwords
      · have hne : a.length.toNat ≠ b.length.toNat := fun h => hlen (UInt32.toNat_inj.mp h)
        rw [if_neg hlen]
        simp only [Prod.Lex.toLex_lt_toLex, hsign, gt_iff_lt, UInt32.lt_iff_toNat_lt]
        split <;> constructor <;> simp <;> omega
  · have hne : a.signum.toNat ≠ b.signum.toNat := fun h => hsign (UInt32.toNat_inj.mp h)
    rw [if_neg hsign]
    by_cases hgt : a.signum > b.signum
    · have hlt := Token.key_lt_of_signum_lt hgt
      rw [if_pos hgt]
      exact ⟨iff_of_false (by decide) hlt.asymm, iff_of_true (by decide) hlt⟩
    · have hlt := Token.key_lt_of_signum_lt (a := a) (b := b) (by
        rw [gt_iff_lt, UInt32.lt_iff_toNat_lt] at hgt
        exact UInt32.lt_iff_toNat_lt.mpr (by omega))
      rw [if_neg hgt]
      exact ⟨iff_of_true (by decide) hlt, iff_of_false (by decide) hlt.asymm⟩

/-! ## The preorder -/

/-- The comparison of words gives -1, 0 or 1. -/
theorem token_cmp_words_values (as bs : List UInt32) :
    tokenCmpWords as bs = -1 ∨ tokenCmpWords as bs = 0 ∨ tokenCmpWords as bs = 1 := by
  induction as generalizing bs with
  | nil => simp [tokenCmpWords]
  | cons a as ih =>
      cases bs with
      | nil => simp [tokenCmpWords]
      | cons b bs =>
          rw [tokenCmpWords]
          split
          · split <;> simp
          · exact ih bs

/-- `token_cmp` gives -1, 0 or 1. -/
theorem token_cmp_values (t u : Token) :
    tokenCmp t u = -1 ∨ tokenCmp t u = 0 ∨ tokenCmp t u = 1 := by
  unfold tokenCmp
  split
  · split
    · exact .inr (.inl rfl)
    · split
      · exact token_cmp_words_values t.words u.words
      · split <;> simp
  · split <;> simp

/-- What counts of a token is its sign word and, if that is not 0, its words in use. -/
theorem Token.key_eq_iff (t u : Token) : t.key = u.key ↔
    t.signum = u.signum ∧ (t.signum = 0 ∨ t.length = u.length ∧ t.words = u.words) := by
  have hnat : ∀ a : UInt32, a.toNat = 0 ↔ a = 0 := fun a => UInt32.toNat_inj (b := 0)
  have hwords : t.words.map UInt32.toNat = u.words.map UInt32.toNat ↔ t.words = u.words :=
    List.map_inj_right fun a b => UInt32.toNat_inj.mp
  by_cases ht : t.signum = 0
  · by_cases hu : u.signum = 0
    · simp [key, ht, hu]
    · have hne : u.signum.toNat ≠ 0 := fun h => hu ((hnat _).mp h)
      simp [key, ht, hu, hne.symm, Ne.symm hu]
  · by_cases hu : u.signum = 0
    · have hne : t.signum.toNat ≠ 0 := fun h => ht ((hnat _).mp h)
      simp [key, ht, hu, hne]
    · simp [key, ht, hu, hwords, UInt32.toNat_inj]

/-- `token_cmp` is a total preorder, and the tokens it takes for equal are the ones of one sign
word that are zero or have the same words in use. -/
theorem token_cmp_total_preorder (t u v : Token) :
    tokenCmp t t = 0 ∧ tokenCmp t u = -tokenCmp u t ∧
      (tokenCmp t u ≤ 0 → tokenCmp u v ≤ 0 → tokenCmp t v ≤ 0) ∧
      (tokenCmp t u = 0 ↔
        t.signum = u.signum ∧ (t.signum = 0 ∨ t.length = u.length ∧ t.words = u.words)) := by
  refine ⟨?_, ?_, ?_, ?_⟩
  · exact (token_cmp_ordered_by.eq_iff t t).mpr rfl
  · have hswap := token_cmp_ordered_by.consistent.swap
    have htu := token_cmp_values t u
    have hut := token_cmp_values u t
    have hlt := hswap t u
    have hgt := hswap u t
    omega
  · exact token_cmp_ordered_by.consistent.trans t u v
  · rw [token_cmp_ordered_by.eq_iff, Token.key_eq_iff]

/-- Three tokens that leave the comparison at the sign word and at the length. -/
theorem token_cmp_total_preorder_stages :
    let zero : Token := ⟨0, 3, #v[7, 8, 9, 0], by decide⟩
    let short : Token := ⟨1, 1, #v[9, 0, 0, 0], by decide⟩
    let long : Token := ⟨1, 2, #v[1, 2, 0, 0], by decide⟩
    tokenCmp zero short ≤ 0 ∧ tokenCmp short long ≤ 0 ∧ tokenCmp zero long ≤ 0 := by
  intro zero short long
  have hzero : tokenCmp zero short ≤ 0 := by decide
  have hshort : tokenCmp short long ≤ 0 := by decide
  exact ⟨hzero, hshort, (token_cmp_total_preorder zero short long).2.2.1 hzero hshort⟩

/-! ## Tokens of one word -/

/-- The key of a token with one word that has this value. -/
def ringKey (value : Nat) : ℕ ×ₗ ℕ ×ₗ List ℕ :=
  if value = 0 then toLex (0, toLex (0, [])) else toLex (1, toLex (1, [value]))

/-- On the ring `token_cmp` compares the values, zero included. -/
theorem ring_key_strict_mono : StrictMono ringKey := by
  intro a b hab
  have hb : b ≠ 0 := Nat.ne_of_gt (Nat.lt_of_le_of_lt (Nat.zero_le a) hab)
  by_cases ha : a = 0
  · simp [ringKey, ha, hb, Prod.Lex.toLex_lt_toLex]
  · simp only [ringKey, ha, hb, if_false, Prod.Lex.toLex_lt_toLex, lt_self_iff_false,
      true_and, false_or]
    exact List.cons_lt_cons_iff.mpr (.inl hab)

/-- A token of length 1 has its first word. -/
theorem Token.words_of_one {token : Token} (h : token.length = 1) :
    token.words = [token.mag.get ⟨0, mag_first⟩] := by
  have hlen : token.length.toNat = 1 := by rw [h]; rfl
  have hfirst : token.mag.toList[0]? = some (token.mag.get ⟨0, mag_first⟩) := by
    rw [Vector.getElem?_toList]
    exact Vector.getElem?_eq_getElem mag_first
  rw [words, hlen, List.take_one, List.head?_eq_getElem?, hfirst]
  rfl

/-- `token_set_int` makes the token of its value. -/
theorem token_set_int_key (token : Token) (val : UInt32) :
    (tokenSetInt token val).key = ringKey val.toNat := by
  have hwords : (tokenSetInt token val).words = [val] := by
    rw [Token.words_of_one rfl]
    exact congrArg (fun word => [word]) (Vector.getElem_set_self mag_first)
  by_cases hzero : val = 0
  · simp [Token.key, tokenSetInt, hzero, ringKey]
  · have hpos : val > 0 := UInt32.pos_iff_ne_zero.mpr hzero
    have hne : val.toNat ≠ 0 := fun h => hzero (UInt32.toNat_inj.mp h)
    have hsignum : (tokenSetInt token val).signum = 1 := if_pos hpos
    have hlength : (tokenSetInt token val).length = 1 := rfl
    have hone : (1 : UInt32) ≠ 0 := by decide
    rw [Token.key, hsignum, hlength, hwords, if_neg hone, ringKey, if_neg hne]
    rfl

/-- Tokens set to different values are different. -/
theorem token_set_int_cmp_ne (token token' : Token) {val val' : UInt32} (h : val ≠ val') :
    tokenCmp (tokenSetInt token val) (tokenSetInt token' val') ≠ 0 := by
  intro hcmp
  have hkey := (token_cmp_ordered_by.eq_iff _ _).mp hcmp
  rw [token_set_int_key, token_set_int_key] at hkey
  exact h (UInt32.toNat_inj.mp (ring_key_strict_mono.injective hkey))

end DynocClient
