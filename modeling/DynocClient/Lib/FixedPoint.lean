import Mathlib.Analysis.Complex.Basic
import Mathlib.Analysis.Complex.Exponential
import Mathlib.Analysis.Complex.Trigonometric
import Mathlib.NumberTheory.Zsqrtd.GaussianInt

/-!
# Powers of a unit in fixed point

A complex number of norm 1 is kept as a Gaussian integer, `p` bits of each part behind the point.
A product that is rounded down to `p` bits is off by what its factors are, and three units
(`Near.mul`), so the error of a power grows with the exponent only (`near_power`). The unit here
is `exp I`, from its series (`near_unit`); its powers have the sines of the whole numbers
(`sine_near`).
-/

namespace DynocClient.Lib.FixedPoint

open Complex

/-! ## Rounding -/

/-- Division of both parts, rounded down. -/
def round (d : Nat) (g : GaussianInt) : GaussianInt := ⟨g.re / d, g.im / d⟩

/-- Rounding an integer takes less than a unit. -/
theorem floor_near {d : Nat} (hd : 0 < d) (a : ℤ) :
    |(a : ℝ) / d - ((a / d : ℤ) : ℝ)| ≤ 1 := by
  have hscale : (0 : ℝ) < d := by exact_mod_cast hd
  have hpos : (0 : ℤ) < d := by exact_mod_cast hd
  have hdivision : (a : ℝ) = d * ((a / d : ℤ) : ℝ) + ((a % d : ℤ) : ℝ) := by
    exact_mod_cast (Int.mul_ediv_add_emod a d).symm
  have hlow : (0 : ℝ) ≤ ((a % d : ℤ) : ℝ) := by exact_mod_cast Int.emod_nonneg a hpos.ne'
  have hhigh : ((a % d : ℤ) : ℝ) ≤ d := by exact_mod_cast (Int.emod_lt_of_pos a hpos).le
  have hdifference : (a : ℝ) / d - ((a / d : ℤ) : ℝ) = ((a % d : ℤ) : ℝ) / d := by
    rw [div_sub' hscale.ne', sub_eq_of_eq_add' hdivision]
  rw [hdifference, abs_of_nonneg (by positivity)]
  exact (div_le_one hscale).mpr hhigh

/-- Rounding moves a number by at most 2. -/
theorem round_near {d : Nat} (hd : 0 < d) (g : GaussianInt) :
    ‖(g : ℂ) / d - round d g‖ ≤ 2 := by
  have hre : ((g : ℂ) / d - round d g).re = (g.re : ℝ) / d - ((g.re / d : ℤ) : ℝ) := by
    rw [Complex.sub_re, Complex.div_natCast_re, ← GaussianInt.intCast_re]
    simp [round]
  have him : ((g : ℂ) / d - round d g).im = (g.im : ℝ) / d - ((g.im / d : ℤ) : ℝ) := by
    rw [Complex.sub_im, Complex.div_natCast_im, ← GaussianInt.intCast_im]
    simp [round]
  calc ‖(g : ℂ) / d - round d g‖
      ≤ |((g : ℂ) / d - round d g).re| + |((g : ℂ) / d - round d g).im| :=
        Complex.norm_le_abs_re_add_abs_im _
    _ ≤ 1 + 1 := by
        rw [hre, him]
        exact add_le_add (floor_near hd g.re) (floor_near hd g.im)
    _ = 2 := by norm_num

/-! ## Products -/

/-- The Gaussian integer stands for `z`, up to `e` units of the last place. -/
def Near (p : Nat) (z : ℂ) (g : GaussianInt) (e : ℝ) : Prop := ‖2 ^ p * z - g‖ ≤ e

/-- The errors of two factors add up, with that of the rounding. -/
theorem Near.mul {p : Nat} {z w : ℂ} {g h : GaussianInt} {e f : ℝ} (hz : ‖z‖ = 1) (hw : ‖w‖ = 1)
    (hg : Near p z g e) (hh : Near p w h f) (hsmall : e * f ≤ 2 ^ p) :
    Near p (z * w) (round (2 ^ p) (g * h)) (e + f + 3) := by
  have hscale : (0 : ℝ) < 2 ^ p := by positivity
  have hscale' : (2 : ℂ) ^ p ≠ 0 := pow_ne_zero _ two_ne_zero
  have hnorm : ‖(2 : ℂ) ^ p‖ = 2 ^ p := by simp
  have hhnorm : ‖(h : ℂ)‖ ≤ 2 ^ p + f := by
    have htriangle := norm_sub_norm_le (h : ℂ) (2 ^ p * w)
    have hdistance : ‖(h : ℂ) - 2 ^ p * w‖ ≤ f := by
      rw [norm_sub_rev]
      exact hh
    rw [norm_mul, hnorm, hw, mul_one] at htriangle
    linarith
  have hproduct : ‖(2 ^ p * z) * (2 ^ p * w - h) + (2 ^ p * z - g) * h‖ ≤
      2 ^ p * f + e * (2 ^ p + f) := by
    refine (norm_add_le _ _).trans (add_le_add ?_ ?_)
    · rw [norm_mul, norm_mul, hnorm, hz, mul_one]
      exact mul_le_mul_of_nonneg_left hh hscale.le
    · rw [norm_mul]
      exact mul_le_mul hg hhnorm (norm_nonneg _) ((norm_nonneg _).trans hg)
  have hquotient : ‖((2 ^ p * z) * (2 ^ p * w - h) + (2 ^ p * z - g) * h) / 2 ^ p‖ ≤ e + f + 1 := by
    rw [norm_div, hnorm, div_le_iff₀ hscale]
    linarith
  have hround : ‖((g * h : GaussianInt) : ℂ) / 2 ^ p - round (2 ^ p) (g * h)‖ ≤ 2 := by
    have h := round_near (Nat.two_pow_pos p) (g * h)
    rwa [Nat.cast_pow, Nat.cast_ofNat] at h
  have hsplit : 2 ^ p * (z * w) - ((round (2 ^ p) (g * h) : GaussianInt) : ℂ) =
      ((2 ^ p * z) * (2 ^ p * w - h) + (2 ^ p * z - g) * h) / 2 ^ p +
        (((g * h : GaussianInt) : ℂ) / 2 ^ p - round (2 ^ p) (g * h)) := by
    rw [GaussianInt.toComplex_mul]
    field_simp
    ring
  unfold Near
  rw [hsplit]
  refine (norm_add_le _ _).trans ?_
  linarith

/-- A power, rounded after each multiplication. -/
def power (p : Nat) (g : GaussianInt) : Nat → GaussianInt
  | 0 => 2 ^ p
  | n + 1 => round (2 ^ p) (power p g n * g)

/-- The error of a power grows with the exponent. -/
theorem near_power {p : Nat} {z : ℂ} {g : GaussianInt} {e : ℝ} (hz : ‖z‖ = 1)
    (hg : Near p z g e) {n : Nat} (hsmall : n * (e + 3) * e ≤ 2 ^ p) :
    Near p (z ^ n) (power p g n) (n * (e + 3)) := by
  have he : 0 ≤ e := (norm_nonneg _).trans hg
  induction n with
  | zero =>
      have hone : ((2 ^ p : GaussianInt) : ℂ) = 2 ^ p := by rw [map_pow, map_ofNat]
      simp [Near, power, hone]
  | succ n ih =>
      have hless : (n : ℝ) * (e + 3) * e ≤ ((n + 1 : Nat) : ℝ) * (e + 3) * e := by
        push_cast
        nlinarith
      have hnext := (ih (hless.trans hsmall)).mul (by rw [norm_pow, hz, one_pow]) hz hg
        (hless.trans hsmall)
      have hsum : (n : ℝ) * (e + 3) + e + 3 = ((n + 1 : Nat) : ℝ) * (e + 3) := by
        push_cast
        ring
      rw [pow_succ]
      rwa [hsum] at hnext

/-! ## The series -/

/-- `n! * ∑ m ≤ n, I ^ m / m!`. -/
def series : Nat → GaussianInt
  | 0 => 1
  | n + 1 => (n + 1 : Nat) * series n + ⟨0, 1⟩ ^ (n + 1)

/-- The integer series is the exponential series, scaled. -/
theorem series_eq (n : Nat) :
    (series n : ℂ) = n.factorial * ∑ m ∈ Finset.range (n + 1), I ^ m / m.factorial := by
  have hunit : ((⟨0, 1⟩ : GaussianInt) : ℂ) = I := by simp [GaussianInt.toComplex_def']
  induction n with
  | zero => simp [series]
  | succ n ih =>
      have hfactorial : ((n + 1).factorial : ℂ) ≠ 0 := by
        exact_mod_cast (n + 1).factorial_ne_zero
      rw [Finset.sum_range_succ, series, GaussianInt.toComplex_add, GaussianInt.toComplex_mul, ih,
        map_pow, map_natCast, hunit, mul_add, mul_div_cancel₀ _ hfactorial, Nat.factorial_succ]
      push_cast
      ring

/-- `exp I` in fixed point, from the series up to `n`. -/
def unit (p n : Nat) : GaussianInt := round n.factorial (2 ^ p * series n)

/-- The rounded series is near the point of angle 1. -/
theorem near_unit {p n : Nat} (hterms : 2 ^ p * (n + 2) ≤ (n + 1).factorial * (n + 1)) :
    Near p (exp I) (unit p n) 3 := by
  have hfactorial : (n.factorial : ℂ) ≠ 0 := by exact_mod_cast n.factorial_ne_zero
  have hpositive : (0 : ℝ) < (n + 1).factorial * (n + 1 : Nat) := by
    exact_mod_cast Nat.mul_pos (n + 1).factorial_pos n.succ_pos
  have hterms' : (2 : ℝ) ^ p * (n + 1).succ ≤ (n + 1).factorial * (n + 1 : Nat) := by
    exact_mod_cast hterms
  have hnorm : ‖I‖ ≤ 1 := by simp
  have hremainder := exp_bound hnorm n.succ_pos
  have hseries : ‖(2 : ℂ) ^ p * (exp I - ∑ m ∈ Finset.range (n + 1), I ^ m / m.factorial)‖ ≤ 1 := by
    have hscale : ‖(2 : ℂ) ^ p‖ = 2 ^ p := by simp
    rw [norm_I, one_pow, one_mul] at hremainder
    calc ‖(2 : ℂ) ^ p * (exp I - ∑ m ∈ Finset.range (n + 1), I ^ m / m.factorial)‖
        = 2 ^ p * ‖exp I - ∑ m ∈ Finset.range (n + 1), I ^ m / m.factorial‖ := by
          rw [norm_mul, hscale]
      _ ≤ 2 ^ p * ((n + 1).succ * ((n + 1).factorial * (n + 1 : Nat) : ℝ)⁻¹) :=
          mul_le_mul_of_nonneg_left hremainder (by positivity)
      _ ≤ 1 := by
          rw [← mul_assoc, ← div_eq_mul_inv]
          exact (div_le_one hpositive).mpr hterms'
  have hround : ‖((2 ^ p * series n : GaussianInt) : ℂ) / n.factorial - unit p n‖ ≤ 2 :=
    round_near n.factorial_pos (2 ^ p * series n)
  -- the error of the series and that of the rounding
  have hsplit : 2 ^ p * exp I - ((unit p n : GaussianInt) : ℂ) =
      2 ^ p * (exp I - ∑ m ∈ Finset.range (n + 1), I ^ m / m.factorial) +
        (((2 ^ p * series n : GaussianInt) : ℂ) / n.factorial - unit p n) := by
    rw [GaussianInt.toComplex_mul, series_eq, map_pow, map_ofNat]
    field_simp
    ring
  unfold Near
  rw [hsplit]
  refine (norm_add_le _ _).trans ?_
  linarith

/-- The sine of a whole number. -/
theorem sine_near {p terms : Nat} (hterms : 2 ^ p * (terms + 2) ≤
    (terms + 1).factorial * (terms + 1)) {n : Nat} (hsmall : n * 18 ≤ 2 ^ p) :
    |2 ^ p * Real.sin n - (power p (unit p terms) n).im| ≤ n * 6 := by
  have hunit : ‖exp I‖ = 1 := by simpa using norm_exp_ofReal_mul_I 1
  have hsmall' : (n : ℝ) * (3 + 3) * 3 ≤ 2 ^ p := by
    have hcast : ((n * 18 : Nat) : ℝ) ≤ ((2 ^ p : Nat) : ℝ) := by exact_mod_cast hsmall
    push_cast at hcast
    linarith
  have hpower := near_power hunit (near_unit hterms) hsmall'
  have hturn : exp I ^ n = exp ((n : ℝ) * I) := by
    rw [← exp_nat_mul]
    push_cast
    rfl
  have hscale : (2 : ℂ) ^ p = ((2 ^ p : ℝ) : ℂ) := by
    push_cast
    rfl
  -- the sine is the imaginary part of the power
  have him : (2 ^ p * exp ((n : ℝ) * I) - ((power p (unit p terms) n : GaussianInt) : ℂ)).im =
      2 ^ p * Real.sin n - (power p (unit p terms) n).im := by
    rw [Complex.sub_im, hscale, Complex.im_ofReal_mul, exp_ofReal_mul_I_im,
      ← GaussianInt.intCast_im]
  rw [hturn] at hpower
  have hpart := (Complex.abs_im_le_norm _).trans hpower
  rw [him] at hpart
  linarith

end DynocClient.Lib.FixedPoint
