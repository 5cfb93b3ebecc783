import DynocClient.Hash.Digest
import DynocClient.Lib.FixedPoint

/-!
# The constants of MD5

RFC 1321 takes the constant of operation `i` from a sine. The constants that the lines of `body`
have are these, to the last bit (`md5_block_standard`).
-/

namespace DynocClient

open Lib Streaming

/-- The constant of operation `i`: the integer part of `2 ^ 32 * |sin (i + 1)|`. -/
noncomputable def sineConstant (i : Nat) : UInt32 :=
  UInt32.ofNat ⌊((2 ^ 32 : Nat) : ℝ) * |Real.sin (i + 1 : Nat)|⌋₊

/-- The sines in fixed point lie far enough from the next constants. -/
theorem sine_table_near : ∀ i < 64,
    (sineTable.getD i 0).toNat * 2 ^ 32 + (i + 1) * 6 ≤
        (FixedPoint.power 64 (FixedPoint.unit 64 22) (i + 1)).im.natAbs ∧
      (FixedPoint.power 64 (FixedPoint.unit 64 22) (i + 1)).im.natAbs + (i + 1) * 6 <
        ((sineTable.getD i 0).toNat + 1) * 2 ^ 32 := by
  decide +kernel

/-- The table holds the constants that RFC 1321 describes. -/
theorem sine_table_eq {i : Nat} (hi : i < 64) : sineTable.getD i 0 = sineConstant i := by
  obtain ⟨hlow, hhigh⟩ := sine_table_near i hi
  generalize hpart : (FixedPoint.power 64 (FixedPoint.unit 64 22) (i + 1)).im = part at hlow hhigh
  generalize hentry : sineTable.getD i 0 = entry at hlow hhigh
  have hnear : |2 ^ 64 * Real.sin (i + 1 : Nat) - (part : ℝ)| ≤ ((i + 1 : Nat) : ℝ) * 6 := by
    -- after 22 terms the series for `exp I` is good for 64 bits
    have hterms : 2 ^ 64 * (22 + 2) ≤ (22 + 1).factorial * (22 + 1) := by decide +kernel
    rw [← hpart]
    exact FixedPoint.sine_near hterms (by omega)
  have habs : |2 ^ 64 * |Real.sin (i + 1 : Nat)| - (part.natAbs : ℝ)| ≤
      ((i + 1 : Nat) : ℝ) * 6 := by
    have hscale : |2 ^ 64 * Real.sin (i + 1 : Nat)| = 2 ^ 64 * |Real.sin (i + 1 : Nat)| := by
      rw [abs_mul, abs_of_pos (by positivity : (0 : ℝ) < 2 ^ 64)]
    have hcast : (part.natAbs : ℝ) = |(part : ℝ)| := by
      rw [Nat.cast_natAbs, Int.cast_abs]
    rw [← hscale, hcast]
    exact (abs_abs_sub_abs_le _ _).trans hnear
  have hlow' : (entry.toNat : ℝ) * 2 ^ 32 + ((i + 1 : Nat) : ℝ) * 6 ≤ part.natAbs := by
    exact_mod_cast hlow
  have hhigh' : (part.natAbs : ℝ) + ((i + 1 : Nat) : ℝ) * 6 < (entry.toNat + 1) * 2 ^ 32 := by
    exact_mod_cast hhigh
  rw [abs_le] at habs
  have hfloor : ⌊((2 ^ 32 : Nat) : ℝ) * |Real.sin (i + 1 : Nat)|⌋₊ = entry.toNat := by
    have hpower : ((2 ^ 32 : Nat) : ℝ) = 2 ^ 32 := by norm_num
    rw [hpower]
    refine (Nat.floor_eq_iff (by positivity)).mpr ⟨?_, ?_⟩
    · linarith [habs.1]
    · linarith [habs.2]
  rw [sineConstant, hfloor, UInt32.ofNat_toNat]

/-- The operations of a block with the constants that RFC 1321 describes. -/
noncomputable def standardOperation (block : List UInt8) (state : Md5State) (i : Nat) : Md5State :=
  operation (roundFunction i) (littleWord ((block.drop (4 * roundWord i)).take 4))
    (sineConstant i) (roundShift i) state

/-- The loop body of `body` carries out the 64 operations of RFC 1321, with its constants, and adds
what they give to the registers. -/
theorem md5_block_standard (state : Md5State) (block : List UInt8) :
    md5Block state block =
      let next := (List.range 64).foldl (standardOperation block) state
      ⟨state.a + next.a, state.b + next.b, state.c + next.c, state.d + next.d⟩ := by
  have hoperation : ∀ (reached : Md5State), ∀ i ∈ List.range 64,
      operationAt block reached i = standardOperation block reached i := by
    intro reached i hi
    rw [operationAt, standardOperation, sine_table_eq (List.mem_range.mp hi)]
  rw [md5_block_eq, md5Compress, List.foldl_ext _ _ state hoperation]

end DynocClient
