import DynocClient.Lib.Mixing
import Mathlib.Algebra.Ring.Nat
import Mathlib.Logic.Function.Iterate
import Mathlib.Tactic.Common

/-!
# Bit-serial cyclic redundancy checks

A register of `w` bits takes a message one bit after the other. `reflectedFeed` shifts to the
right, `crcFeed` to the left, and the two are mirror images (`crc_feed_reverse`). A run over some
bits is that many empty steps of the register with the bits xored to it (`foldl_reflected_feed`),
and of `n` empty steps only the ones of the low `n` bits need computing
(`reflected_step_iterate`): that is why a table serves. A register tells apart two messages that
differ in at most `w` consecutive bits (`foldl_reflected_feed_burst`, `foldl_crc_feed_burst`), and
with an even number of terms in its polynomial also those that differ in an odd number of bits
(`foldl_crc_feed_parity`).
-/

namespace DynocClient.Lib

variable {w : Nat} (poly : BitVec w)

/-! ## The reflected register -/

/-- A step without a message bit. -/
def reflectedStep (crc : BitVec w) : BitVec w :=
  if crc.getLsbD 0 then crc >>> 1 ^^^ poly else crc >>> 1

/-- The register takes a message bit. -/
def reflectedFeed (crc : BitVec w) (bit : Bool) : BitVec w :=
  if crc.getLsbD 0 ^^ bit then crc >>> 1 ^^^ poly else crc >>> 1

/-- A reflected step is linear. -/
theorem reflected_step_xor (a b : BitVec w) :
    reflectedStep poly (a ^^^ b) = reflectedStep poly a ^^^ reflectedStep poly b := by
  unfold reflectedStep
  rw [BitVec.getLsbD_xor, BitVec.ushiftRight_xor_distrib]
  cases a.getLsbD 0 <;> cases b.getLsbD 0
  · rfl
  · exact BitVec.xor_assoc _ _ _
  · show a >>> 1 ^^^ b >>> 1 ^^^ poly = a >>> 1 ^^^ poly ^^^ b >>> 1
    ac_rfl
  · show a >>> 1 ^^^ b >>> 1 = (a >>> 1 ^^^ poly) ^^^ (b >>> 1 ^^^ poly)
    have hpoly : poly ^^^ poly = 0#w := BitVec.xor_self
    calc a >>> 1 ^^^ b >>> 1 = a >>> 1 ^^^ b >>> 1 ^^^ (poly ^^^ poly) := by
          rw [hpoly, BitVec.xor_zero]
      _ = (a >>> 1 ^^^ poly) ^^^ (b >>> 1 ^^^ poly) := by ac_rfl

/-- The register loses nothing if the polynomial has its highest bit set. -/
theorem reflected_step_injective (hpoly : poly.msb = true) :
    Function.Injective (reflectedStep poly) := by
  have hzero : ∀ x, reflectedStep poly x = 0#w → x = 0#w := by
    intro x hx
    unfold reflectedStep at hx
    split at hx
    · have hsame : x >>> 1 = poly := BitVec.xor_eq_zero_iff.mp hx
      rw [← hsame, BitVec.msb_ushiftRight] at hpoly
      simp at hpoly
    · next hlow =>
        apply BitVec.eq_of_getLsbD_eq
        intro i hi
        rw [BitVec.getLsbD_zero]
        cases i with
        | zero => exact Bool.eq_false_iff.mpr hlow
        | succ i =>
            have hbit : (x >>> 1).getLsbD i = false := by rw [hx, BitVec.getLsbD_zero]
            rw [BitVec.getLsbD_ushiftRight, Nat.add_comm] at hbit
            exact hbit
  intro a b h
  have hxor : reflectedStep poly (a ^^^ b) = 0#w := by
    rw [reflected_step_xor, h, BitVec.xor_self]
  exact BitVec.xor_eq_zero_iff.mp (hzero _ hxor)

/-! ## Several steps -/

/-- Any number of reflected steps are linear. -/
theorem reflected_step_iterate_xor (n : Nat) (a b : BitVec w) :
    (reflectedStep poly)^[n] (a ^^^ b) =
      (reflectedStep poly)^[n] a ^^^ (reflectedStep poly)^[n] b := by
  induction n generalizing a b with
  | zero => rfl
  | succ n ih =>
      rw [Function.iterate_succ_apply, Function.iterate_succ_apply, Function.iterate_succ_apply,
        reflected_step_xor, ih]

/-- Steps before the first bit that is set only shift. -/
theorem reflected_step_iterate_of_low_zero (n : Nat) {crc : BitVec w}
    (h : ∀ i, i < n → crc.getLsbD i = false) : (reflectedStep poly)^[n] crc = crc >>> n := by
  induction n generalizing crc with
  | zero => exact (BitVec.ushiftRight_zero crc).symm
  | succ n ih =>
      have hstep : reflectedStep poly crc = crc >>> 1 := by
        rw [reflectedStep, h 0 (Nat.succ_pos n)]
        rfl
      have hrest : ∀ i, i < n → (crc >>> 1).getLsbD i = false := by
        intro i hi
        rw [BitVec.getLsbD_ushiftRight, Nat.add_comm]
        exact h (i + 1) (Nat.succ_lt_succ hi)
      rw [Function.iterate_succ_apply, hstep, ih hrest, ← BitVec.shiftRight_add, Nat.add_comm]

/-- The low `n` bits of a register. -/
def lowBits (n : Nat) (crc : BitVec w) : BitVec w := BitVec.ofNat w (crc.toNat % 2 ^ n)

/-- The low bits are those below the bound. -/
theorem low_bits_get (n : Nat) (crc : BitVec w) (i : Nat) :
    (lowBits n crc).getLsbD i = (decide (i < n) && crc.getLsbD i) := by
  rw [lowBits, BitVec.getLsbD_ofNat, Nat.testBit_mod_two_pow, BitVec.testBit_toNat]
  by_cases hi : i < w
  · simp [hi]
  · simp [hi, BitVec.getLsbD_of_ge crc i (Nat.le_of_not_lt hi)]

/-- Of `n` steps only the low `n` bits need computing; the others are shifted. -/
theorem reflected_step_iterate (n : Nat) (crc : BitVec w) :
    (reflectedStep poly)^[n] crc = (reflectedStep poly)^[n] (lowBits n crc) ^^^ crc >>> n := by
  have hsplit : crc = lowBits n crc ^^^ (lowBits n crc ^^^ crc) := by
    rw [← BitVec.xor_assoc, BitVec.xor_self, BitVec.zero_xor]
  have hlow : ∀ i, i < n → (lowBits n crc ^^^ crc).getLsbD i = false := by
    intro i hi
    rw [BitVec.getLsbD_xor, low_bits_get]
    simp [hi]
  have hhigh : (lowBits n crc ^^^ crc) >>> n = crc >>> n := by
    apply BitVec.eq_of_getLsbD_eq
    intro i _
    have hout : ¬ n + i < n := by omega
    rw [BitVec.getLsbD_ushiftRight, BitVec.getLsbD_xor, low_bits_get, BitVec.getLsbD_ushiftRight]
    simp [hout]
  calc (reflectedStep poly)^[n] crc
      = (reflectedStep poly)^[n] (lowBits n crc) ^^^
          (reflectedStep poly)^[n] (lowBits n crc ^^^ crc) := by
        rw [← reflected_step_iterate_xor, ← hsplit]
    _ = (reflectedStep poly)^[n] (lowBits n crc) ^^^ crc >>> n := by
        rw [reflected_step_iterate_of_low_zero poly n hlow, hhigh]

/-! ## Message bits -/

/-- A register that holds these bits, the first one lowest. -/
def ofBits (w : Nat) (bits : List Bool) : BitVec w := (BitVec.ofBoolListLE bits).setWidth w

/-- Bits stand in a register at their place in the list. -/
theorem of_bits_get (bits : List Bool) (i : Nat) :
    (ofBits w bits).getLsbD i = (decide (i < w) && bits.getD i false) := by
  rw [ofBits, BitVec.getLsbD_setWidth, BitVec.getLsbD_ofBoolListLE]

/-- A bit is fed into a reflected register at its low end. -/
theorem reflected_feed_eq (crc : BitVec w) (bit : Bool) (hw : 0 < w) :
    reflectedFeed poly crc bit = reflectedStep poly (crc ^^^ ofBits w [bit]) := by
  have hbit : (crc ^^^ ofBits w [bit]).getLsbD 0 = (crc.getLsbD 0 ^^ bit) := by
    rw [BitVec.getLsbD_xor, of_bits_get]
    simp [hw]
  have hshift : (crc ^^^ ofBits w [bit]) >>> 1 = crc >>> 1 := by
    apply BitVec.eq_of_getLsbD_eq
    intro i _
    rw [BitVec.getLsbD_ushiftRight, BitVec.getLsbD_xor, of_bits_get, BitVec.getLsbD_ushiftRight,
      Nat.add_comm]
    simp
  rw [reflectedFeed, reflectedStep, hbit, hshift]

/-- The bits after the first one wait in the register until it has left. -/
theorem reflected_step_of_bits (bit : Bool) {bits : List Bool} (h : bits.length < w) :
    reflectedStep poly (ofBits w (bit :: bits)) =
      reflectedStep poly (ofBits w [bit]) ^^^ ofBits w bits := by
  have hwait : ∀ rest : List Bool, rest.length < w →
      (ofBits w (false :: rest)) >>> 1 = ofBits w rest := by
    intro rest hrest
    apply BitVec.eq_of_getLsbD_eq
    intro i hi
    rw [BitVec.getLsbD_ushiftRight, of_bits_get, of_bits_get, Nat.add_comm, List.getD_cons_succ]
    by_cases hlast : i + 1 < w
    · simp [hlast, hi]
    · have hout : rest.length ≤ i := by omega
      simp [List.getElem?_eq_none hout]
  have hsplit : ofBits w (bit :: bits) = ofBits w [bit] ^^^ ofBits w (false :: bits) := by
    apply BitVec.eq_of_getLsbD_eq
    intro i _
    rw [BitVec.getLsbD_xor, of_bits_get, of_bits_get, of_bits_get]
    cases i <;> simp
  have hfirst : (ofBits w (false :: bits)).getLsbD 0 = false := by
    rw [of_bits_get]
    simp
  rw [hsplit, reflected_step_xor]
  congr 1
  rw [reflectedStep, hfirst]
  exact hwait bits h

/-- A run over some bits is as many steps of the register with the bits xored to it. -/
theorem foldl_reflected_feed (bits : List Bool) (h : bits.length ≤ w) (crc : BitVec w) :
    bits.foldl (reflectedFeed poly) crc =
      (reflectedStep poly)^[bits.length] (crc ^^^ ofBits w bits) := by
  induction bits generalizing crc with
  | nil =>
      have hempty : ofBits w [] = 0#w := BitVec.eq_of_getLsbD_eq fun i _ => by
        rw [of_bits_get]
        simp
      rw [hempty, BitVec.xor_zero]
      rfl
  | cons bit bits ih =>
      have hlength : bits.length < w := h
      have hw : 0 < w := Nat.zero_lt_of_lt hlength
      rw [List.foldl_cons, ih (Nat.le_of_lt hlength), List.length_cons,
        Function.iterate_succ_apply, reflected_step_xor, reflected_step_of_bits poly bit hlength,
        reflected_feed_eq poly crc bit hw, reflected_step_xor, BitVec.xor_assoc]

/-- Runs over as many bits that end in the same register had the same register and bits, taken
together. -/
theorem foldl_reflected_feed_inj (hpoly : poly.msb = true) {bits bits' : List Bool}
    (hlength : bits.length = bits'.length) (h : bits.length ≤ w) {crc crc' : BitVec w}
    (heq : bits.foldl (reflectedFeed poly) crc = bits'.foldl (reflectedFeed poly) crc') :
    crc ^^^ ofBits w bits = crc' ^^^ ofBits w bits' := by
  rw [foldl_reflected_feed poly bits h, foldl_reflected_feed poly bits' (hlength ▸ h),
    ← hlength] at heq
  exact (reflected_step_injective poly hpoly).iterate bits.length heq

/-! ## The register that shifts to the left -/

/-- A step without a message bit. -/
def crcStep (crc : BitVec w) : BitVec w := if crc.msb then crc <<< 1 ^^^ poly else crc <<< 1

/-- The register takes a message bit. -/
def crcFeed (crc : BitVec w) (bit : Bool) : BitVec w :=
  if crc.msb ^^ bit then crc <<< 1 ^^^ poly else crc <<< 1

/-- Reversal is linear. -/
theorem reverse_xor (a b : BitVec w) : (a ^^^ b).reverse = a.reverse ^^^ b.reverse := by
  apply BitVec.eq_of_getLsbD_eq
  intro i _
  rw [BitVec.getLsbD_reverse, BitVec.getLsbD_xor, BitVec.getLsbD_reverse, BitVec.getLsbD_reverse,
    BitVec.getMsbD_xor]

/-- Reversal turns a right shift into a left shift. -/
theorem reverse_shift_right (crc : BitVec w) (n : Nat) :
    (crc >>> n).reverse = crc.reverse <<< n := by
  apply BitVec.eq_of_getLsbD_eq
  intro i hi
  rw [BitVec.getLsbD_reverse, BitVec.getMsbD_ushiftRight, BitVec.getLsbD_shiftLeft,
    BitVec.getLsbD_reverse]
  simp [hi]

/-- The two registers are mirror images. -/
theorem crc_feed_reverse (crc : BitVec w) (bit : Bool) :
    crcFeed poly crc bit = (reflectedFeed poly.reverse crc.reverse bit).reverse := by
  have hbit : crc.reverse.getLsbD 0 = crc.msb := by rw [BitVec.getLsbD_reverse, BitVec.msb]
  have hshift : (crc.reverse >>> 1).reverse = crc <<< 1 := by
    rw [reverse_shift_right, BitVec.reverse_reverse_eq]
  rw [crcFeed, reflectedFeed, hbit]
  split
  · rw [reverse_xor, hshift, BitVec.reverse_reverse_eq]
  · exact hshift.symm

/-- A step is a reflected step seen in the mirror. -/
theorem crc_step_reverse (crc : BitVec w) :
    crcStep poly crc = (reflectedStep poly.reverse crc.reverse).reverse := by
  have hfeed := crc_feed_reverse poly crc false
  rwa [crcFeed, reflectedFeed, Bool.xor_false, Bool.xor_false] at hfeed

/-- Any number of steps are reflected steps seen in the mirror. -/
theorem crc_step_iterate_reverse (n : Nat) (crc : BitVec w) :
    (crcStep poly)^[n] crc = ((reflectedStep poly.reverse)^[n] crc.reverse).reverse := by
  induction n generalizing crc with
  | zero => exact BitVec.reverse_reverse_eq.symm
  | succ n ih =>
      rw [Function.iterate_succ_apply, Function.iterate_succ_apply, ih, crc_step_reverse,
        BitVec.reverse_reverse_eq]

/-- The register loses nothing if the polynomial has its lowest bit set. -/
theorem crc_step_injective (hpoly : poly.getLsbD 0 = true) :
    Function.Injective (crcStep poly) := by
  intro a b h
  have hreverse : ∀ x y : BitVec w, x.reverse = y.reverse → x = y := by
    intro x y hxy
    rw [← BitVec.reverse_reverse_eq (x := x), hxy, BitVec.reverse_reverse_eq]
  rw [crc_step_reverse, crc_step_reverse] at h
  have hmsb : poly.reverse.msb = true := by rw [BitVec.msb_reverse, hpoly]
  exact hreverse a b (reflected_step_injective poly.reverse hmsb (hreverse _ _ h))

/-- The high `n` bits of a register. -/
def highBits (n : Nat) (crc : BitVec w) : BitVec w := crc >>> (w - n) <<< (w - n)

/-- The high bits are the low bits of the mirror image. -/
theorem high_bits_reverse {n : Nat} (hn : n ≤ w) (crc : BitVec w) :
    highBits n crc = (lowBits n crc.reverse).reverse := by
  apply BitVec.eq_of_getLsbD_eq
  intro i hi
  rw [highBits, BitVec.getLsbD_shiftLeft, BitVec.getLsbD_ushiftRight, BitVec.getLsbD_reverse,
    BitVec.getMsbD_eq_getLsbD, low_bits_get, BitVec.getLsbD_reverse, BitVec.getMsbD_eq_getLsbD]
  have hback : w - 1 - (w - 1 - i) = i := by omega
  have hlast : w - 1 - i < w := by omega
  rw [hback]
  by_cases hhigh : i < w - n
  · have hlow : ¬ w - 1 - i < n := by omega
    simp [hi, hhigh, hlow]
  · have hlow : w - 1 - i < n := by omega
    have hplace : w - n + (i - (w - n)) = i := by omega
    simp [hi, hhigh, hlow, hlast, hplace]

/-- Of `n` steps only the high `n` bits need computing; the others are shifted. -/
theorem crc_step_iterate {n : Nat} (hn : n ≤ w) (crc : BitVec w) :
    (crcStep poly)^[n] crc = (crcStep poly)^[n] (highBits n crc) ^^^ crc <<< n := by
  rw [crc_step_iterate_reverse, reflected_step_iterate, reverse_xor, reverse_shift_right,
    BitVec.reverse_reverse_eq, crc_step_iterate_reverse, high_bits_reverse hn,
    BitVec.reverse_reverse_eq]

/-- A run over some bits is as many steps of the register with the bits xored to its top. -/
theorem foldl_crc_feed (bits : List Bool) (h : bits.length ≤ w) (crc : BitVec w) :
    bits.foldl (crcFeed poly) crc =
      (crcStep poly)^[bits.length] (crc ^^^ (ofBits w bits).reverse) := by
  have hmirror : bits.foldl (crcFeed poly) crc =
      (bits.foldl (reflectedFeed poly.reverse) crc.reverse).reverse := by
    clear h
    induction bits generalizing crc with
    | nil => exact BitVec.reverse_reverse_eq.symm
    | cons bit bits ih =>
        rw [List.foldl_cons, List.foldl_cons, ih, crc_feed_reverse, BitVec.reverse_reverse_eq]
  rw [hmirror, foldl_reflected_feed poly.reverse bits h, crc_step_iterate_reverse, reverse_xor,
    BitVec.reverse_reverse_eq]

/-- The same of the register that shifts to the left. -/
theorem foldl_crc_feed_inj (hpoly : poly.getLsbD 0 = true) {bits bits' : List Bool}
    (hlength : bits.length = bits'.length) (h : bits.length ≤ w) {crc crc' : BitVec w}
    (heq : bits.foldl (crcFeed poly) crc = bits'.foldl (crcFeed poly) crc') :
    crc ^^^ (ofBits w bits).reverse = crc' ^^^ (ofBits w bits').reverse := by
  rw [foldl_crc_feed poly bits h, foldl_crc_feed poly bits' (hlength ▸ h), ← hlength] at heq
  exact (crc_step_injective poly hpoly).iterate bits.length heq

/-! ## Bursts -/

/-- Bits of at most the length of the register can be read off the word they make. -/
theorem of_bits_inj {bits bits' : List Bool} (hlength : bits.length = bits'.length)
    (h : bits.length ≤ w) (heq : ofBits w bits = ofBits w bits') : bits = bits' := by
  apply List.ext_getElem hlength
  intro i hi hi'
  have hbit := congrArg (fun word => word.getLsbD i) heq
  simp only [of_bits_get] at hbit
  have hw : i < w := Nat.lt_of_lt_of_le hi h
  simpa [hw, hi, hi'] using hbit

/-- What a register makes of two messages differs if they differ in a burst of at most its length
and the register loses neither its state nor the bits of a burst. -/
theorem foldl_burst {feed : BitVec w → Bool → BitVec w}
    (hstate : ∀ bit, Function.Injective fun crc => feed crc bit)
    (hbits : ∀ {bits bits' : List Bool}, bits.length = bits'.length → bits.length ≤ w →
      ∀ crc, bits.foldl feed crc = bits'.foldl feed crc → bits = bits')
    {message other : List Bool} {i : Nat} (h : DifferOnlyIn message other i (i + w))
    (crc : BitVec w) : message.foldl feed crc ≠ other.foldl feed crc := by
  obtain ⟨front, mid, mid', back, rfl, rfl, -, hmid, hlength, hne⟩ :=
    h.split (Nat.le_add_right i w)
  -- before the burst both registers are the same, and behind it nothing brings them together
  intro heq
  rw [List.foldl_append, List.foldl_append, List.foldl_append, List.foldl_append] at heq
  have hshort : mid.length ≤ w := by
    rw [hmid, List.length_take]
    omega
  exact hne (hbits hlength hshort _ (foldl_injective hstate back heq))

/-- A burst no longer than the register changes a reflected CRC. -/
theorem foldl_reflected_feed_burst (hpoly : poly.msb = true) {message other : List Bool} {i : Nat}
    (h : DifferOnlyIn message other i (i + w)) (crc : BitVec w) :
    message.foldl (reflectedFeed poly) crc ≠ other.foldl (reflectedFeed poly) crc := by
  have hw : 0 < w := by
    rcases Nat.eq_zero_or_pos w with rfl | hw
    · simp [BitVec.eq_nil poly] at hpoly
    · exact hw
  refine foldl_burst ?_ ?_ h crc
  · intro bit crc crc' heq
    exact (BitVec.xor_left_inj _).mp
      (@foldl_reflected_feed_inj _ poly hpoly [bit] [bit] rfl hw _ _ heq)
  · intro bits bits' hlength hle crc heq
    exact of_bits_inj hlength hle ((BitVec.xor_right_inj crc).mp
      (foldl_reflected_feed_inj poly hpoly hlength hle heq))

/-- A burst no longer than the register changes a CRC. -/
theorem foldl_crc_feed_burst (hpoly : poly.getLsbD 0 = true) {message other : List Bool} {i : Nat}
    (h : DifferOnlyIn message other i (i + w)) (crc : BitVec w) :
    message.foldl (crcFeed poly) crc ≠ other.foldl (crcFeed poly) crc := by
  have hw : 0 < w := BitVec.lt_of_getLsbD hpoly
  refine foldl_burst ?_ ?_ h crc
  · intro bit crc crc' heq
    exact (BitVec.xor_left_inj _).mp
      (@foldl_crc_feed_inj _ poly hpoly [bit] [bit] rfl hw _ _ heq)
  · intro bits bits' hlength hle crc heq
    have hmirror := (BitVec.xor_right_inj crc).mp
      (foldl_crc_feed_inj poly hpoly hlength hle heq)
    have hbits := congrArg BitVec.reverse hmirror
    rw [BitVec.reverse_reverse_eq, BitVec.reverse_reverse_eq] at hbits
    exact of_bits_inj hlength hle hbits

/-! ## Parity -/

/-- Whether an odd number of the low `n` bits are set. -/
def parityBelow (crc : BitVec w) : Nat → Bool
  | 0 => false
  | n + 1 => parityBelow crc n ^^ crc.getLsbD n

/-- Whether an odd number of bits are set. -/
def parity (crc : BitVec w) : Bool := parityBelow crc w

/-- The parity of the low bits is linear. -/
theorem parity_below_xor (a b : BitVec w) (n : Nat) :
    parityBelow (a ^^^ b) n = (parityBelow a n ^^ parityBelow b n) := by
  induction n with
  | zero => rfl
  | succ n ih =>
      simp only [parityBelow, ih, BitVec.getLsbD_xor, Bool.xor_assoc, Bool.xor_left_comm]

/-- A shift to the left moves the top bit out. -/
theorem parity_shift_left (crc : BitVec w) : parity (crc <<< 1) = (parity crc ^^ crc.msb) := by
  have hbelow : ∀ n, n + 1 ≤ w → parityBelow (crc <<< 1) (n + 1) = parityBelow crc n := by
    intro n hn
    induction n with
    | zero => simp [parityBelow]
    | succ n ih =>
        have hlt : n + 1 < w := hn
        rw [parityBelow, ih (Nat.le_of_succ_le hn), parityBelow, BitVec.getLsbD_shiftLeft]
        simp [hlt]
  cases w with
  | zero => simp [parity, parityBelow, BitVec.eq_nil crc]
  | succ n =>
      rw [parity, hbelow n (Nat.le_refl _), parity, parityBelow, BitVec.msb_eq_getLsbD_last,
        Nat.add_sub_cancel, Bool.xor_assoc, Bool.xor_self, Bool.xor_false]

/-- With an odd number of terms below the leading one the register's parity is that of the bits it
took. -/
theorem foldl_crc_feed_parity (hpoly : parity poly = true) (bits : List Bool) (crc : BitVec w) :
    parity (bits.foldl (crcFeed poly) crc) = bits.foldl Bool.xor (parity crc) := by
  have hfeed : ∀ crc bit, parity (crcFeed poly crc bit) = (parity crc ^^ bit) := by
    intro crc bit
    have hstep : parity (crc <<< 1 ^^^ poly) = (parity (crc <<< 1) ^^ parity poly) :=
      parity_below_xor _ _ w
    unfold crcFeed
    cases hmsb : crc.msb <;> cases bit <;>
      simp [hstep, parity_shift_left, hmsb, hpoly]
  exact (List.foldl_hom parity fun crc bit => (hfeed crc bit).symm).symm

end DynocClient.Lib
