import Pdp11.FloatRounding
import Pdp11.Lib.BitSerial

/-! Correct rounding of the floating multiplication. -/

namespace Pdp11
open Rounding BitSerial

theorem mulStep_toNat {mpc r : Fpac} (bit : Bool) (hm : mpc.toNat < 2 ^ 59)
    (hr : r.toNat ≤ mpc.toNat) :
    (mulStep mpc bit r).toNat = addStep mpc.toNat bit r.toNat := by
  unfold mulStep addStep
  rw [Fpac.toNat_rsh1]
  cases bit with
  | false => rfl
  | true =>
    rw [if_pos rfl, if_pos rfl, Fpac.toNat_add, Nat.mod_eq_of_lt (by omega), Nat.add_comm]

/-- The passes over the bits of a multiplier, one step of the loop after the other. -/
theorem mulSteps_toNat (mpc r : Fpac) (y : BitVec 32) (n : ℕ) (hm : mpc.toNat < 2 ^ 59)
    (hr : r.toNat ≤ mpc.toNat) :
    ((List.range n).foldl (fun result i => mulStep mpc (y.getLsbD i) result) r).toNat =
      multiply mpc.toNat y.toNat n r.toNat := by
  induction n with
  | zero => rfl
  | succ n ih =>
    have hle : multiply mpc.toNat y.toNat n r.toNat ≤ mpc.toNat := multiply_le _ _ hr
    rw [List.range_succ, List.foldl_append, List.foldl_cons, List.foldl_nil,
      mulStep_toNat _ hm (by rw [ih]; exact hle), ih, multiply_succ, BitVec.testBit_toNat]

/-- Without a low half of the multiplicand the high-half pass is the general one. -/
theorem mulStepHigh_eq {mpc : Fpac} (h : mpc.l = 0) (bit : Bool) (r : Fpac) :
    mulStepHigh mpc bit r = mulStep mpc bit r := by
  have hadd : Fpac.add mpc r = { r with h := r.h + mpc.h } := by
    have hl : r.l + 0 = r.l := BitVec.add_zero r.l
    have hlt : ¬ r.l < 0 := Nat.not_lt_zero _
    unfold Fpac.add
    simp only [h, hl, if_neg hlt]
    exact congrArg _ (BitVec.add_zero _)
  unfold mulStepHigh mulStep
  rw [hadd]

/-- All three loops compute the product of the fractions, 56 bits dropped. -/
theorem fracMulfp11_toNat (f1 f2 : Fpac) (h1 : f1.toNat < 2 ^ 56)
    (h2 : f2.lshGuard.toNat < 2 ^ 59) :
    (fracMulfp11 f1 f2).toNat = f2.lshGuard.toNat * f1.toNat / 2 ^ 56 := by
  have hl := f1.l.isLt
  have hh : f1.h.toNat < 2 ^ 24 := by
    unfold Fpac.toNat at h1
    omega
  have hpasses : multiply f2.lshGuard.toNat f1.h.toNat 24
      (multiply f2.lshGuard.toNat f1.l.toNat 32 0) = f2.lshGuard.toNat * f1.toNat / 2 ^ 56 := by
    rw [multiply_multiply _ _ _ 32 24 hl hh]
    unfold Fpac.toNat
    congr 2
    ring
  have hnone : f1.l = 0 → multiply f2.lshGuard.toNat f1.l.toNat 32 0 = 0 := by
    intro h
    rw [h, multiply_eq, show (0 : BitVec 32).toNat = 0 from rfl]
    simp
  have hlow : multiply f2.lshGuard.toNat f1.l.toNat 32 0 ≤ f2.lshGuard.toNat :=
    multiply_le _ _ (Nat.zero_le _)
  unfold fracMulfp11
  dsimp only
  by_cases hzero : f1.l ||| f2.lshGuard.l = 0
  · obtain ⟨hf, hm⟩ := BitVec.or_eq_zero_iff.mp hzero
    rw [if_pos hzero]
    simp only [mulStepHigh_eq hm]
    rw [mulSteps_toNat _ _ _ _ h2 (Nat.zero_le _), Fpac.toNat_zero, ← hpasses, hnone hf]
  · rw [if_neg hzero]
    by_cases hf : f1.l = 0
    · rw [if_neg (not_not.mpr hf), mulSteps_toNat _ _ _ _ h2 (Nat.zero_le _), Fpac.toNat_zero,
        ← hpasses, hnone hf]
    · have hfirst := mulSteps_toNat f2.lshGuard .zero f1.l 32 h2 (Nat.zero_le _)
      rw [if_pos hf, mulSteps_toNat _ _ _ _ h2 (by rw [hfirst]; exact hlow), hfirst,
        Fpac.toNat_zero, hpasses]

theorem mulfp11_eq (fac fsrc : Fpac) (fps : Word) (h1 : getExp fac.h ≠ 0)
    (h2 : getExp fsrc.h ≠ 0) :
    mulfp11 fac fsrc fps =
      let fe := normalizeOnce (fracMulfp11 fac.getFrac fsrc.getFrac)
        (getExp fac.h + getExp fsrc.h - fpBias)
      roundAndPack { fac with h := fac.h ^^^ fsrc.h } fe.2 fe.1 true fps 0 := by
  unfold mulfp11
  rw [if_neg (by simp [h1, h2])]
  rfl

/-- The product of two magnitudes, scaled to the fraction and exponent the loops work with. -/
theorem magnitude_mul (a b : BitVec 64) (ha : exponent a ≠ 0) (hb : exponent b ≠ 0) :
    magnitude a * magnitude b = ((significand b * 8 * significand a : ℕ) : ℚ) / (2 ^ 56 : ℕ) *
      2 ^ (exponent a + exponent b - fpBias - fpBias - 59) := by
  have hsplit : (2 : ℚ) ^ (exponent a + exponent b - fpBias - fpBias - 59) * 8 / 2 ^ 56 =
      2 ^ (exponent a - fpBias - 56) * 2 ^ (exponent b - fpBias - 56) := by
    rw [show (8 : ℚ) = 2 ^ (3 : ℤ) by norm_num, show (2 : ℚ) ^ 56 = 2 ^ (56 : ℤ) by norm_num,
      ← zpow_add₀ two_ne_zero, ← zpow_sub₀ two_ne_zero, ← zpow_add₀ two_ne_zero]
    congr 1
    ring
  rw [magnitude_eq ha, magnitude_eq hb]
  push_cast
  linear_combination (-(significand b * significand a) : ℚ) * hsplit

/-- The product of two 56-bit fractions fills the guarded one but for its hidden bit. -/
theorem product_bounds {s t : ℕ} (hs : 2 ^ 55 ≤ s ∧ s < 2 ^ 56) (ht : 2 ^ 55 ≤ t ∧ t < 2 ^ 56) :
    2 ^ 57 ≤ t * 8 * s / 2 ^ 56 ∧ t * 8 * s / 2 ^ 56 < 2 ^ 59 := by
  have hlow : 2 ^ 55 * 8 * 2 ^ 55 ≤ t * 8 * s := Nat.mul_le_mul (by omega) hs.1
  have hhigh : t * 8 * s < 2 ^ 56 * 8 * 2 ^ 56 := Nat.mul_lt_mul'' (by omega) hs.2
  omega

/-- Floating multiplication gives zero for an operand of exponent 0, and otherwise the product
correctly rounded in the precision and direction of the status word. -/
theorem mul_correctly_rounded (fac fsrc : BitVec 64) (fps : Word) :
    (exponent fac = 0 ∨ exponent fsrc = 0 → (fpMul fac fsrc fps).val = 0) ∧
      (exponent fac ≠ 0 → exponent fsrc ≠ 0 →
        let rounded := roundMagnitude (precision fps) (direction fps)
          (magnitude (significant fps fac) * magnitude (significant fps fsrc))
        1 ≤ packedExponent rounded → packedExponent rounded ≤ 255 →
          Delivers fps (fpMul fac fsrc fps) (negative fac ^^ negative fsrc) rounded) := by
  constructor
  · intro hzero
    have hval : mulfp11 (toFac fac fps) (toFac fsrc fps) fps = ⟨.zero, false, 0⟩ := by
      unfold mulfp11
      rw [getExp_toFac, getExp_toFac, if_pos hzero]
    unfold fpMul
    rw [hval]
    rfl
  · intro hfac hfsrc rounded h1 h2
    have hmul : fpMul fac fsrc fps =
        (mulfp11 (toFac fac fps) (toFac fsrc fps) fps).packed := rfl
    rw [hmul, mulfp11_eq _ _ _ (by rw [getExp_toFac]; exact hfac)
      (by rw [getExp_toFac]; exact hfsrc), getExp_toFac, getExp_toFac,
      ← getSign_xor_toFac fac fsrc fps]
    have hfa : (toFac fac fps).getFrac.toNat = significand (significant fps fac) := by
      rw [Fpac.toNat_getFrac, toFac_toNat]
      rfl
    have hfb := toNat_guarded fsrc fps
    have hs := significand_bounds (significant fps fac)
    have ht := significand_bounds (significant fps fsrc)
    have hproduct := fracMulfp11_toNat (toFac fac fps).getFrac (toFac fsrc fps).getFrac
      (by omega) (by omega)
    rw [hfa, hfb] at hproduct
    have hbounds := product_bounds hs ht
    obtain ⟨hlow, hhigh⟩ := natDiv_bounds (K := ℚ)
      (significand (significant fps fsrc) * 8 * significand (significant fps fac))
      (d := 2 ^ 56) (by decide)
    rw [← hproduct] at hbounds hlow hhigh
    have hguard := guardBits_places fps
    -- what the loop cuts off the product is below the guard bits
    refine normalizeOnce_delivers (j := 0) _ _ fps hbounds.1 hbounds.2 (by omega) (one_dvd _) hlow
      (by rw [pow_zero]; exact hhigh) ?_ h1 h2
    have hexact := magnitude_mul (significant fps fac) (significant fps fsrc)
      (by rw [exponent_significant]; exact hfac) (by rw [exponent_significant]; exact hfsrc)
    rw [exponent_significant, exponent_significant] at hexact
    exact congrArg (roundMagnitude _ _) hexact

theorem three_times_five :
    Delivers 0 (fpMul 0x4140000000000000 0x41A0000000000000 0) false 15 := by
  have hthree : magnitude (significant 0 0x4140000000000000) = 3 := by
    rw [magnitude_eq (by decide), show exponent (significant 0 0x4140000000000000) = 130 by decide,
      show significand (significant 0 0x4140000000000000) = 3 * 2 ^ 54 by decide]
    norm_num
  have hfive : magnitude (significant 0 0x41A0000000000000) = 5 := by
    rw [magnitude_eq (by decide), show exponent (significant 0 0x41A0000000000000) = 131 by decide,
      show significand (significant 0 0x41A0000000000000) = 5 * 2 ^ 53 by decide]
    norm_num
  have hround : roundMagnitude (precision 0) (direction 0) (3 * 5 : ℚ) = 15 := by
    have h := roundMagnitude_natCast (K := ℚ) (m := 15) (direction 0) (by decide)
      (show 15 < 2 ^ precision 0 by decide)
    norm_num at h ⊢
    exact h
  have hexp : packedExponent 15 = 132 := by
    unfold packedExponent
    rw [abs_of_pos (by norm_num), log_eq (n := 3) (by norm_num) (by norm_num)]
    norm_num
  have h := (mul_correctly_rounded 0x4140000000000000 0x41A0000000000000 0).2 (by decide)
    (by decide)
  rw [hthree, hfive, hround] at h
  exact h (by rw [hexp]; decide) (by rw [hexp]; decide)

end Pdp11
