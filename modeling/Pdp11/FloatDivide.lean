import Pdp11.FloatRounding
import Pdp11.Lib.BitSerial

/-! Correct rounding of the floating division. -/

namespace Pdp11
open Rounding BitSerial

/-- Where the division enters its quotient bits: at the bottom of the low or of the high half. -/
def quotientUnit (qd : Bool) : ℕ := if qd then 1 else 2 ^ 32

theorem quotientUnit_true : quotientUnit true = 1 := rfl

theorem quotientUnit_false : quotientUnit false = 2 ^ 32 := rfl

theorem or_one_toNat {x : BitVec 32} {n : ℕ} (hx : x.toNat = 2 * n) :
    (x ||| 1).toNat = 2 * n + 1 := by
  have hadd := Nat.two_pow_add_eq_or_of_lt (i := 1) (b := 1) (by decide) n
  rw [pow_one] at hadd
  rw [BitVec.toNat_or, hx, show (1 : BitVec 32).toNat = 1 from rfl, hadd]

/-- Entering a quotient bit at a place that the shift before has cleared. -/
theorem enterBit_toNat (qd : Bool) {quo : Fpac} {q : ℕ}
    (h : quo.toNat = quotientUnit qd * (2 * q)) :
    (if qd then { quo with l := quo.l ||| 1 } else { quo with h := quo.h ||| 1 } : Fpac).toNat =
      quotientUnit qd * (2 * q + 1) := by
  have hl := quo.l.isLt
  unfold Fpac.toNat at h ⊢
  cases qd with
  | true =>
    rw [quotientUnit_true] at h ⊢
    have hlow : quo.l.toNat = 2 * (quo.l.toNat / 2) := by omega
    rw [if_pos rfl]
    dsimp only
    rw [or_one_toNat hlow]
    omega
  | false =>
    rw [quotientUnit_false] at h ⊢
    have hhigh : quo.h.toNat = 2 * q := by omega
    have hlow : quo.l.toNat = 0 := by omega
    rw [if_neg (by decide)]
    dsimp only
    rw [or_one_toNat hhigh, hlow, Nat.add_zero, Nat.mul_comm]

/-- The loop's partial quotient, moved up by the passes it left out, is the full quotient. -/
theorem divLoop_quotient (qd : Bool) (divisor : Fpac) (hb : 0 < divisor.toNat)
    (hb' : divisor.toNat < 2 ^ 59) (i : ℕ) : ∀ (dividend quo : Fpac) (q : ℕ),
      dividend.toNat < 2 * divisor.toNat → quo.toNat = quotientUnit qd * q →
      quotientUnit qd * (q + 1) * 2 ^ i ≤ 2 ^ 59 →
      (divLoop qd divisor i dividend quo).2.toNat * 2 ^ (divLoop qd divisor i dividend quo).1 =
        quotientUnit qd * (divide divisor.toNat i (dividend.toNat, q)).2 := by
  induction i with
  | zero =>
    intro dividend quo q _ hquo _
    rw [divLoop, divide, pow_zero, Nat.mul_one]
    exact hquo
  | succ i ih =>
    intro dividend quo q hlt hquo hroom
    by_cases hzero : dividend.isZero = true
    · -- the early exit
      have hd := (Fpac.isZero_iff dividend).mp hzero
      rw [divLoop, if_pos hzero, hd, divide_zero hb, hquo, Nat.mul_assoc]
    · have hshift : quo.lsh1.toNat = quotientUnit qd * (2 * q) := by
        have hle : quotientUnit qd * q * 1 ≤ quotientUnit qd * (q + 1) * 2 ^ (i + 1) :=
          Nat.mul_le_mul (Nat.mul_le_mul_left _ (Nat.le_succ q)) Nat.one_le_two_pow
        rw [Fpac.toNat_lsh1, hquo, Nat.mod_eq_of_lt (by omega)]
        ring
      have hroom' : ∀ q' ≤ 2 * q + 1, quotientUnit qd * (q' + 1) * 2 ^ i ≤ 2 ^ 59 := by
        intro q' hq'
        calc quotientUnit qd * (q' + 1) * 2 ^ i ≤ quotientUnit qd * (2 * (q + 1)) * 2 ^ i :=
              Nat.mul_le_mul_right _ (Nat.mul_le_mul_left _ (by omega))
          _ = quotientUnit qd * (q + 1) * 2 ^ (i + 1) := by ring
          _ ≤ 2 ^ 59 := hroom
      rw [divLoop, if_neg hzero]
      by_cases hcmp : dividend.lt divisor = true
      · have hd := (Fpac.lt_iff _ _).mp hcmp
        have hnext : dividend.lsh1.toNat = 2 * dividend.toNat := by
          rw [Fpac.toNat_lsh1, Nat.mod_eq_of_lt (by omega), Nat.mul_comm]
        have hstep : divideStep divisor.toNat (dividend.toNat, q) =
            (dividend.lsh1.toNat, 2 * q) := by
          unfold divideStep
          rw [if_neg (Nat.not_le.mpr hd), hnext]
        simp only [hcmp, Bool.not_true, Bool.false_eq_true, if_false]
        rw [divide, hstep]
        exact ih _ _ _ (by omega) hshift (hroom' _ (by omega))
      · have hd : divisor.toNat ≤ dividend.toNat :=
          Nat.not_lt.mp fun h => hcmp ((Fpac.lt_iff _ _).mpr h)
        have hnext : (Fpac.sub divisor dividend).lsh1.toNat =
            2 * (dividend.toNat - divisor.toNat) := by
          rw [Fpac.toNat_lsh1, Fpac.toNat_sub hd, Nat.mod_eq_of_lt (by omega), Nat.mul_comm]
        have hstep : divideStep divisor.toNat (dividend.toNat, q) =
            ((Fpac.sub divisor dividend).lsh1.toNat, 2 * q + 1) := by
          unfold divideStep
          rw [if_pos hd, hnext]
        simp only [Bool.not_eq_true] at hcmp
        simp only [hcmp, Bool.not_false, if_true]
        rw [divide, hstep]
        exact ih _ _ _ (by omega) (enterBit_toNat qd hshift) (hroom' _ le_rfl)

/-- The passes that fill a guarded quotient. -/
def quotientPasses (qd : Bool) : ℕ := 23 + 3 + (if qd then 33 else 1)

theorem quotientUnit_passes (qd : Bool) : quotientUnit qd * 2 ^ quotientPasses qd = 2 ^ 59 := by
  cases qd <;> decide

/-- The quotient after an early exit is left-justified. -/
def justified (r : ℕ × Fpac) : Fpac := if 0 < r.1 then r.2.lshV r.1 else r.2

theorem justified_toNat {r : ℕ × Fpac} (h : r.2.toNat * 2 ^ r.1 < 2 ^ 64) :
    (justified r).toNat = r.2.toNat * 2 ^ r.1 := by
  unfold justified
  split_ifs with hi
  · rw [Fpac.toNat_lshV, Nat.mod_eq_of_lt h]
  · rw [Nat.eq_zero_of_not_pos hi, pow_zero, Nat.mul_one]

theorem divfp11_eq (fac fsrc : Fpac) (fps : Word) (h : getExp fac.h ≠ 0) :
    divfp11 fac fsrc fps =
      let qd : Bool := fps &&& fpsD ≠ 0
      let quo := justified (divLoop qd fsrc.getFrac.lshGuard (quotientPasses qd)
        fac.getFrac.lshGuard .zero)
      let fe := normalizeOnce quo (getExp fac.h - getExp fsrc.h + fpBias + 1)
      roundAndPack { fac with h := fac.h ^^^ fsrc.h } fe.2 fe.1 true fps 0 := by
  unfold divfp11
  rw [if_neg h]
  rfl

/-- The full quotient of two fractions fills the guarded one but for its hidden bit, and is the
exact quotient cut off below its unit. -/
theorem quotient_bounds (qd : Bool) {s t : ℕ} (hs : 2 ^ 55 ≤ s ∧ s < 2 ^ 56)
    (ht : 2 ^ 55 ≤ t ∧ t < 2 ^ 56) {q : ℕ}
    (hq : q = s * 8 * 2 ^ quotientPasses qd / (2 * (t * 8))) :
    2 ^ 57 ≤ quotientUnit qd * q ∧ quotientUnit qd * q < 2 ^ 59 ∧
      ((quotientUnit qd * q : ℕ) : ℚ) ≤ s * 2 ^ 58 / t ∧
      (s * 2 ^ 58 / t : ℚ) < (quotientUnit qd * q : ℕ) + quotientUnit qd := by
  have hpasses := quotientUnit_passes qd
  have hn : 2 ≤ quotientPasses qd := by
    unfold quotientPasses
    omega
  have hquarter : 2 ^ quotientPasses qd = 4 * 2 ^ (quotientPasses qd - 2) := by
    rw [show (4 : ℕ) = 2 ^ 2 by norm_num, ← pow_add, Nat.add_sub_cancel' hn]
  have hpos : 0 < quotientUnit qd := by cases qd <;> decide
  -- the operands are within a factor of two of each other
  have hqlo : 2 ^ (quotientPasses qd - 2) ≤ q := by
    rw [hq, Nat.le_div_iff_mul_le (by omega), hquarter]
    calc 2 ^ (quotientPasses qd - 2) * (2 * (t * 8)) ≤
          2 ^ (quotientPasses qd - 2) * (4 * (s * 8)) := Nat.mul_le_mul_left _ (by omega)
      _ = s * 8 * (4 * 2 ^ (quotientPasses qd - 2)) := by ring
  have hqhi : q < 2 ^ quotientPasses qd := by
    rw [hq, Nat.div_lt_iff_lt_mul (by omega), Nat.mul_comm]
    exact Nat.mul_lt_mul_of_pos_left (by omega) (by positivity)
  obtain ⟨hlow, hhigh⟩ := natDiv_bounds (K := ℚ) (s * 8 * 2 ^ quotientPasses qd)
    (d := 2 * (t * 8)) (by omega)
  have hunit : (0 : ℚ) < quotientUnit qd := by exact_mod_cast hpos
  have ht' : (0 : ℚ) < t := by exact_mod_cast (by omega : 0 < t)
  have hexact : (quotientUnit qd : ℚ) *
      ((s * 8 * 2 ^ quotientPasses qd : ℕ) / (2 * (t * 8) : ℕ)) = s * 2 ^ 58 / t := by
    have hpasses' : (quotientUnit qd : ℚ) * 2 ^ quotientPasses qd = 2 ^ 59 := by
      exact_mod_cast hpasses
    push_cast
    field_simp
    linear_combination (s : ℚ) * hpasses'
  rw [← hq] at hlow hhigh
  refine ⟨?_, ?_, ?_, ?_⟩
  · have hfour : 4 * (quotientUnit qd * 2 ^ (quotientPasses qd - 2)) = 2 ^ 59 := by
      rw [← hpasses, hquarter]
      ring
    calc 2 ^ 57 = quotientUnit qd * 2 ^ (quotientPasses qd - 2) := by omega
      _ ≤ quotientUnit qd * q := Nat.mul_le_mul_left _ hqlo
  · calc quotientUnit qd * q < quotientUnit qd * 2 ^ quotientPasses qd :=
          Nat.mul_lt_mul_of_pos_left hqhi hpos
      _ = 2 ^ 59 := hpasses
  · rw [← hexact]
    push_cast at hlow ⊢
    exact mul_le_mul_of_nonneg_left hlow hunit.le
  · rw [← hexact]
    have h := mul_lt_mul_of_pos_left hhigh hunit
    push_cast at h ⊢
    linarith

/-- The quotient of two magnitudes, scaled to the fraction and exponent of the result. -/
theorem magnitude_div (a b : BitVec 64) (ha : exponent a ≠ 0) (hb : exponent b ≠ 0) :
    magnitude a / magnitude b = (significand a * 2 ^ 58 / significand b : ℚ) *
      2 ^ (exponent a - exponent b + fpBias + 1 - fpBias - 59) := by
  have hsplit : (2 : ℚ) ^ (exponent a - exponent b + fpBias + 1 - fpBias - 59) * 2 ^ 58 =
      2 ^ (exponent a - fpBias - 56) / 2 ^ (exponent b - fpBias - 56) := by
    rw [show (2 : ℚ) ^ 58 = 2 ^ (58 : ℤ) by norm_num, ← zpow_add₀ two_ne_zero,
      ← zpow_sub₀ two_ne_zero]
    congr 1
    ring
  rw [magnitude_eq ha, magnitude_eq hb, mul_div_mul_comm, ← hsplit]
  ring

/-- Floating division gives the quotient correctly rounded in the precision and direction of the
status word. -/
theorem div_correctly_rounded (fac fsrc : BitVec 64) (fps : Word) (hfac : exponent fac ≠ 0)
    (hfsrc : exponent fsrc ≠ 0) :
    let rounded := roundMagnitude (precision fps) (direction fps)
      (magnitude (significant fps fac) / magnitude (significant fps fsrc))
    1 ≤ packedExponent rounded → packedExponent rounded ≤ 255 →
      Delivers fps (fpDiv fac fsrc fps) (negative fac ^^ negative fsrc) rounded := by
  intro rounded h1 h2
  have hdiv : fpDiv fac fsrc fps = (divfp11 (toFac fac fps) (toFac fsrc fps) fps).packed := rfl
  rw [hdiv, divfp11_eq _ _ _ (by rw [getExp_toFac]; exact hfac), getExp_toFac, getExp_toFac,
    ← getSign_xor_toFac fac fsrc fps]
  have hs := significand_bounds (significant fps fac)
  have ht := significand_bounds (significant fps fsrc)
  have hf := toNat_guarded fac fps
  have hg := toNat_guarded fsrc fps
  set qd : Bool := decide (fps &&& fpsD ≠ 0) with hqd
  have hunit : ∃ j, quotientUnit qd = 2 ^ j ∧ j + 1 < guardBits fps := by
    rcases precision_cases fps with ⟨hd, -, hguard⟩ | ⟨hd, -, hguard⟩
    · exact ⟨32, by rw [hqd, decide_eq_false (not_not.mpr hd)]; rfl, by omega⟩
    · exact ⟨0, by rw [hqd, decide_eq_true hd]; rfl, by omega⟩
  -- the quotient is a multiple of its unit, which is under the guard bits
  obtain ⟨j, hj, hjg⟩ := hunit
  have hloop := divLoop_quotient qd (toFac fsrc fps).getFrac.lshGuard (by omega)
    (by omega) (quotientPasses qd) (toFac fac fps).getFrac.lshGuard .zero 0 (by omega) rfl
    (by rw [Nat.zero_add, Nat.mul_one, quotientUnit_passes])
  rw [divide_quotient _ (by omega), hf, hg] at hloop
  obtain ⟨hlo, hhi, hlow, hhigh⟩ := quotient_bounds qd hs ht rfl
  have hquo := justified_toNat (by rw [hloop]; omega)
  rw [hloop] at hquo
  rw [← hquo] at hlo hhi hlow hhigh
  refine normalizeOnce_delivers (j := j) _ _ fps hlo hhi hjg ?_ hlow ?_ ?_ h1 h2
  · rw [hquo, hj]
    exact Nat.dvd_mul_right _ _
  · rw [hj] at hhigh
    exact_mod_cast hhigh
  · have hexact := magnitude_div (significant fps fac) (significant fps fsrc)
      (by rw [exponent_significant]; exact hfac) (by rw [exponent_significant]; exact hfsrc)
    rw [exponent_significant, exponent_significant] at hexact
    exact congrArg (roundMagnitude _ _) hexact

theorem fifteen_over_five :
    Delivers fpsD (fpDiv 0x4270000000000000 0x41A0000000000000 fpsD) false 3 := by
  have hfifteen : magnitude (significant fpsD 0x4270000000000000) = 15 := by
    rw [magnitude_eq (by decide),
      show exponent (significant fpsD 0x4270000000000000) = 132 by decide,
      show significand (significant fpsD 0x4270000000000000) = 15 * 2 ^ 52 by decide]
    norm_num
  have hfive : magnitude (significant fpsD 0x41A0000000000000) = 5 := by
    rw [magnitude_eq (by decide),
      show exponent (significant fpsD 0x41A0000000000000) = 131 by decide,
      show significand (significant fpsD 0x41A0000000000000) = 5 * 2 ^ 53 by decide]
    norm_num
  have hround : roundMagnitude (precision fpsD) (direction fpsD) (15 / 5 : ℚ) = 3 := by
    have h := roundMagnitude_natCast (K := ℚ) (m := 3) (direction fpsD) (by decide)
      (show 3 < 2 ^ precision fpsD by decide)
    norm_num at h ⊢
    exact h
  have hexp : packedExponent 3 = 130 := by
    unfold packedExponent
    rw [abs_of_pos (by norm_num), log_eq (n := 1) (by norm_num) (by norm_num)]
    norm_num
  have h := div_correctly_rounded 0x4270000000000000 0x41A0000000000000 fpsD (by decide) (by decide)
  rw [hfifteen, hfive, hround] at h
  exact h (by rw [hexp]; decide) (by rw [hexp]; decide)

end Pdp11
