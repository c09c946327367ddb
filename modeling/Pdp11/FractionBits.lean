import Pdp11.FloatingPoint
import Mathlib.Tactic.NormNum
import Mathlib.Tactic.IntervalCases

/-! The 64-bit fractions as natural numbers. -/

namespace Pdp11

theorem andMask_toNat {n : ℕ} (hn : n ≤ 32) : (andMask n).toNat = 2 ^ n - 1 := by
  interval_cases n <;> rfl

theorem getLsbD_andMask {n : ℕ} (hn : n ≤ 32) (i : ℕ) :
    (andMask n).getLsbD i = decide (i < n) := by
  rw [← BitVec.testBit_toNat, andMask_toNat hn, Nat.testBit_two_pow_sub_one]

/-- The mask after a right shift clears nothing. -/
theorem ushiftRight_and_andMask (x : BitVec 32) (n : ℕ) :
    (x >>> n) &&& andMask (32 - n) = x >>> n := by
  ext i hi
  simp only [← BitVec.getLsbD_eq_getElem, BitVec.getLsbD_and, BitVec.getLsbD_ushiftRight,
    getLsbD_andMask (Nat.sub_le 32 n)]
  by_cases hin : i < 32 - n
  · rw [decide_eq_true hin, Bool.and_true]
  · rw [BitVec.getLsbD_of_ge _ _ (by omega), Bool.false_and]

namespace Fpac

/-- The two halves as one number. -/
def toNat (f : Fpac) : ℕ := f.h.toNat * 2 ^ 32 + f.l.toNat

/-- The two halves as one word. -/
def bits (f : Fpac) : BitVec 64 := f.h ++ f.l

theorem toNat_bits (f : Fpac) : f.bits.toNat = f.toNat := by
  unfold bits toNat
  rw [BitVec.toNat_append, ← Nat.shiftLeft_add_eq_or_of_lt f.l.isLt, Nat.shiftLeft_eq]

theorem toNat_lt (f : Fpac) : f.toNat < 2 ^ 64 := by
  rw [← toNat_bits]
  exact f.bits.isLt

theorem getLsbD_bits (f : Fpac) (i : ℕ) :
    f.bits.getLsbD i = if i < 32 then f.l.getLsbD i else f.h.getLsbD (i - 32) := by
  unfold bits
  rw [BitVec.getLsbD_append]

theorem lshV_bits (f : Fpac) (n : ℕ) : (f.lshV n).bits = f.bits <<< n := by
  ext i hi
  simp only [← BitVec.getLsbD_eq_getElem, BitVec.getLsbD_shiftLeft, getLsbD_bits]
  unfold lshV
  by_cases hn : 32 ≤ n
  · simp only [if_pos hn, BitVec.getLsbD_shiftLeft]
    grind
  · simp only [if_neg hn, BitVec.getLsbD_shiftLeft, BitVec.getLsbD_ushiftRight,
      BitVec.getLsbD_or, BitVec.getLsbD_and, getLsbD_andMask (show n ≤ 32 by omega)]
    grind

theorem rshV_bits (f : Fpac) {n : ℕ} (h64 : n < 64) : (f.rshV n).bits = f.bits >>> n := by
  ext i hi
  simp only [← BitVec.getLsbD_eq_getElem, BitVec.getLsbD_ushiftRight, getLsbD_bits]
  unfold rshV
  by_cases hn : 32 ≤ n
  · rw [if_pos hn, show 64 - n = 32 - (n - 32) by omega, ushiftRight_and_andMask]
    simp only [BitVec.getLsbD_ushiftRight]
    grind
  · rw [if_neg hn, ushiftRight_and_andMask, ushiftRight_and_andMask]
    simp only [BitVec.getLsbD_shiftLeft, BitVec.getLsbD_ushiftRight, BitVec.getLsbD_or]
    grind

theorem toNat_lshV (f : Fpac) (n : ℕ) : (f.lshV n).toNat = f.toNat * 2 ^ n % 2 ^ 64 := by
  rw [← toNat_bits, lshV_bits, BitVec.toNat_shiftLeft, toNat_bits, Nat.shiftLeft_eq]

theorem toNat_rshV (f : Fpac) {n : ℕ} (h64 : n < 64) : (f.rshV n).toNat = f.toNat / 2 ^ n := by
  rw [← toNat_bits, rshV_bits f h64, BitVec.toNat_ushiftRight, toNat_bits,
    Nat.shiftRight_eq_div_pow]

theorem toNat_lshK (f : Fpac) {n : ℕ} (hn : n < 32) :
    (f.lshK n).toNat = f.toNat * 2 ^ n % 2 ^ 64 := by
  have hkv : f.lshK n = f.lshV n := by
    unfold lshK lshV
    rw [if_neg (Nat.not_le.mpr hn)]
  rw [hkv, toNat_lshV]

theorem toNat_rshK (f : Fpac) {n : ℕ} (hn : n < 32) : (f.rshK n).toNat = f.toNat / 2 ^ n := by
  have hkv : f.rshK n = f.rshV n := by
    unfold rshK rshV
    rw [if_neg (Nat.not_le.mpr hn)]
  rw [hkv, toNat_rshV f (by omega)]

theorem toNat_lsh1 (f : Fpac) : f.lsh1.toNat = f.toNat * 2 % 2 ^ 64 :=
  toNat_lshK (n := 1) f (by decide)

theorem toNat_rsh1 (f : Fpac) : f.rsh1.toNat = f.toNat / 2 := by
  have hone : f.rsh1 = f.rshK 1 := by
    have hbit : (f.h &&& 1) <<< 31 = f.h <<< 31 := by
      ext i hi
      simp only [← BitVec.getLsbD_eq_getElem, BitVec.getLsbD_shiftLeft, BitVec.getLsbD_and]
      grind
    unfold rsh1 rshK
    rw [hbit]
    rfl
  rw [hone, toNat_rshK f (by decide), pow_one]

theorem toNat_add (s2 s1 : Fpac) : (add s2 s1).toNat = (s1.toNat + s2.toNat) % 2 ^ 64 := by
  have h1 := s1.h.isLt
  have h2 := s2.h.isLt
  have l1 := s1.l.isLt
  have l2 := s2.l.isLt
  unfold add toNat
  simp only [BitVec.lt_def, BitVec.toNat_add]
  split_ifs with hc
  · rw [show (1 : BitVec 32).toNat = 1 from rfl]
    omega
  · rw [show (0 : BitVec 32).toNat = 0 from rfl]
    omega

theorem toNat_sub {s2 s1 : Fpac} (h : s2.toNat ≤ s1.toNat) :
    (sub s2 s1).toNat = s1.toNat - s2.toNat := by
  have h1 := s1.h.isLt
  have h2 := s2.h.isLt
  have l1 := s1.l.isLt
  have l2 := s2.l.isLt
  unfold toNat at h ⊢
  unfold sub
  simp only [BitVec.lt_def, BitVec.toNat_sub]
  split_ifs with hc
  · rw [show (1 : BitVec 32).toNat = 1 from rfl]
    omega
  · rw [show (0 : BitVec 32).toNat = 0 from rfl]
    omega

theorem lt_iff (x y : Fpac) : x.lt y = true ↔ x.toNat < y.toNat := by
  have h1 := x.h.isLt
  have h2 := y.h.isLt
  have l1 := x.l.isLt
  have l2 := y.l.isLt
  unfold lt toNat
  simp only [decide_eq_true_eq, BitVec.lt_def, ← BitVec.toNat_inj]
  omega

theorem isZero_iff (f : Fpac) : f.isZero = true ↔ f.toNat = 0 := by
  have hzero : f.h ||| f.l = 0 ↔ f.h = 0#32 ∧ f.l = 0#32 := BitVec.or_eq_zero_iff
  unfold isZero toNat
  simp only [decide_eq_true_eq, hzero, ← BitVec.toNat_inj, BitVec.toNat_zero]
  omega

theorem toNat_zero : zero.toNat = 0 := rfl

theorem ext_toNat {x y : Fpac} (h : x.toNat = y.toNat) : x = y := by
  rcases x with ⟨xl, xh⟩
  rcases y with ⟨yl, yh⟩
  have h2 := xl.isLt
  have h4 := yl.isLt
  unfold toNat at h
  simp only [Fpac.mk.injEq, ← BitVec.toNat_inj] at h ⊢
  omega

/-- The guarded hidden bit of a fraction that has no carry. -/
theorem hiddenBit_iff {f : Fpac} (h : f.toNat < 2 ^ 59) :
    f.h.getLsbD hiddenBit = true ↔ 2 ^ 58 ≤ f.toNat := by
  have l := f.l.isLt
  unfold toNat at h ⊢
  rw [← BitVec.testBit_toNat, Nat.testBit_eq_decide_div_mod_eq, decide_eq_true_eq]
  unfold hiddenBit
  omega

theorem carryBit_iff {f : Fpac} (h : f.toNat < 2 ^ 60) :
    f.h.getLsbD carryBit = true ↔ 2 ^ 59 ≤ f.toNat := by
  have l := f.l.isLt
  unfold toNat at h ⊢
  rw [← BitVec.testBit_toNat, Nat.testBit_eq_decide_div_mod_eq, decide_eq_true_eq]
  unfold carryBit
  omega

theorem fromFac_toNat (f : Fpac) : (fromFac f).toNat = f.toNat := by
  have hbits : fromFac f = f.bits := by
    ext i hi
    unfold fromFac
    simp only [← BitVec.getLsbD_eq_getElem, BitVec.getLsbD_or, BitVec.getLsbD_shiftLeft,
      BitVec.getLsbD_setWidth, getLsbD_bits]
    grind
  rw [hbits, toNat_bits]

theorem and_fpFrach_toNat (x : BitVec 32) : (x &&& fpFrach).toNat = x.toNat % 2 ^ 23 := by
  rw [BitVec.toNat_and, show fpFrach.toNat = 2 ^ 23 - 1 from rfl, Nat.and_two_pow_sub_one_eq_mod]

/-- The hidden bit set above the stored fraction. -/
theorem toNat_getFrac (f : Fpac) : f.getFrac.toNat = 2 ^ 55 + f.toNat % 2 ^ 55 := by
  have hor : ((f.h &&& fpFrach) ||| fpHb).toNat = 2 ^ 23 + f.h.toNat % 2 ^ 23 := by
    have hlt : f.h.toNat % 2 ^ 23 < 2 ^ 23 := Nat.mod_lt _ (by decide)
    have h := Nat.two_pow_add_eq_or_of_lt hlt 1
    rw [BitVec.toNat_or, and_fpFrach_toNat, Nat.or_comm, show fpHb.toNat = 2 ^ 23 * 1 from rfl, ← h,
      Nat.mul_one]
  have hl := f.l.isLt
  unfold getFrac toNat
  dsimp only
  rw [hor]
  omega

theorem toNat_getFrac_lshGuard (f : Fpac) :
    f.getFrac.lshGuard.toNat = (2 ^ 55 + f.toNat % 2 ^ 55) * 8 := by
  have hlt : f.toNat % 2 ^ 55 < 2 ^ 55 := Nat.mod_lt _ (by decide)
  unfold lshGuard
  rw [toNat_lshK _ (by decide), toNat_getFrac, Nat.mod_eq_of_lt (by omega)]
  norm_num

end Fpac
end Pdp11
