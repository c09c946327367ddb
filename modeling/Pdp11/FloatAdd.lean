import Pdp11.FloatRounding
import Mathlib.Data.Nat.Cast.Field

/-! Correct rounding of the single-precision floating addition. -/

namespace Pdp11
open Rounding

/-- The fraction shifted left without loss, its exponent lowered to match. -/
def ShiftedLeft (fe fe' : Fpac × ℤ) : Prop :=
  ∃ k : ℕ, fe'.1.toNat = fe.1.toNat * 2 ^ k ∧ fe'.2 = fe.2 - k ∧ fe'.1.toNat < 2 ^ 59

theorem ShiftedLeft.lt {x y : Fpac × ℤ} (h : ShiftedLeft x y) : y.1.toNat < 2 ^ 59 := by
  obtain ⟨-, -, -, hlt⟩ := h
  exact hlt

theorem ShiftedLeft.trans {x y z : Fpac × ℤ} (h : ShiftedLeft x y) (h' : ShiftedLeft y z) :
    ShiftedLeft x z := by
  obtain ⟨j, hj, hje, -⟩ := h
  obtain ⟨k, hk, hke, hlt⟩ := h'
  refine ⟨j + k, ?_, ?_, hlt⟩
  · rw [hk, hj, pow_add, Nat.mul_assoc]
  · rw [hke, hje]
    push_cast
    ring

theorem ShiftedLeft.refl {x : Fpac × ℤ} (h : x.1.toNat < 2 ^ 59) : ShiftedLeft x x :=
  ⟨0, by simp, by simp, h⟩

theorem ShiftedLeft.value_kept {x y : Fpac × ℤ} (h : ShiftedLeft x y) :
    (y.1.toNat : ℚ) * 2 ^ y.2 = x.1.toNat * 2 ^ x.2 := by
  obtain ⟨k, hk, hke, -⟩ := h
  have hsplit : (2 : ℚ) ^ x.2 = 2 ^ k * 2 ^ y.2 := by
    rw [← zpow_natCast, ← zpow_add₀ two_ne_zero, hke]
    congr 1
    ring
  rw [hk, hsplit]
  push_cast
  ring

theorem ShiftedLeft.value_eq {x y : Fpac × ℤ} (h : ShiftedLeft x y) :
    (y.1.toNat : ℚ) * 2 ^ (y.2 - fpBias - 59) = x.1.toNat * 2 ^ (x.2 - fpBias - 59) := by
  have hscale (e : ℤ) : (2 : ℚ) ^ (e - fpBias - 59) = 2 ^ e * 2 ^ (-fpBias - 59) := by
    rw [← zpow_add₀ two_ne_zero]
    congr 1
    ring
  rw [hscale, hscale, ← mul_assoc, ← mul_assoc, h.value_kept]

/-- The bits that a shortcut tests are the top `n` of a guarded fraction. -/
theorem shortcut_room {mask : BitVec 32} {n : ℕ} (hn : n < 27)
    (hmask : (mask <<< 3) >>> (27 - n) = andMask n) {f : Fpac} (h : f.toNat < 2 ^ 59)
    (hclear : f.h &&& (mask <<< 3) = 0) : f.toNat * 2 ^ n < 2 ^ 59 := by
  have hl := f.l.isLt
  have hhigh : f.h.toNat < 2 ^ 27 := by
    unfold Fpac.toNat at h
    omega
  have hpow : 2 ^ 27 = 2 ^ (27 - n) * 2 ^ n := by
    rw [← pow_add, Nat.sub_add_cancel hn.le]
  have htop : f.h.toNat < 2 ^ (27 - n) := by
    have hbits : (f.h >>> (27 - n)) &&& andMask n = 0 := by
      rw [← hmask, ← BitVec.ushiftRight_and_distrib, hclear]
      exact BitVec.zero_ushiftRight
    have hquot := congrArg BitVec.toNat hbits
    rw [BitVec.toNat_and, andMask_toNat (by omega), Nat.and_two_pow_sub_one_eq_mod,
      BitVec.toNat_ushiftRight, Nat.shiftRight_eq_div_pow, Nat.mod_eq_of_lt] at hquot
    · exact (Nat.div_eq_zero_iff_lt (by positivity)).mp hquot
    · rw [Nat.div_lt_iff_lt_mul (by positivity), Nat.mul_comm, ← hpow]
      exact hhigh
  have hlt : f.toNat < 2 ^ (27 - n) * 2 ^ 32 := by
    unfold Fpac.toNat
    omega
  calc f.toNat * 2 ^ n < 2 ^ (27 - n) * 2 ^ 32 * 2 ^ n :=
        Nat.mul_lt_mul_of_pos_right hlt (by positivity)
    _ = 2 ^ 27 * 2 ^ 32 := by
        rw [hpow]
        ring
    _ = 2 ^ 59 := by norm_num

/-- A shortcut never shifts a one out. -/
theorem shortcut_shifted (mask : BitVec 32) (n : ℕ) (hn : n < 27)
    (hmask : (mask <<< 3) >>> (27 - n) = andMask n) {fe : Fpac × ℤ} (h : fe.1.toNat < 2 ^ 59) :
    ShiftedLeft fe (shortcut mask n fe) := by
  unfold shortcut
  split_ifs with hclear
  · have hroom := shortcut_room hn hmask h hclear
    refine ⟨n, ?_, rfl, ?_⟩
    · rw [Fpac.toNat_lshK _ (by omega), Nat.mod_eq_of_lt (by omega)]
    · rw [Fpac.toNat_lshK _ (by omega), Nat.mod_eq_of_lt (by omega)]
      exact hroom
  · exact .refl h

/-- The cascade never overshoots the hidden bit. -/
theorem shortcuts_shifted {fe : Fpac × ℤ} (h : fe.1.toNat < 2 ^ 59) :
    ShiftedLeft fe (shortcuts fe) := by
  have h24 := shortcut_shifted 0x00FFFFFF 24 (by decide) (by decide) h
  have h12 := shortcut_shifted 0x00FFF000 12 (by decide) (by decide) h24.lt
  have h6 := shortcut_shifted 0x00FC0000 6 (by decide) (by decide) h12.lt
  exact (h24.trans h12).trans h6

/-- A fraction of at least `2 ^ (58 - fuel)` has its hidden bit set after `fuel` single shifts. -/
theorem normalize_shifted (fuel : ℕ) : ∀ fe : Fpac × ℤ, fe.1.toNat < 2 ^ 59 →
    2 ^ 58 ≤ fe.1.toNat * 2 ^ fuel →
    ShiftedLeft fe (normalize fuel fe) ∧ 2 ^ 58 ≤ (normalize fuel fe).1.toNat := by
  induction fuel with
  | zero =>
    intro fe hlt hlo
    exact ⟨.refl hlt, by simpa [normalize] using hlo⟩
  | succ fuel ih =>
    intro fe hlt hlo
    unfold normalize
    split_ifs with hhidden
    · exact ⟨.refl hlt, (Fpac.hiddenBit_iff hlt).mp hhidden⟩
    · have hclear : fe.1.toNat < 2 ^ 58 :=
        Nat.not_le.mp fun h => hhidden ((Fpac.hiddenBit_iff hlt).mpr h)
      have hshift : fe.1.lsh1.toNat = fe.1.toNat * 2 := by
        rw [Fpac.toNat_lsh1, Nat.mod_eq_of_lt (by omega)]
      have hone : ShiftedLeft fe (fe.1.lsh1, fe.2 - 1) :=
        ⟨1, by rw [hshift, pow_one], rfl, by dsimp only; omega⟩
      obtain ⟨hrest, hbot⟩ := ih (fe.1.lsh1, fe.2 - 1) hone.lt (by
        dsimp only
        rw [hshift, Nat.mul_assoc, ← pow_succ']
        exact hlo)
      exact ⟨hone.trans hrest, hbot⟩

/-- The end of a subtraction of aligned fractions. -/
def subAligned (fac : Fpac) (ediff : ℤ) (facfrac : Fpac) (fps : Word) : FpResult Fpac :=
  if facfrac.isZero then ⟨.zero, false, 0⟩
  else
    let fe := (facfrac, getExp fac.h)
    let fe := normalize normalizeFuel (if ediff ≤ 1 then shortcuts fe else fe)
    roundAndPack fac fe.2 fe.1 true fps 0

/-- The end of an addition of aligned fractions. -/
def sumAligned (fac facfrac : Fpac) (fps : Word) : FpResult Fpac :=
  if facfrac.h.getLsbD carryBit then
    roundAndPack fac (getExp fac.h + 1) facfrac.rsh1 true fps 0
  else roundAndPack fac (getExp fac.h) facfrac true fps 0

def alignedFrac (fsrc : Fpac) (ediff : ℤ) : Fpac :=
  if ediff ≠ 0 then fsrc.getFrac.lshGuard.rshV ediff.toNat else fsrc.getFrac.lshGuard

theorem alignedFrac_toNat (fsrc : Fpac) {ediff : ℤ} (h0 : 0 ≤ ediff) (h : ediff < 60) :
    (alignedFrac fsrc ediff).toNat = fsrc.getFrac.lshGuard.toNat / 2 ^ ediff.toNat := by
  unfold alignedFrac
  split_ifs with hne
  · exact Fpac.toNat_rshV _ (by omega)
  · rw [not_not.mp hne, Int.toNat_zero, pow_zero, Nat.div_one]

/-- The addition of non-zero operands, the larger one first. -/
def addOrdered (fac fsrc : Fpac) (fps : Word) : FpResult Fpac :=
  let ediff := getExp fac.h - getExp fsrc.h
  if 60 ≤ ediff then ⟨fac, false, 0⟩
  else if getSign fac.h ≠ getSign fsrc.h then
    subAligned fac ediff (Fpac.sub (alignedFrac fsrc ediff) fac.getFrac.lshGuard) fps
  else sumAligned fac (Fpac.add (alignedFrac fsrc ediff) fac.getFrac.lshGuard) fps

theorem addfp11_eq {a b : Fpac} (fps : Word) (ha : getExp a.h ≠ 0) (hb : getExp b.h ≠ 0) :
    addfp11 a b fps = if a.ltAp b then addOrdered b a fps else addOrdered a b fps := by
  unfold addfp11 addOrdered subAligned sumAligned alignedFrac
  by_cases hlt : a.ltAp b = true
  · simp only [hlt, if_true, if_neg ha, if_neg hb]
  · simp only [hlt, Bool.false_eq_true, if_false, if_neg ha, if_neg hb]

theorem ltAp_iff (x y : Fpac) : x.ltAp y = true ↔ x.toNat % 2 ^ 63 < y.toNat % 2 ^ 63 := by
  have hmask : ∀ h : BitVec 32, (h &&& ~~~fpSign).toNat = h.toNat % 2 ^ 31 := by
    intro h
    rw [BitVec.toNat_and, show (~~~fpSign).toNat = 2 ^ 31 - 1 from rfl,
      Nat.and_two_pow_sub_one_eq_mod]
  have hx := x.l.isLt
  have hy := y.l.isLt
  unfold Fpac.ltAp Fpac.toNat
  simp only [decide_eq_true_eq, BitVec.lt_def, ← BitVec.toNat_inj, hmask]
  omega

/-- The larger operand has the larger exponent, or the same one and the larger fraction. -/
theorem ordered {x y : Fpac} (h : x.ltAp y = false) :
    exponent (fromFac y) ≤ exponent (fromFac x) ∧
      (exponent (fromFac y) = exponent (fromFac x) →
        significand (fromFac y) ≤ significand (fromFac x)) := by
  have hle : ¬ x.toNat % 2 ^ 63 < y.toNat % 2 ^ 63 := by
    rw [← ltAp_iff, h]
    decide
  rw [exponent_eq, exponent_eq]
  unfold significand
  rw [Fpac.fromFac_toNat, Fpac.fromFac_toNat]
  omega

/-- A number within a quarter of the last place of a single-precision one rounds to it. -/
theorem roundMagnitude_near {a : ℕ} {x : ℚ} (k : ℤ) (hdvd : 2 ^ 35 ∣ a) (hlo : 2 ^ 58 ≤ a)
    (hhi : a < 2 ^ 59) (hx : (a : ℚ) - 2 ^ 33 < x) (hx' : x < a + 2 ^ 33) :
    roundMagnitude 24 .nearestAway (x * 2 ^ k) = a * 2 ^ k := by
  obtain ⟨m, rfl⟩ := hdvd
  have hm : 2 ^ 24 ≤ m * 2 ∧ m < 2 ^ 24 := by omega
  have hscale : x * 2 ^ k = x / 2 ^ 35 * 2 ^ (k + 35) := by
    rw [zpow_add₀ two_ne_zero, show (2 : ℚ) ^ (35 : ℤ) = 2 ^ 35 by norm_num]
    field_simp
  push_cast at hx hx'
  have hpos : (2 : ℚ) ^ 58 ≤ 2 ^ 35 * m := by exact_mod_cast hlo
  have hnear := roundMagnitude_tiny (K := ℚ) (x := x / 2 ^ 35) hm.1 hm.2
    (by rw [lt_div_iff₀ (by norm_num)]; linarith) (by rw [div_lt_iff₀ (by norm_num)]; linarith)
  have hx0 : 0 < x / 2 ^ 35 := by
    apply div_pos _ (by norm_num)
    linarith
  rw [hscale, roundMagnitude_mul_zpow _ _ hx0, hnear, zpow_add₀ two_ne_zero,
    show (2 : ℚ) ^ (35 : ℤ) = 2 ^ 35 by norm_num]
  push_cast
  ring

theorem subAligned_delivers (fac : Fpac) (ediff : ℤ) {diff : Fpac} (fps : Word)
    (hne : diff.toNat ≠ 0) (hlt : diff.toNat < 2 ^ 59) {rounded : ℚ}
    (hrounded : rounded = roundMagnitude (precision fps) (direction fps)
      ((diff.toNat : ℚ) * 2 ^ (getExp fac.h - fpBias - 59)))
    (h1 : 1 ≤ packedExponent rounded) (h2 : packedExponent rounded ≤ 255) :
    Delivers fps (subAligned fac ediff diff fps).packed (getSign fac.h) rounded := by
  have hcut : ShiftedLeft (diff, getExp fac.h)
      (if ediff ≤ 1 then shortcuts (diff, getExp fac.h) else (diff, getExp fac.h)) := by
    split_ifs
    · exact shortcuts_shifted hlt
    · exact .refl hlt
  generalize hcuts : (if ediff ≤ 1 then shortcuts (diff, getExp fac.h)
    else (diff, getExp fac.h)) = cut at hcut
  have hfuel : 2 ^ 58 ≤ cut.1.toNat * 2 ^ normalizeFuel := by
    obtain ⟨k, hk, -, -⟩ := hcut
    have hpos : 0 < 2 ^ k := by positivity
    have hcutpos : 0 < cut.1.toNat := by
      rw [hk]
      exact Nat.mul_pos (Nat.pos_of_ne_zero hne) hpos
    calc 2 ^ 58 ≤ 1 * 2 ^ 64 := by norm_num
      _ ≤ cut.1.toNat * 2 ^ 64 := Nat.mul_le_mul_right _ hcutpos
  obtain ⟨hnorm, hbot⟩ := normalize_shifted normalizeFuel cut hcut.lt hfuel
  unfold subAligned
  rw [if_neg (fun h => hne ((Fpac.isZero_iff diff).mp h))]
  dsimp only
  rw [hcuts]
  apply roundAndPack_delivers fac _ fps hbot hnorm.lt _ h1 h2
  rw [hrounded, (hcut.trans hnorm).value_eq]

theorem sumAligned_delivers (fac : Fpac) {sum : Fpac} (fps : Word) {x : ℚ}
    (hlo : 2 ^ 58 ≤ sum.toNat) (hhi : sum.toNat < 2 ^ 60) (hx : (sum.toNat : ℚ) ≤ x)
    (hx' : x < sum.toNat + 1) {rounded : ℚ}
    (hrounded : rounded = roundMagnitude (precision fps) (direction fps)
      (x * 2 ^ (getExp fac.h - fpBias - 59)))
    (h1 : 1 ≤ packedExponent rounded) (h2 : packedExponent rounded ≤ 255) :
    Delivers fps (sumAligned fac sum fps).packed (getSign fac.h) rounded := by
  have hguard := guardBits_places fps
  unfold sumAligned
  by_cases hcarry : sum.h.getLsbD carryBit = true
  · have h59 := (Fpac.carryBit_iff hhi).mp hcarry
    have hhalf : sum.rsh1.toNat = sum.toNat / 2 := Fpac.toNat_rsh1 sum
    have hle : sum.rsh1.toNat * 2 ≤ sum.toNat ∧ sum.toNat + 1 ≤ sum.rsh1.toNat * 2 + 2 := by omega
    have hle1 : (sum.rsh1.toNat : ℚ) * 2 ≤ sum.toNat := by exact_mod_cast hle.1
    have hle2 : (sum.toNat : ℚ) + 1 ≤ sum.rsh1.toNat * 2 + 2 := by exact_mod_cast hle.2
    have hscale : x / 2 * (2 : ℚ) ^ (getExp fac.h + 1 - fpBias - 59) =
        x * 2 ^ (getExp fac.h - fpBias - 59) := by
      rw [show getExp fac.h + 1 - fpBias - 59 = 1 + (getExp fac.h - fpBias - 59) by ring,
        zpow_one_add₀ two_ne_zero]
      ring
    rw [if_pos hcarry]
    refine roundAndPack_prefix (j := 0) (x := x / 2) fac _ fps (by omega) (by omega) (by omega)
      (one_dvd _) (by linarith) ?_ ?_ h1 h2
    · rw [pow_zero]
      linarith
    · rw [hrounded, hscale]
  · have h59 : ¬ 2 ^ 59 ≤ sum.toNat := fun h => hcarry ((Fpac.carryBit_iff hhi).mpr h)
    rw [if_neg hcarry]
    refine roundAndPack_prefix (j := 0) fac _ fps hlo (by omega) (by omega) (one_dvd _) hx ?_
      hrounded h1 h2
    rw [pow_zero]
    exact hx'

/-- What a difference of single-precision fractions loses in the alignment does not affect its
rounding, and cannot make it zero. -/
theorem difference_aligned {a b d : ℕ} (ha : 2 ^ 35 ∣ a ∧ 2 ^ 58 ≤ a ∧ a < 2 ^ 59)
    (hb : 2 ^ 35 ∣ b ∧ 2 ^ 58 ≤ b ∧ b < 2 ^ 59) (hle : d = 0 → b ≤ a) (k : ℤ) :
    b / 2 ^ d ≤ a ∧ (b : ℚ) / 2 ^ d ≤ a ∧ (a - b / 2 ^ d = 0 ↔ (a : ℚ) - b / 2 ^ d = 0) ∧
      roundMagnitude 24 .nearestAway (((a : ℚ) - b / 2 ^ d) * 2 ^ k) =
        roundMagnitude 24 .nearestAway (((a - b / 2 ^ d : ℕ) : ℚ) * 2 ^ k) := by
  have hmul : b ≤ a * 2 ^ d := by
    rcases Nat.eq_zero_or_pos d with hd | hd
    · rw [hd, pow_zero, Nat.mul_one]
      exact hle hd
    · have htwo : a * 2 ^ 1 ≤ a * 2 ^ d :=
        Nat.mul_le_mul_left a (Nat.pow_le_pow_right (by decide) hd)
      omega
  have hquot : b / 2 ^ d ≤ a := Nat.div_le_of_le_mul (by rwa [Nat.mul_comm])
  have hratio : (b : ℚ) / 2 ^ d ≤ a := by
    rw [div_le_iff₀ (by positivity)]
    exact_mod_cast hmul
  by_cases hd : d ≤ 35
  · -- nothing is lost
    have hdvd : 2 ^ d ∣ b := (Nat.pow_dvd_pow 2 hd).trans hb.1
    have hexact : (a : ℚ) - b / 2 ^ d = ((a - b / 2 ^ d : ℕ) : ℚ) := by
      rw [Nat.cast_sub hquot, Nat.cast_div hdvd (by positivity)]
      push_cast
      rfl
    rw [hexact, Nat.cast_eq_zero]
    exact ⟨hquot, hratio, Iff.rfl, rfl⟩
  · -- both differences are within a quarter of the last place of the larger fraction
    have hpow : (2 : ℚ) ^ 36 ≤ 2 ^ d := pow_le_pow_right₀ (by norm_num) (by omega)
    have hb' : (b : ℚ) < 2 ^ 59 := by exact_mod_cast hb.2.2
    have ha' : (2 : ℚ) ^ 58 ≤ a := by exact_mod_cast ha.2.1
    have hnonneg : (0 : ℚ) ≤ b / 2 ^ d := by positivity
    have hsmall : (b : ℚ) / 2 ^ d < 2 ^ 33 := by
      rw [div_lt_iff₀ (by positivity)]
      linarith
    have hsmall' : ((a - b / 2 ^ d : ℕ) : ℚ) = a - (b / 2 ^ d : ℕ) := Nat.cast_sub hquot
    have hle' : ((b / 2 ^ d : ℕ) : ℚ) ≤ b / 2 ^ d := by
      have h := (natDiv_bounds (K := ℚ) b (d := 2 ^ d) (by positivity)).1
      push_cast at h ⊢
      exact h
    have hnonneg' : (0 : ℚ) ≤ (b / 2 ^ d : ℕ) := Nat.cast_nonneg _
    have hpos : (0 : ℚ) < (a - b / 2 ^ d : ℕ) := by linarith
    refine ⟨hquot, hratio, ?_, ?_⟩
    · constructor
      · intro h
        rw [h, Nat.cast_zero] at hpos
        exact absurd hpos (lt_irrefl 0)
      · intro h
        linarith
    · rw [roundMagnitude_near k ha.1 ha.2.1 ha.2.2 (by linarith) (by linarith),
        roundMagnitude_near k ha.1 ha.2.1 ha.2.2 (by linarith) (by linarith)]

/-- A magnitude with its sign. -/
def signed (neg : Bool) (m : ℚ) : ℚ := if neg then -m else m

theorem value_eq (v : BitVec 64) : value v = signed (negative v) (magnitude v) := rfl

theorem signed_eq_zero {neg : Bool} {m : ℚ} : signed neg m = 0 ↔ m = 0 := by
  cases neg <;> simp [signed]

theorem packedExponent_signed (neg : Bool) (m : ℚ) :
    packedExponent (signed neg m) = packedExponent m := by
  cases neg with
  | false => rfl
  | true =>
    unfold packedExponent signed
    rw [if_pos rfl, abs_neg]

theorem roundSigned_signed (p : ℕ) (d : Direction) (neg : Bool) {m : ℚ} (hm : 0 < m) :
    roundSigned p d (signed neg m) = signed neg (roundMagnitude p d m) := by
  unfold roundSigned
  cases neg with
  | false => exact if_neg (not_lt.mpr hm.le)
  | true =>
    have hneg : signed true m < 0 := neg_neg_of_pos hm
    rw [if_pos hneg]
    simp only [signed, if_true, neg_neg]

theorem signed_add (s t : Bool) (m n : ℚ) :
    signed s m + signed t n = signed s (if s = t then m + n else m - n) := by
  cases s <;> cases t <;> simp [signed] <;> ring

/-- A result without overflow or posted exception, and its value in the precision. -/
def DeliversValue (fps : Word) (r : FpResult (BitVec 64)) (x : ℚ) : Prop :=
  r.v = false ∧ r.fec = 0 ∧ value (significant fps r.val) = x

theorem Delivers.toValue {fps : Word} {r : FpResult (BitVec 64)} {neg : Bool} {mag : ℚ}
    (h : Delivers fps r neg mag) : DeliversValue fps r (signed neg mag) := by
  refine ⟨h.v, h.fec, ?_⟩
  rw [value_eq, negative_significant, h.sign, h.magnitude]

/-- Two non-zero single-precision operands, the larger one first. -/
structure Ordered (x y : Fpac) : Prop where
  exp : getExp x.h ≠ 0
  exp' : getExp y.h ≠ 0
  low : x.l = 0
  low' : y.l = 0
  order : x.ltAp y = false

/-- A single-precision fraction has zeros below its guard bits. -/
theorem frac_bounds {x : Fpac} (h : x.l = 0) :
    2 ^ 35 ∣ x.getFrac.lshGuard.toNat ∧ 2 ^ 58 ≤ x.getFrac.lshGuard.toNat ∧
      x.getFrac.lshGuard.toNat < 2 ^ 59 := by
  have hlow : x.toNat = x.h.toNat * 2 ^ 32 := by
    unfold Fpac.toNat
    rw [h, show (0 : BitVec 32).toNat = 0 from rfl, Nat.add_zero]
  rw [Fpac.toNat_getFrac_lshGuard, hlow]
  omega

theorem magnitude_frac {x : Fpac} (h : getExp x.h ≠ 0) :
    magnitude (fromFac x) =
      x.getFrac.lshGuard.toNat * 2 ^ (getExp x.h - fpBias - 59) := by
  have hsig : x.getFrac.lshGuard.toNat = significand (fromFac x) * 8 := by
    unfold significand
    rw [Fpac.toNat_getFrac_lshGuard, Fpac.fromFac_toNat]
  have hscale : (2 : ℚ) ^ (getExp x.h - fpBias - 56) = 8 * 2 ^ (getExp x.h - fpBias - 59) := by
    rw [show (8 : ℚ) = 2 ^ (3 : ℤ) by norm_num, ← zpow_add₀ two_ne_zero]
    congr 1
    ring
  rw [magnitude_eq (by rw [← getExp_eq]; exact h), ← getExp_eq, hscale, hsig]
  push_cast
  ring

namespace Ordered
variable {x y : Fpac} (o : Ordered x y)
include o

theorem exp_le : getExp y.h ≤ getExp x.h := by
  have h := (ordered o.order).1
  rwa [← getExp_eq, ← getExp_eq] at h

theorem frac_le (h : (getExp x.h - getExp y.h).toNat = 0) :
    y.getFrac.lshGuard.toNat ≤ x.getFrac.lshGuard.toNat := by
  have hexp := o.exp_le
  have hsig := (ordered o.order).2 (by rw [← getExp_eq, ← getExp_eq]; omega)
  unfold significand at hsig
  rw [Fpac.fromFac_toNat, Fpac.fromFac_toNat] at hsig
  rw [Fpac.toNat_getFrac_lshGuard, Fpac.toNat_getFrac_lshGuard]
  omega

/-- The smaller magnitude in the unit of the larger fraction. -/
theorem magnitude_aligned :
    magnitude (fromFac y) = y.getFrac.lshGuard.toNat / 2 ^ (getExp x.h - getExp y.h).toNat *
      2 ^ (getExp x.h - fpBias - 59) := by
  have hscale : (2 : ℚ) ^ (getExp x.h - fpBias - 59) =
      2 ^ (getExp x.h - getExp y.h).toNat * 2 ^ (getExp y.h - fpBias - 59) := by
    rw [← zpow_natCast, ← zpow_add₀ two_ne_zero, Int.toNat_of_nonneg (by have := o.exp_le; omega)]
    congr 1
    ring
  rw [magnitude_frac o.exp', hscale]
  field_simp

/-- The exact sum, in the unit of the larger fraction. -/
theorem sum_eq : value (fromFac x) + value (fromFac y) =
    signed (getSign x.h) ((if getSign x.h = getSign y.h then
        (x.getFrac.lshGuard.toNat : ℚ) +
          y.getFrac.lshGuard.toNat / 2 ^ (getExp x.h - getExp y.h).toNat
      else x.getFrac.lshGuard.toNat -
        y.getFrac.lshGuard.toNat / 2 ^ (getExp x.h - getExp y.h).toNat) *
      2 ^ (getExp x.h - fpBias - 59)) := by
  rw [value_eq, value_eq, signed_add, ← getSign_eq, ← getSign_eq, magnitude_frac o.exp,
    o.magnitude_aligned]
  congr 1
  split_ifs <;> ring

/-- The smaller operand is ignored from a distance at which it cannot affect the rounding. -/
theorem far {fps : Word} {m : ℚ} (hd : fps &&& fpsD = 0)
    (hm : (x.getFrac.lshGuard.toNat : ℚ) - 2 ^ 33 < m)
    (hm' : m < x.getFrac.lshGuard.toNat + 2 ^ 33) :
    DeliversValue fps (FpResult.packed ⟨x, false, 0⟩) (signed (getSign x.h)
      (roundMagnitude 24 .nearestAway (m * 2 ^ (getExp x.h - fpBias - 59)))) := by
  obtain ⟨hdvd, hlo, hhi⟩ := frac_bounds o.low
  have hsame : significant fps (fromFac x) = fromFac x := by
    rw [← BitVec.toNat_inj, significant_toNat, if_pos hd, Fpac.fromFac_toNat]
    unfold Fpac.toNat
    rw [o.low, show (0 : BitVec 32).toNat = 0 from rfl]
    omega
  refine ⟨rfl, rfl, ?_⟩
  unfold FpResult.packed
  dsimp only
  rw [hsame, value_eq, ← getSign_eq, magnitude_frac o.exp,
    roundMagnitude_near _ hdvd hlo hhi hm hm']

theorem far_small (h : 60 ≤ getExp x.h - getExp y.h) :
    (y.getFrac.lshGuard.toNat : ℚ) / 2 ^ (getExp x.h - getExp y.h).toNat < 2 ^ 33 := by
  have hb : (y.getFrac.lshGuard.toNat : ℚ) < 2 ^ 59 := by exact_mod_cast (frac_bounds o.low').2.2
  have hpow : (2 : ℚ) ^ 60 ≤ 2 ^ (getExp x.h - getExp y.h).toNat :=
    pow_le_pow_right₀ (by norm_num) (by omega)
  rw [div_lt_iff₀ (by positivity)]
  linarith

/-- Operands of one sign: what the alignment loses is under the last bit of the sum. -/
theorem sum_rounds {fps : Word} (hd : fps &&& fpsD = 0) (ht : fps &&& fpsT = 0)
    (hsign : getSign x.h = getSign y.h) {rounded : ℚ}
    (hrounded : rounded = roundSigned 24 .nearestAway (value (fromFac x) + value (fromFac y)))
    (h1 : 1 ≤ packedExponent rounded) (h2 : packedExponent rounded ≤ 255) :
    DeliversValue fps (addOrdered x y fps).packed rounded := by
  obtain ⟨-, halo, hahi⟩ := frac_bounds o.low
  obtain ⟨-, -, hbhi⟩ := frac_bounds o.low'
  have hexp := o.exp_le
  have hcode := alignedFrac_toNat y (show 0 ≤ getExp x.h - getExp y.h by omega)
  have hfar := o.far_small
  rw [o.sum_eq, if_pos hsign] at hrounded
  generalize hfac : x.getFrac.lshGuard.toNat = a at halo hahi hrounded
  generalize y.getFrac.lshGuard.toNat = b at hbhi hcode hfar hrounded
  generalize (getExp x.h - getExp y.h).toNat = d at hcode hfar hrounded
  have hapos : (0 : ℚ) < a := by exact_mod_cast (by omega : 0 < a)
  have hbnn : (0 : ℚ) ≤ b / 2 ^ d := by positivity
  rw [roundSigned_signed _ _ _ (by positivity)] at hrounded
  subst hrounded
  rw [packedExponent_signed] at h1 h2
  unfold addOrdered
  dsimp only
  -- far apart, the smaller operand is dropped
  by_cases h60 : 60 ≤ getExp x.h - getExp y.h
  · rw [if_pos h60]
    exact o.far hd (by rw [hfac]; linarith) (by rw [hfac]; linarith [hfar h60])
  · have hle : b / 2 ^ d ≤ b := Nat.div_le_self _ _
    have hadd : (Fpac.add (alignedFrac y (getExp x.h - getExp y.h)) x.getFrac.lshGuard).toNat =
        a + b / 2 ^ d := by
      rw [Fpac.toNat_add, hfac, hcode (by omega), Nat.mod_eq_of_lt (by omega)]
    obtain ⟨hlow, hhigh⟩ := natDiv_bounds (K := ℚ) b (d := 2 ^ d) (by positivity)
    push_cast at hlow hhigh
    rw [if_neg h60, if_neg (not_not.mpr hsign)]
    refine (sumAligned_delivers x (x := (a : ℚ) + b / 2 ^ d) fps (by rw [hadd]; omega)
      (by rw [hadd]; omega) ?_ ?_ ?_ h1 h2).toValue
    · rw [hadd]
      push_cast
      linarith
    · rw [hadd]
      push_cast
      linarith
    · rw [show precision fps = 24 from if_pos hd, show direction fps = .nearestAway from if_pos ht]

/-- Operands of opposite signs: what the alignment loses is covered by `difference_aligned`. -/
theorem difference_rounds {fps : Word} (hd : fps &&& fpsD = 0) (ht : fps &&& fpsT = 0)
    (hsign : getSign x.h ≠ getSign y.h) {rounded : ℚ}
    (hsum : value (fromFac x) + value (fromFac y) ≠ 0)
    (hrounded : rounded = roundSigned 24 .nearestAway (value (fromFac x) + value (fromFac y)))
    (h1 : 1 ≤ packedExponent rounded) (h2 : packedExponent rounded ≤ 255) :
    DeliversValue fps (addOrdered x y fps).packed rounded := by
  have ha := frac_bounds o.low
  have hb := frac_bounds o.low'
  have hexp := o.exp_le
  have hcode := alignedFrac_toNat y (show 0 ≤ getExp x.h - getExp y.h by omega)
  have hfar := o.far_small
  have hcore := difference_aligned ha hb o.frac_le (getExp x.h - fpBias - 59)
  rw [o.sum_eq, if_neg hsign] at hsum hrounded
  rw [ne_eq, signed_eq_zero, mul_eq_zero, not_or] at hsum
  generalize hfac : x.getFrac.lshGuard.toNat = a at ha hcore hsum hrounded
  generalize y.getFrac.lshGuard.toNat = b at hb hcode hfar hcore hsum hrounded
  generalize (getExp x.h - getExp y.h).toNat = d at hcode hfar hsum hrounded hcore
  obtain ⟨hle, hratio, hzero, hround⟩ := hcore
  have hne : a - b / 2 ^ d ≠ 0 := fun h => hsum.1 (hzero.mp h)
  have hpos : (0 : ℚ) < a - b / 2 ^ d :=
    lt_of_le_of_ne (by linarith) (fun h => hsum.1 h.symm)
  rw [roundSigned_signed _ _ _ (by positivity)] at hrounded
  subst hrounded
  rw [packedExponent_signed] at h1 h2
  unfold addOrdered
  dsimp only
  -- far apart, the smaller operand is dropped
  by_cases h60 : 60 ≤ getExp x.h - getExp y.h
  · have hbnn : (0 : ℚ) ≤ b / 2 ^ d := by positivity
    rw [if_pos h60]
    exact o.far hd (by rw [hfac]; linarith [hfar h60]) (by rw [hfac]; linarith)
  · have hsub : (Fpac.sub (alignedFrac y (getExp x.h - getExp y.h)) x.getFrac.lshGuard).toNat =
        a - b / 2 ^ d := by
      rw [Fpac.toNat_sub (by rw [hcode (by omega), hfac]; exact hle), hcode (by omega), hfac]
    rw [if_neg h60, if_pos hsign]
    refine (subAligned_delivers x _ fps (by rw [hsub]; exact hne) (by rw [hsub]; omega) ?_ h1
      h2).toValue
    rw [hsub, show precision fps = 24 from if_pos hd,
      show direction fps = .nearestAway from if_pos ht, hround]

/-- A sum that is exactly zero comes out as a clean zero. -/
theorem sum_zero (fps : Word) (hsum : value (fromFac x) + value (fromFac y) = 0) :
    addOrdered x y fps = ⟨.zero, false, 0⟩ := by
  have ha := frac_bounds o.low
  have hb := frac_bounds o.low'
  have hexp := o.exp_le
  have hcode := alignedFrac_toNat y (show 0 ≤ getExp x.h - getExp y.h by omega)
  have hfar := o.far_small
  have hcore := difference_aligned ha hb o.frac_le (getExp x.h - fpBias - 59)
  rw [o.sum_eq, signed_eq_zero, mul_eq_zero] at hsum
  have hunit : (2 : ℚ) ^ (getExp x.h - fpBias - 59) ≠ 0 := by positivity
  have hzero := hsum.resolve_right hunit
  generalize hfac : x.getFrac.lshGuard.toNat = a at ha hcore hzero
  generalize y.getFrac.lshGuard.toNat = b at hb hcode hfar hcore hzero
  generalize (getExp x.h - getExp y.h).toNat = d at hcode hfar hcore hzero
  have hbnn : (0 : ℚ) ≤ b / 2 ^ d := by positivity
  have hapos : (2 : ℚ) ^ 58 ≤ a := by exact_mod_cast ha.2.1
  have hsign : getSign x.h ≠ getSign y.h := by
    intro h
    rw [if_pos h] at hzero
    linarith
  have h60 : ¬ 60 ≤ getExp x.h - getExp y.h := by
    intro h
    rw [if_neg hsign] at hzero
    linarith [hfar h]
  rw [if_neg hsign] at hzero
  obtain ⟨hle, -, hiff, -⟩ := hcore
  have hsub :
      (Fpac.sub (alignedFrac y (getExp x.h - getExp y.h)) x.getFrac.lshGuard).toNat = 0 := by
    rw [Fpac.toNat_sub (by rw [hcode (by omega), hfac]; exact hle), hcode (by omega), hfac]
    exact hiff.mpr hzero
  unfold addOrdered subAligned
  dsimp only
  rw [if_neg h60, if_pos hsign, if_pos ((Fpac.isZero_iff _).mpr hsub)]

theorem rounds {fps : Word} (hd : fps &&& fpsD = 0) (ht : fps &&& fpsT = 0) {rounded : ℚ}
    (hsum : value (fromFac x) + value (fromFac y) ≠ 0)
    (hrounded : rounded = roundSigned 24 .nearestAway (value (fromFac x) + value (fromFac y)))
    (h1 : 1 ≤ packedExponent rounded) (h2 : packedExponent rounded ≤ 255) :
    DeliversValue fps (addOrdered x y fps).packed rounded := by
  by_cases hsign : getSign x.h = getSign y.h
  · exact o.sum_rounds hd ht hsign hrounded h1 h2
  · exact o.difference_rounds hd ht hsign hsum hrounded h1 h2

end Ordered

/-- Single-precision addition gives a clean zero for an exact sum of zero, and otherwise the sum
correctly rounded. -/
theorem add_correctly_rounded (fac fsrc : BitVec 64) (fps : Word) (hfac : exponent fac ≠ 0)
    (hfsrc : exponent fsrc ≠ 0) (hd : fps &&& fpsD = 0) (ht : fps &&& fpsT = 0) :
    let sum := value (significant fps fac) + value (significant fps fsrc)
    (sum = 0 → (fpAdd fac fsrc fps).val = 0) ∧
      (sum ≠ 0 → 1 ≤ packedExponent (roundSigned 24 .nearestAway sum) →
        packedExponent (roundSigned 24 .nearestAway sum) ≤ 255 →
          DeliversValue fps (fpAdd fac fsrc fps) (roundSigned 24 .nearestAway sum)) := by
  have hexp : getExp (toFac fac fps).h ≠ 0 := by rwa [getExp_toFac]
  have hexp' : getExp (toFac fsrc fps).h ≠ 0 := by rwa [getExp_toFac]
  have hlow : ∀ v, (toFac v fps).l = 0 := fun v => if_pos hd
  have hadd : fpAdd fac fsrc fps = (addfp11 (toFac fac fps) (toFac fsrc fps) fps).packed := rfl
  intro sum
  have hordered : ∀ {x y : Fpac}, Ordered x y → value (fromFac x) + value (fromFac y) = sum →
      (sum = 0 → (addOrdered x y fps).packed.val = 0) ∧
        (sum ≠ 0 → 1 ≤ packedExponent (roundSigned 24 .nearestAway sum) →
          packedExponent (roundSigned 24 .nearestAway sum) ≤ 255 →
            DeliversValue fps (addOrdered x y fps).packed (roundSigned 24 .nearestAway sum)) := by
    intro x y o hsum
    rw [← hsum]
    constructor
    · intro h
      rw [o.sum_zero fps h]
      rfl
    · intro h h1 h2
      exact o.rounds hd ht h rfl h1 h2
  rw [hadd, addfp11_eq fps hexp hexp']
  -- the code puts the larger operand first
  by_cases horder : (toFac fac fps).ltAp (toFac fsrc fps) = true
  · have hswap : (toFac fsrc fps).ltAp (toFac fac fps) = false := by
      rw [ltAp_iff] at horder
      rw [← Bool.not_eq_true, ltAp_iff]
      omega
    rw [if_pos horder]
    apply hordered ⟨hexp', hexp, hlow _, hlow _, hswap⟩
    rw [fromFac_toFac, fromFac_toFac, add_comm]
  · rw [if_neg horder]
    apply hordered ⟨hexp, hexp', hlow _, hlow _, Bool.eq_false_iff.mpr horder⟩
    rw [fromFac_toFac, fromFac_toFac]

theorem three_minus_five :
    DeliversValue 0 (fpAdd 0x4140000000000000 0xC1A0000000000000 0) (-2) := by
  have hthree : value (significant 0 0x4140000000000000) = 3 := by
    rw [value_eq, magnitude_eq (by decide),
      show exponent (significant 0 0x4140000000000000) = 130 by decide,
      show significand (significant 0 0x4140000000000000) = 3 * 2 ^ 54 by decide,
      show negative (significant 0 0x4140000000000000) = false by decide]
    norm_num [signed]
  have hfive : value (significant 0 0xC1A0000000000000) = -5 := by
    rw [value_eq, magnitude_eq (by decide),
      show exponent (significant 0 0xC1A0000000000000) = 131 by decide,
      show significand (significant 0 0xC1A0000000000000) = 5 * 2 ^ 53 by decide,
      show negative (significant 0 0xC1A0000000000000) = true by decide]
    norm_num [signed]
  have hround : roundSigned 24 .nearestAway (3 + -5 : ℚ) = -2 := by
    have h := roundMagnitude_natCast (K := ℚ) (m := 2) .nearestAway (by decide)
      (show 2 < 2 ^ 24 by decide)
    push_cast at h
    rw [show (3 + -5 : ℚ) = signed true 2 by norm_num [signed],
      roundSigned_signed _ _ _ (by norm_num), h]
    rfl
  have hexp : packedExponent (-2) = 130 := by
    unfold packedExponent
    rw [abs_neg, abs_of_pos (by norm_num), log_eq (n := 1) (by norm_num) (by norm_num)]
    norm_num
  have h := (add_correctly_rounded 0x4140000000000000 0xC1A0000000000000 0 (by decide) (by decide)
    (by decide) (by decide)).2
  rw [hthree, hfive, hround] at h
  exact h (by norm_num) (by rw [hexp]; decide) (by rw [hexp]; decide)

end Pdp11
