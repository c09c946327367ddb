import Pdp11.FloatAdd

/-! The floating addition is symmetric in its operands, and odd. -/

namespace Pdp11

/-! ## The order of the operands -/

/-- The addition once the operands are in order. -/
def addSorted (fac fsrc : Fpac) (fps : Word) : FpResult Fpac :=
  if getExp fac.h = 0 then ⟨if getExp fsrc.h ≠ 0 then fsrc else .zero, false, 0⟩
  else if getExp fsrc.h = 0 then ⟨fac, false, 0⟩
  else addOrdered fac fsrc fps

theorem addfp11_sorted (a b : Fpac) (fps : Word) :
    addfp11 a b fps = if a.ltAp b then addSorted b a fps else addSorted a b fps := by
  unfold addfp11 addSorted addOrdered subAligned sumAligned alignedFrac
  by_cases hlt : a.ltAp b = true
  · simp only [hlt, if_true]
  · simp only [hlt, Bool.false_eq_true, if_false]

theorem getExp_congr {a b : Fpac} (h : a.toNat % 2 ^ 63 = b.toNat % 2 ^ 63) :
    getExp a.h = getExp b.h := by
  rw [getExp_eq, getExp_eq, exponent_eq, exponent_eq, Fpac.fromFac_toNat, Fpac.fromFac_toNat]
  omega

/-- Operands of one magnitude and one sign are the same operand. -/
theorem eq_of_magnitude {a b : Fpac} (h : a.toNat % 2 ^ 63 = b.toNat % 2 ^ 63)
    (hsign : getSign a.h = getSign b.h) : a = b := by
  have ha := a.toNat_lt
  have hb := b.toNat_lt
  rw [getSign_eq, getSign_eq, negative_eq, negative_eq, Fpac.fromFac_toNat, Fpac.fromFac_toNat,
    decide_eq_decide] at hsign
  apply Fpac.ext_toNat
  omega

/-- Operands of one magnitude and opposite signs cancel, whatever their exponent. -/
theorem addSorted_cancels {a b : Fpac} (fps : Word) (h : a.toNat % 2 ^ 63 = b.toNat % 2 ^ 63)
    (hsign : getSign a.h ≠ getSign b.h) : addSorted a b fps = ⟨.zero, false, 0⟩ := by
  have hexp := getExp_congr h
  have hfrac : b.getFrac.lshGuard = a.getFrac.lshGuard := by
    apply Fpac.ext_toNat
    rw [Fpac.toNat_getFrac_lshGuard, Fpac.toNat_getFrac_lshGuard]
    omega
  have hzero : (Fpac.sub a.getFrac.lshGuard a.getFrac.lshGuard).isZero = true := by
    rw [Fpac.isZero_iff, Fpac.toNat_sub le_rfl, Nat.sub_self]
  unfold addSorted
  by_cases ha : getExp a.h = 0
  · rw [if_pos ha, if_neg (by rw [← hexp]; exact not_not.mpr ha)]
  · rw [if_neg ha, if_neg (by rw [← hexp]; exact ha)]
    unfold addOrdered
    dsimp only
    have hlow : ¬(60 : ℤ) ≤ 0 := by decide
    have haligned : alignedFrac b 0 = a.getFrac.lshGuard := by
      unfold alignedFrac
      rw [if_neg (not_not.mpr rfl), hfrac]
    rw [hexp, sub_self, if_neg hlow, if_pos hsign, haligned]
    unfold subAligned
    rw [if_pos hzero]

theorem addfp11_comm (a b : Fpac) (fps : Word) : addfp11 a b fps = addfp11 b a fps := by
  rw [addfp11_sorted, addfp11_sorted]
  by_cases hab : a.ltAp b = true
  · have hba : ¬b.ltAp a = true := by
      rw [ltAp_iff] at hab ⊢
      omega
    rw [if_pos hab, if_neg hba]
  · by_cases hba : b.ltAp a = true
    · rw [if_neg hab, if_pos hba]
    · have heq : a.toNat % 2 ^ 63 = b.toNat % 2 ^ 63 := by
        rw [ltAp_iff] at hab hba
        omega
      rw [if_neg hab, if_neg hba]
      by_cases hsign : getSign a.h = getSign b.h
      · rw [eq_of_magnitude heq hsign]
      · rw [addSorted_cancels fps heq hsign, addSorted_cancels fps heq.symm (Ne.symm hsign)]

/-! ## Signs -/

/-- The sign bit flipped. -/
def Fpac.negated (f : Fpac) : Fpac := { f with h := f.h ^^^ fpSign }

/-- The sign bit of a packed number flipped. -/
def negate (v : BitVec 64) : BitVec 64 := v ^^^ 0x8000000000000000

/-- Flipping the top bit moves by half of the range. -/
theorem toNat_xor_top {n : ℕ} (x y : BitVec (n + 1)) (hy : y.toNat = 2 ^ n) :
    (x ^^^ y).toNat = (x.toNat + 2 ^ n) % 2 ^ (n + 1) := by
  have hx := x.isLt
  have hpow : 2 ^ (n + 1) = 2 * 2 ^ n := by rw [pow_succ, Nat.mul_comm]
  have hlow : (x.toNat ^^^ 2 ^ n) % 2 ^ n = x.toNat % 2 ^ n := by
    rw [Nat.xor_mod_two_pow, Nat.mod_self, Nat.xor_zero]
  have htop : (x.toNat ^^^ 2 ^ n) / 2 ^ n = x.toNat / 2 ^ n ^^^ 1 := by
    rw [Nat.xor_div_two_pow, Nat.div_self (Nat.two_pow_pos n)]
  have hsplit := Nat.div_add_mod (x.toNat ^^^ 2 ^ n) (2 ^ n)
  have hsplit' := Nat.div_add_mod x.toNat (2 ^ n)
  have hbit : x.toNat / 2 ^ n < 2 := Nat.div_lt_of_lt_mul (by rw [Nat.mul_comm, ← hpow]; exact hx)
  rw [BitVec.toNat_xor, hy, ← hsplit, hlow, htop, hpow]
  have hr := Nat.mod_lt x.toNat (Nat.two_pow_pos n)
  generalize x.toNat / 2 ^ n = q at hsplit' hbit ⊢
  generalize x.toNat % 2 ^ n = r at hsplit' hr ⊢
  rw [← hsplit']
  obtain rfl | rfl : q = 0 ∨ q = 1 := by omega
  · show 2 ^ n * 1 + r = (2 ^ n * 0 + r + 2 ^ n) % (2 * 2 ^ n)
    rw [Nat.mod_eq_of_lt (by omega)]
    omega
  · show 2 ^ n * 0 + r = (2 ^ n * 1 + r + 2 ^ n) % (2 * 2 ^ n)
    rw [show 2 ^ n * 1 + r + 2 ^ n = r + 2 * 2 ^ n by omega, Nat.add_mod_right,
      Nat.mod_eq_of_lt (by omega)]
    omega

theorem negate_toNat (v : BitVec 64) : (negate v).toNat = (v.toNat + 2 ^ 63) % 2 ^ 64 :=
  toNat_xor_top v _ rfl

theorem Fpac.negated_toNat (f : Fpac) : f.negated.toNat = (f.toNat + 2 ^ 63) % 2 ^ 64 := by
  have hl := f.l.isLt
  have hh := f.h.isLt
  unfold negated toNat
  dsimp only
  rw [toNat_xor_top f.h fpSign rfl]
  omega

theorem toFac_negate (v : BitVec 64) (fps : Word) : toFac (negate v) fps = (toFac v fps).negated := by
  have hv := v.isLt
  apply Fpac.ext_toNat
  rw [Fpac.negated_toNat, toFac_toNat, toFac_toNat, significant_toNat, significant_toNat,
    negate_toNat]
  split_ifs <;> omega

theorem fromFac_negated (f : Fpac) : fromFac f.negated = negate (fromFac f) := by
  apply BitVec.eq_of_toNat_eq
  rw [Fpac.fromFac_toNat, Fpac.negated_toNat, negate_toNat, Fpac.fromFac_toNat]

namespace Fpac

variable (f g : Fpac)

theorem getFrac_negated : f.negated.getFrac = f.getFrac := by
  apply ext_toNat
  rw [toNat_getFrac, toNat_getFrac, negated_toNat]
  omega

theorem getExp_negated : getExp f.negated.h = getExp f.h := by
  rw [getExp_eq, getExp_eq, exponent_eq, exponent_eq, fromFac_toNat, fromFac_toNat, negated_toNat]
  omega

theorem getSign_negated : getSign f.negated.h = !getSign f.h := by
  have hf := f.toNat_lt
  rw [getSign_eq, getSign_eq, negative_eq, negative_eq, fromFac_toNat, fromFac_toNat, negated_toNat,
    ← decide_not, decide_eq_decide]
  omega

theorem ltAp_negated : f.negated.ltAp g.negated = f.ltAp g := by
  rw [Bool.eq_iff_iff, ltAp_iff, ltAp_iff, negated_toNat, negated_toNat]
  omega

end Fpac

/-! ## Packing -/

/-- A result next to its mirror image. A result that is not clean zero has an exponent unless an
exception is posted. -/
structure Mirrored (r r' : FpResult Fpac) : Prop where
  v : r'.v = r.v
  fec : r'.fec = r.fec
  val : (r.val = .zero ∧ r'.val = .zero) ∨
    (r'.val = r.val.negated ∧ (r.fec = 0 → getExp r.val.h ≠ 0))

theorem pack_negated (fac : Fpac) (fe : Fpac × ℤ) : pack fac.negated fe = (pack fac fe).negated := by
  have hs := fac.h.isLt
  have hl := fe.1.rshGuard.l.isLt
  have hflip : fac.negated.h.toNat = (fac.h.toNat + 2 ^ 31) % 2 ^ 32 := toNat_xor_top fac.h fpSign rfl
  apply Fpac.ext_toNat
  rw [Fpac.negated_toNat]
  unfold pack Fpac.toNat
  dsimp only
  rw [packed_toNat, packed_toNat, hflip]
  omega

theorem packChecked_mirrored (fac : Fpac) (fe : Fpac × ℤ) (fps : Word) :
    Mirrored (packChecked fac fe fps 0) (packChecked fac.negated fe fps 0) := by
  have hposted {code : ℕ} (hcode : code ≠ 0) (hloud : (fpNotrap fps code 0).1 = false) :
      (fpNotrap fps code 0).2 ≠ 0 := by
    unfold fpNotrap at hloud ⊢
    split_ifs at hloud ⊢
    exact hcode
  unfold packChecked
  split_ifs with hover hquiet hunder hquiet
  · exact ⟨rfl, rfl, .inl ⟨rfl, rfl⟩⟩
  · refine ⟨rfl, rfl, .inr ⟨pack_negated fac fe, fun h => absurd h ?_⟩⟩
    exact hposted (by decide) (Bool.eq_false_iff.mpr hquiet)
  · exact ⟨rfl, rfl, .inl ⟨rfl, rfl⟩⟩
  · refine ⟨rfl, rfl, .inr ⟨pack_negated fac fe, fun h => absurd h ?_⟩⟩
    exact hposted (by decide) (Bool.eq_false_iff.mpr hquiet)
  · refine ⟨rfl, rfl, .inr ⟨pack_negated fac fe, fun _ => ?_⟩⟩
    rw [getExp_pack fac fe (by omega) (by omega)]
    omega

/-! ## The addition -/

theorem subAligned_mirrored (fac : Fpac) (ediff : ℤ) (frac : Fpac) (fps : Word) :
    Mirrored (subAligned fac ediff frac fps) (subAligned fac.negated ediff frac fps) := by
  unfold subAligned
  rw [Fpac.getExp_negated]
  split_ifs
  · exact ⟨rfl, rfl, .inl ⟨rfl, rfl⟩⟩
  all_goals
    dsimp only
    rw [roundAndPack_true, roundAndPack_true]
    exact packChecked_mirrored fac _ fps

theorem sumAligned_mirrored (fac frac : Fpac) (fps : Word) :
    Mirrored (sumAligned fac frac fps) (sumAligned fac.negated frac fps) := by
  unfold sumAligned
  rw [Fpac.getExp_negated]
  split_ifs
  all_goals
    rw [roundAndPack_true, roundAndPack_true]
    exact packChecked_mirrored fac _ fps

theorem addSorted_mirrored (fac fsrc : Fpac) (fps : Word) :
    Mirrored (addSorted fac fsrc fps) (addSorted fac.negated fsrc.negated fps) := by
  have hfrac : ∀ ediff, alignedFrac fsrc.negated ediff = alignedFrac fsrc ediff := by
    intro ediff
    unfold alignedFrac
    rw [Fpac.getFrac_negated]
  have hsign : getSign fac.negated.h ≠ getSign fsrc.negated.h ↔ getSign fac.h ≠ getSign fsrc.h := by
    rw [Fpac.getSign_negated, Fpac.getSign_negated, ne_eq, Bool.not_inj_iff]
  unfold addSorted addOrdered
  dsimp only
  rw [Fpac.getExp_negated, Fpac.getExp_negated, Fpac.getFrac_negated, hfrac]
  by_cases h1 : getExp fac.h = 0
  · rw [if_pos h1, if_pos h1]
    by_cases h2 : getExp fsrc.h = 0
    · rw [if_neg (not_not.mpr h2), if_neg (not_not.mpr h2)]
      exact ⟨rfl, rfl, .inl ⟨rfl, rfl⟩⟩
    · rw [if_pos h2, if_pos h2]
      exact ⟨rfl, rfl, .inr ⟨rfl, fun _ => h2⟩⟩
  rw [if_neg h1, if_neg h1]
  by_cases h2 : getExp fsrc.h = 0
  · rw [if_pos h2, if_pos h2]
    exact ⟨rfl, rfl, .inr ⟨rfl, fun _ => h1⟩⟩
  rw [if_neg h2, if_neg h2]
  by_cases hfar : 60 ≤ getExp fac.h - getExp fsrc.h
  · rw [if_pos hfar, if_pos hfar]
    exact ⟨rfl, rfl, .inr ⟨rfl, fun _ => h1⟩⟩
  rw [if_neg hfar, if_neg hfar]
  by_cases hdiff : getSign fac.h ≠ getSign fsrc.h
  · rw [if_pos hdiff, if_pos (hsign.mpr hdiff)]
    exact subAligned_mirrored fac _ _ fps
  · rw [if_neg hdiff, if_neg (hsign.not.mpr hdiff)]
    exact sumAligned_mirrored fac _ fps

theorem addfp11_mirrored (a b : Fpac) (fps : Word) :
    Mirrored (addfp11 a b fps) (addfp11 a.negated b.negated fps) := by
  rw [addfp11_sorted, addfp11_sorted, Fpac.ltAp_negated]
  split_ifs
  · exact addSorted_mirrored b a fps
  · exact addSorted_mirrored a b fps

/-- Floating addition is symmetric. When no exception is posted, a sum of negated operands is the
negated sum, or zero where that is zero, with the same overflow condition. -/
theorem add_symmetric_odd (fac fsrc : BitVec 64) (fps : Word) :
    fpAdd fac fsrc fps = fpAdd fsrc fac fps ∧
      ((fpAdd fac fsrc fps).fec = 0 →
        (fpAdd (negate fac) (negate fsrc) fps).val =
            (if (fpAdd fac fsrc fps).val = 0 then 0 else negate (fpAdd fac fsrc fps).val) ∧
          (fpAdd (negate fac) (negate fsrc) fps).v = (fpAdd fac fsrc fps).v ∧
          (fpAdd (negate fac) (negate fsrc) fps).fec = 0) := by
  have hpacked : ∀ a b, fpAdd a b fps = (addfp11 (toFac a fps) (toFac b fps) fps).packed :=
    fun _ _ => rfl
  have h := addfp11_mirrored (toFac fac fps) (toFac fsrc fps) fps
  constructor
  · rw [hpacked, hpacked, addfp11_comm]
  · rw [hpacked, hpacked, toFac_negate, toFac_negate]
    intro hfec
    refine ⟨?_, h.v, h.fec.trans hfec⟩
    unfold FpResult.packed
    dsimp only
    obtain ⟨hz, hz'⟩ | ⟨hval, hexp⟩ := h.val
    · rw [hz, hz']
      rfl
    · have hne : fromFac (addfp11 (toFac fac fps) (toFac fsrc fps) fps).val ≠ 0 := by
        intro hzero
        have h0 := hexp hfec
        rw [getExp_eq, hzero] at h0
        exact h0 rfl
      rw [if_neg hne, hval, fromFac_negated]

theorem three_minus_five_mirrored :
    (fpAdd (negate 0x4140000000000000) (negate 0xC1A0000000000000) 0).val =
      negate (fpAdd 0x4140000000000000 0xC1A0000000000000 0).val := by
  have hfec : (fpAdd 0x4140000000000000 0xC1A0000000000000 0).fec = 0 := by decide +kernel
  have hne : (fpAdd 0x4140000000000000 0xC1A0000000000000 0).val ≠ 0 := by decide +kernel
  exact ((add_symmetric_odd _ _ 0).2 hfec).1.trans (if_neg hne)

end Pdp11
