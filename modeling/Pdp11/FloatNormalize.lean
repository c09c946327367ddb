import Pdp11.FloatSplit

/-! The normalization of the floating addition and of the split: it ends, and keeps the value. -/

namespace Pdp11
open Rounding

/-! ## One normalization -/

/-- Where a shortcut is taken, no set bit moves past the hidden bit. -/
def ShortcutFits (mask : BitVec 32) (n : ℕ) (f : Fpac) : Prop :=
  f.h &&& (mask <<< 3) = 0 → f.toNat * 2 ^ n < 2 ^ 59

/-- The single shifts end after `k`: the hidden bit is clear before each of them, and set then. -/
structure LoopEnds (k : ℕ) (f : Fpac) : Prop where
  clear : ∀ j < k, (Fpac.lsh1^[j] f).h.getLsbD hiddenBit = false
  set : (Fpac.lsh1^[k] f).h.getLsbD hiddenBit = true

/-- A fraction and its exponent before the single shifts. -/
def cutShort (short : Bool) (fe : Fpac × ℤ) : Fpac × ℤ := if short then shortcuts fe else fe

/-- The end of a normalization, with or without shortcuts. -/
def normalized (short : Bool) (fe : Fpac × ℤ) : Fpac × ℤ :=
  normalize normalizeFuel (cutShort short fe)

/-- A normalization that starts below the hidden bit's double and not at zero, overshoots nowhere,
ends after 58 single shifts at most and changes no value. -/
structure Normalizes (short : Bool) (fe : Fpac × ℤ) : Prop where
  nonzero : fe.1.toNat ≠ 0
  below : fe.1.toNat < 2 ^ 59
  fits24 : short → ShortcutFits 0x00FFFFFF 24 fe.1
  fits12 : short → ShortcutFits 0x00FFF000 12 (shortcut 0x00FFFFFF 24 fe).1
  fits6 : short →
    ShortcutFits 0x00FC0000 6 (shortcut 0x00FFF000 12 (shortcut 0x00FFFFFF 24 fe)).1
  loop : ∃ k ≤ 58, LoopEnds k (cutShort short fe).1 ∧ ∀ fuel, k ≤ fuel →
    normalize fuel (cutShort short fe) =
      (Fpac.lsh1^[k] (cutShort short fe).1, (cutShort short fe).2 - k)
  value : ((normalized short fe).1.toNat : ℚ) * 2 ^ (normalized short fe).2 =
    fe.1.toNat * 2 ^ fe.2

theorem lsh1_iterate {f : Fpac} {k : ℕ} (h : f.toNat * 2 ^ k < 2 ^ 64) :
    (Fpac.lsh1^[k] f).toNat = f.toNat * 2 ^ k := by
  induction k with
  | zero => rw [pow_zero, Nat.mul_one, Function.iterate_zero, id]
  | succ k ih =>
    have hdouble : f.toNat * 2 ^ (k + 1) = f.toNat * 2 ^ k * 2 := by
      rw [pow_succ, Nat.mul_assoc]
    rw [Function.iterate_succ_apply', Fpac.toNat_lsh1, ih (by omega), ← hdouble,
      Nat.mod_eq_of_lt h]

theorem loopEnds {f : Fpac} (h0 : f.toNat ≠ 0) (hlt : f.toNat < 2 ^ 59) :
    LoopEnds (58 - f.toNat.log2) f := by
  have hlog : f.toNat.log2 ≤ 58 := Nat.le_of_lt_succ ((Nat.log2_lt h0).2 hlt)
  have hlo : 2 ^ 58 ≤ f.toNat * 2 ^ (58 - f.toNat.log2) := by
    calc 2 ^ 58 = 2 ^ f.toNat.log2 * 2 ^ (58 - f.toNat.log2) := by
          rw [← pow_add, Nat.add_sub_cancel' hlog]
      _ ≤ _ := Nat.mul_le_mul_right _ (Nat.log2_self_le h0)
  have hhi : f.toNat * 2 ^ (58 - f.toNat.log2) < 2 ^ 59 := by
    calc f.toNat * 2 ^ (58 - f.toNat.log2) < 2 ^ (f.toNat.log2 + 1) * 2 ^ (58 - f.toNat.log2) :=
          Nat.mul_lt_mul_of_pos_right Nat.lt_log2_self (Nat.two_pow_pos _)
      _ = 2 ^ 59 := by
          rw [← pow_add]
          congr 1
          omega
  refine ⟨fun j hj => ?_, ?_⟩
  · have hshort : f.toNat * 2 ^ j * 2 ≤ f.toNat * 2 ^ (58 - f.toNat.log2) := by
      rw [Nat.mul_assoc, ← pow_succ]
      exact Nat.mul_le_mul_left _ (Nat.pow_le_pow_right (by decide) hj)
    have hval := lsh1_iterate (f := f) (k := j) (by omega)
    rw [Bool.eq_false_iff, ne_eq, Fpac.hiddenBit_iff (by omega)]
    omega
  · have hval := lsh1_iterate (f := f) (k := 58 - f.toNat.log2) (by omega)
    rw [Fpac.hiddenBit_iff (by omega)]
    omega

theorem normalize_of_loopEnds {k fuel : ℕ} (hk : k ≤ fuel) {fe : Fpac × ℤ} (h : LoopEnds k fe.1) :
    normalize fuel fe = (Fpac.lsh1^[k] fe.1, fe.2 - k) := by
  induction k generalizing fuel fe with
  | zero =>
    have hset : fe.1.h.getLsbD hiddenBit = true := h.set
    have hstop : normalize fuel fe = fe := by
      cases fuel with
      | zero => rfl
      | succ fuel => exact if_pos hset
    rw [hstop, Function.iterate_zero, id, Nat.cast_zero, sub_zero]
  | succ k ih =>
    obtain ⟨fuel, rfl⟩ : ∃ n, fuel = n + 1 := ⟨fuel - 1, by omega⟩
    have hclear : ¬fe.1.h.getLsbD hiddenBit = true := by
      rw [Bool.not_eq_true]
      exact h.clear 0 (Nat.succ_pos k)
    have hrest : LoopEnds k fe.1.lsh1 :=
      ⟨fun j hj => h.clear (j + 1) (Nat.succ_lt_succ hj), h.set⟩
    have hstep : normalize fuel (fe.1.lsh1, fe.2 - 1) =
        (Fpac.lsh1^[k] fe.1.lsh1, fe.2 - 1 - k) := ih (by omega) hrest
    have hrun : normalize (fuel + 1) fe = normalize fuel (fe.1.lsh1, fe.2 - 1) := if_neg hclear
    rw [hrun, hstep, Function.iterate_succ_apply]
    push_cast
    ring_nf

theorem cutShort_shifted (short : Bool) {fe : Fpac × ℤ} (h : fe.1.toNat < 2 ^ 59) :
    ShiftedLeft fe (cutShort short fe) := by
  cases short with
  | false => exact .refl h
  | true => exact shortcuts_shifted h

/-- A fraction that is neither zero nor too large is normalized. -/
theorem normalizes {short : Bool} {fe : Fpac × ℤ} (h0 : fe.1.toNat ≠ 0) (hlt : fe.1.toNat < 2 ^ 59) :
    Normalizes short fe := by
  have h24 := shortcut_shifted 0x00FFFFFF 24 (by decide) (by decide) hlt
  have h12 := shortcut_shifted 0x00FFF000 12 (by decide) (by decide) h24.lt
  have hcut := cutShort_shifted short hlt
  have hcut0 : (cutShort short fe).1.toNat ≠ 0 := by
    obtain ⟨k, hk, -, -⟩ := hcut
    rw [hk]
    exact Nat.mul_ne_zero h0 (Nat.two_pow_pos k).ne'
  have hends := loopEnds hcut0 hcut.lt
  have hpos : 2 ^ 58 ≤ (cutShort short fe).1.toNat * 2 ^ normalizeFuel :=
    calc 2 ^ 58 ≤ 1 * 2 ^ normalizeFuel := by decide
      _ ≤ _ := Nat.mul_le_mul_right _ (Nat.pos_of_ne_zero hcut0)
  exact {
    nonzero := h0
    below := hlt
    fits24 := fun _ hclear => shortcut_room (by decide) (by decide) hlt hclear
    fits12 := fun _ hclear => shortcut_room (by decide) (by decide) h24.lt hclear
    fits6 := fun _ hclear => shortcut_room (by decide) (by decide) h12.lt hclear
    loop := ⟨_, Nat.sub_le _ _, hends, fun fuel hfuel => normalize_of_loopEnds hfuel hends⟩
    value := (hcut.trans (normalize_shifted normalizeFuel _ hcut.lt hpos).1).value_kept }

/-! ## Where the fractions come from -/

/-- The operands of an addition, the larger first. -/
def byMagnitude (x y : Fpac) : Fpac × Fpac := if x.ltAp y then (y, x) else (x, y)

/-- The difference of two aligned fractions, with the exponent of the larger operand. -/
def differenceOf (big small : Fpac) : Fpac × ℤ :=
  (Fpac.sub (alignedFrac small (getExp big.h - getExp small.h)) big.getFrac.lshGuard, getExp big.h)

/-- The larger operand has the larger fraction once they are aligned. -/
theorem aligned_le {big small : Fpac} (h : big.ltAp small = false)
    (hdiff : getExp big.h - getExp small.h < 60) :
    (alignedFrac small (getExp big.h - getExp small.h)).toNat ≤ big.getFrac.lshGuard.toNat := by
  obtain ⟨hexp, hfrac⟩ := ordered h
  rw [← getExp_eq, ← getExp_eq] at hexp hfrac
  have hbig := Fpac.toNat_getFrac_lshGuard big
  have hsmall := Fpac.toNat_getFrac_lshGuard small
  have hlt : small.toNat % 2 ^ 55 < 2 ^ 55 := Nat.mod_lt _ (by decide)
  rw [alignedFrac_toNat small (by omega) hdiff]
  by_cases hsame : getExp small.h = getExp big.h
  · have hsig := hfrac hsame
    unfold significand at hsig
    rw [Fpac.fromFac_toNat, Fpac.fromFac_toNat] at hsig
    rw [hsame, sub_self, Int.toNat_zero, pow_zero, Nat.div_one]
    omega
  · -- the smaller fraction loses at least its last place
    have htwo : 2 ^ 1 ≤ 2 ^ (getExp big.h - getExp small.h).toNat :=
      Nat.pow_le_pow_right (by decide) (by omega)
    have hhalf := Nat.div_le_div_left htwo (by decide) (a := small.getFrac.lshGuard.toNat)
    omega

theorem difference_normalizes {big small : Fpac} (h : big.ltAp small = false)
    (hdiff : getExp big.h - getExp small.h < 60)
    (hne : alignedFrac small (getExp big.h - getExp small.h) ≠ big.getFrac.lshGuard)
    (short : Bool) : Normalizes short (differenceOf big small) := by
  have hle := aligned_le h hdiff
  have hval : (differenceOf big small).1.toNat = _ := Fpac.toNat_sub hle
  have hbig := Fpac.toNat_getFrac_lshGuard big
  have hlt : big.toNat % 2 ^ 55 < 2 ^ 55 := Nat.mod_lt _ (by decide)
  apply normalizes
  · rw [hval]
    intro hzero
    exact hne (Fpac.ext_toNat (by omega))
  · rw [hval]
    omega

/-- The bits of a product below the binary point, moved up to the hidden bit. -/
def fractionBits (fe : Fpac × ℤ) : Fpac :=
  (fe.1.masked (Fpac.fmask.rshV (fe.2 - fpBias).toNat)).lshV (fe.2 - fpBias).toNat

theorem fractionBits_normalizes {fe : Fpac × ℤ} (hhi : fe.2 ≤ fpBias + 56)
    (hne : (fe.1.masked (Fpac.fmask.rshV (fe.2 - fpBias).toNat)).isZero = false) (short : Bool) :
    Normalizes short (fractionBits fe, fpBias) := by
  let n := (fe.2 - fpBias).toNat
  have hn : n ≤ 59 := by omega
  have hsplit : 2 ^ 59 = 2 ^ (59 - n) * 2 ^ n := by
    rw [← pow_add, Nat.sub_add_cancel hn]
  have hmasked : (fe.1.masked (Fpac.fmask.rshV n)).toNat = fe.1.toNat % 2 ^ (59 - n) :=
    Fpac.masked_toNat _ _ (fmask_toNat hn)
  have hnonzero : (fe.1.masked (Fpac.fmask.rshV n)).toNat ≠ 0 := by
    intro hzero
    rw [← Fpac.isZero_iff] at hzero
    exact Bool.false_ne_true (hne.symm.trans hzero)
  have hroom : (fe.1.masked (Fpac.fmask.rshV n)).toNat * 2 ^ n < 2 ^ 59 := by
    rw [hmasked, hsplit]
    exact Nat.mul_lt_mul_of_pos_right (Nat.mod_lt _ (Nat.two_pow_pos _)) (Nat.two_pow_pos n)
  have hval : (fractionBits fe).toNat = (fe.1.masked (Fpac.fmask.rshV n)).toNat * 2 ^ n := by
    unfold fractionBits
    rw [Fpac.toNat_lshV]
    exact Nat.mod_eq_of_lt (Nat.lt_trans hroom (by decide))
  apply normalizes
  · rw [hval]
    exact Nat.mul_ne_zero hnonzero (Nat.two_pow_pos n).ne'
  · rw [hval]
    exact hroom

/-! ## The two operations -/

section
variable {fac fsrc : Fpac}

theorem byMagnitude_ltAp {big small : Fpac} (h : byMagnitude fac fsrc = (big, small)) :
    big.ltAp small = false := by
  unfold byMagnitude at h
  split at h
  · cases h
    rw [Bool.eq_false_iff, ne_eq, ltAp_iff]
    have hlt := (ltAp_iff _ _).1 ‹_›
    omega
  · cases h
    exact Bool.eq_false_iff.2 ‹_›

theorem addfp11_difference (fps : Word) (hfac : getExp fac.h ≠ 0) (hfsrc : getExp fsrc.h ≠ 0)
    (hsign : getSign fac.h ≠ getSign fsrc.h) {big small : Fpac}
    (hord : byMagnitude fac fsrc = (big, small)) (hdiff : getExp big.h - getExp small.h < 60)
    (hne : (differenceOf big small).1.isZero = false) :
    addfp11 fac fsrc fps =
      let fe := normalized (getExp big.h - getExp small.h ≤ 1) (differenceOf big small)
      roundAndPack big fe.2 fe.1 true fps 0 := by
  have hadd : addfp11 fac fsrc fps = addOrdered big small fps ∧
      getSign big.h ≠ getSign small.h := by
    rw [addfp11_eq fps hfac hfsrc]
    unfold byMagnitude at hord
    split at hord
    · cases hord
      exact ⟨if_pos ‹_›, hsign.symm⟩
    · cases hord
      exact ⟨if_neg ‹_›, hsign⟩
  have hzero : ¬(Fpac.sub (alignedFrac small (getExp big.h - getExp small.h))
      big.getFrac.lshGuard).isZero = true := Bool.eq_false_iff.1 hne
  rw [hadd.1]
  unfold addOrdered subAligned
  dsimp only
  rw [if_neg (by omega), if_pos hadd.2, if_neg hzero]
  unfold normalized cutShort differenceOf
  simp only [decide_eq_true_eq]

theorem modfp11_fraction (fps : Word) (hfac : getExp fac.h ≠ 0) (hfsrc : getExp fsrc.h ≠ 0)
    (hlo : fpBias < (mulFrac fac fsrc).2)
    (hhi : (mulFrac fac fsrc).2 ≤ if fps &&& fpsD ≠ 0 then fpBias + 56 else fpBias + 24)
    (hne : ((mulFrac fac fsrc).1.masked
      (Fpac.fmask.rshV ((mulFrac fac fsrc).2 - fpBias).toNat)).isZero = false) :
    (modfp11 fac fsrc fps).val.2 =
      let fe := normalized true (fractionBits (mulFrac fac fsrc), fpBias)
      (roundAndPack { fac with h := fac.h ^^^ fsrc.h } fe.2 fe.1 true fps 0).val := by
  have hfrac : (modfp11 fac fsrc fps).val.2 = (modFraction { fac with h := fac.h ^^^ fsrc.h }
      ((mulFrac fac fsrc).1.masked (Fpac.fmask.rshV ((mulFrac fac fsrc).2 - fpBias).toNat))
      ((mulFrac fac fsrc).2 - fpBias).toNat fps).val := by
    unfold modfp11
    dsimp only
    rw [if_neg (not_or.2 ⟨hfac, hfsrc⟩), if_neg (not_le.2 hlo), if_neg (not_lt.2 hhi)]
    rfl
  rw [hfrac]
  unfold modFraction
  rw [if_neg (Bool.eq_false_iff.1 hne)]
  rfl

/-- In an addition of operands of opposite signs whose aligned fractions differ, and in a split
that has a fraction, the normalization ends and keeps the value, and its result is packed. -/
theorem fraction_normalizes (fac fsrc : Fpac) (fps : Word) (hfac : getExp fac.h ≠ 0)
    (hfsrc : getExp fsrc.h ≠ 0) :
    (∀ big small, byMagnitude fac fsrc = (big, small) → getSign fac.h ≠ getSign fsrc.h →
      getExp big.h - getExp small.h < 60 →
      alignedFrac small (getExp big.h - getExp small.h) ≠ big.getFrac.lshGuard →
        Normalizes (getExp big.h - getExp small.h ≤ 1) (differenceOf big small) ∧
        addfp11 fac fsrc fps =
          let fe := normalized (getExp big.h - getExp small.h ≤ 1) (differenceOf big small)
          roundAndPack big fe.2 fe.1 true fps 0) ∧
    (fpBias < (mulFrac fac fsrc).2 →
      (mulFrac fac fsrc).2 ≤ (if fps &&& fpsD ≠ 0 then fpBias + 56 else fpBias + 24) →
      ((mulFrac fac fsrc).1.masked
        (Fpac.fmask.rshV ((mulFrac fac fsrc).2 - fpBias).toNat)).isZero = false →
        Normalizes true (fractionBits (mulFrac fac fsrc), fpBias) ∧
        (modfp11 fac fsrc fps).val.2 =
          let fe := normalized true (fractionBits (mulFrac fac fsrc), fpBias)
          (roundAndPack { fac with h := fac.h ^^^ fsrc.h } fe.2 fe.1 true fps 0).val) := by
  refine ⟨fun big small hord hsign hdiff hne => ?_, fun hlo hhi hne => ⟨?_, ?_⟩⟩
  · have hnorm := difference_normalizes (byMagnitude_ltAp hord) hdiff hne
      (getExp big.h - getExp small.h ≤ 1)
    refine ⟨hnorm, addfp11_difference fps hfac hfsrc hsign hord hdiff ?_⟩
    rw [Bool.eq_false_iff, ne_eq, Fpac.isZero_iff]
    exact hnorm.nonzero
  · refine fractionBits_normalizes (le_trans hhi ?_) hne true
    split <;> omega
  · exact modfp11_fraction fps hfac hfsrc hlo hhi hne

end

/-- The difference of 3 and 5, and the fraction of 2.25. -/
theorem differences_normalize :
    Normalizes true (differenceOf ⟨0, 0xC1A00000⟩ ⟨0, 0x41400000⟩) ∧
      Normalizes true (fractionBits (mulFrac ⟨0, 0x40C00000⟩ ⟨0, 0x40C00000⟩), fpBias) :=
  ⟨((fraction_normalizes ⟨0, 0x41400000⟩ ⟨0, 0xC1A00000⟩ 0 (by decide) (by decide)).1 _ _ rfl
      (by decide) (by decide) (by decide)).1,
    ((fraction_normalizes ⟨0, 0x40C00000⟩ ⟨0, 0x40C00000⟩ 0 (by decide) (by decide)).2 (by decide)
      (by decide) (by decide)).1⟩

end Pdp11
