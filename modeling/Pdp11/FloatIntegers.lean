import Pdp11.FloatSingle
import Mathlib.Algebra.Order.Floor.Semifield

/-! Conversions between floating numbers and integers. -/

namespace Pdp11
open Rounding

/-! ## Float to integer -/

/-- A number cut off toward zero. -/
def truncate (x : ℚ) : ℤ := if x < 0 then ⌈x⌉ else ⌊x⌋

/-- The bits of the integer format: one word, or two with `FPS_L`. -/
def integerBits (fps : Word) : ℕ := if fps &&& fpsL = 0 then 16 else 32

/-- A two's-complement number of `n` bits. -/
def FitsBits (n : ℕ) (t : ℤ) : Prop := -2 ^ (n - 1) ≤ t ∧ t < 2 ^ (n - 1)

theorem integerBits_cases (fps : Word) :
    (fps &&& fpsL = 0 ∧ integerBits fps = 16) ∨ (fps &&& fpsL ≠ 0 ∧ integerBits fps = 32) := by
  unfold integerBits
  split_ifs with h
  · exact .inl ⟨h, rfl⟩
  · exact .inr ⟨h, rfl⟩

/-- The exponent of the format's largest numbers. -/
theorem limitExp_eq (fps : Word) :
    (if fps &&& fpsL ≠ 0 then fpBias + 32 else fpBias + 16) = fpBias + (integerBits fps : ℤ) := by
  rcases integerBits_cases fps with ⟨hl, hp⟩ | ⟨hl, hp⟩
  · rw [if_neg (not_not.mpr hl), hp]
    rfl
  · rw [if_pos hl, hp]
    rfl

theorem truncate_signed (neg : Bool) {m : ℚ} (hm : 0 ≤ m) :
    truncate (signed neg m) = if neg then -(⌊m⌋₊ : ℤ) else ⌊m⌋₊ := by
  have hfloor : (⌊m⌋₊ : ℤ) = ⌊m⌋ := Int.natCast_floor_eq_floor hm
  unfold truncate signed
  cases neg with
  | false => rw [if_neg Bool.false_ne_true, if_neg hm.not_gt, if_neg Bool.false_ne_true, hfloor]
  | true =>
    rw [if_pos rfl, if_pos rfl, hfloor]
    by_cases h0 : m = 0
    · rw [h0, neg_zero, if_neg (lt_irrefl 0), Int.floor_zero, neg_zero]
    · rw [if_pos (neg_neg_of_pos (lt_of_le_of_ne hm (Ne.symm h0))), Int.ceil_neg]

/-- The fraction the conversion shifts. -/
theorem stcfi_fraction (val : BitVec 64) (fps : Word) :
    (⟨if fps &&& fpsD ≠ 0 then val.setWidth 32 else 0,
      (((val >>> 32).setWidth 32 : BitVec 32) &&& fpFrach) ||| fpHb⟩ : Fpac).toNat =
      significand (significant fps val) := by
  have hfrac : (⟨if fps &&& fpsD ≠ 0 then val.setWidth 32 else 0,
      (((val >>> 32).setWidth 32 : BitVec 32) &&& fpFrach) ||| fpHb⟩ : Fpac) =
      (toFac val fps).getFrac := by
    unfold toFac Fpac.getFrac
    by_cases hd : fps &&& fpsD = 0
    · rw [if_neg (not_not.mpr hd), if_pos hd]
    · rw [if_pos hd, if_neg hd]
  rw [hfrac, Fpac.toNat_getFrac, toFac_toNat]
  rfl

/-- The three ranges of the exponent. -/
def stcfiCore (fac : Fpac) (sign : Bool) (exp : ℤ) (fps : Word) : BitVec 32 × Bool :=
  let isLong : Bool := fps &&& fpsL ≠ 0
  let limitExp := if isLong then fpBias + 32 else fpBias + 16
  if exp ≤ fpBias then (0, false)
  else if limitExp < exp then (0, true)
  else
    let shifted := (fac.rshV (24 + limitExp - exp).toNat).l
    let shifted := if isLong then shifted else shifted &&& ~~~0o177777
    if stcfiLimit isLong sign ≤ shifted then (0, true)
    else (if sign then -shifted else shifted, false)

theorem fpStcfi_eq (val : BitVec 64) (fps : Word) : ∃ fac : Fpac,
    fac.toNat = significand (significant fps val) ∧
    fpStcfi val fps =
      ((stcfiCore fac (negative val) (exponent val) fps).1,
        (stcfiCore fac (negative val) (exponent val) fps).2,
        if (stcfiCore fac (negative val) (exponent val) fps).2 then (fpNotrap fps fecIcvt 0).2
        else 0) := by
  refine ⟨_, stcfi_fraction val fps, ?_⟩
  have hsign : getSign ((val >>> 32).setWidth 32) = negative val := getSign_toFac val fps
  have hexp : getExp ((val >>> 32).setWidth 32) = exponent val := getExp_toFac val fps
  rw [← hsign, ← hexp]
  rfl

/-- The integer a conversion delivers, in the high word of the result unless both words count. -/
def integerWord (fps : Word) (t : ℤ) : BitVec 32 := BitVec.ofInt 32 (t * 2 ^ (32 - integerBits fps))

/-- The integer part of a packed magnitude, the exponent small enough for a right shift. -/
theorem floor_packed (m : ℕ) {e : ℤ} {n : ℕ} (hn : e - fpBias - 56 = -n) :
    ⌊(m : ℚ) * 2 ^ (e - fpBias - 56)⌋₊ = m / 2 ^ n := by
  have hquot : (m : ℚ) * 2 ^ (e - fpBias - 56) = m / (2 ^ n : ℕ) := by
    rw [hn, zpow_neg, zpow_natCast, div_eq_mul_inv]
    push_cast
    rfl
  rw [hquot, Nat.floor_div_eq_div]

theorem stcfiLimit_toNat (isLong sign : Bool) :
    (stcfiLimit isLong sign).toNat =
      2 ^ 31 + if sign then (if isLong then 1 else 2 ^ 16) else 0 := by
  cases isLong <;> cases sign <;> rfl

/-- The fraction shifted so that the integer ends at its last place. -/
def shiftedWord (fps : Word) (shifted : BitVec 32) : BitVec 32 :=
  if fps &&& fpsL ≠ 0 then shifted else shifted &&& ~~~0o177777

theorem shiftedWord_toNat (fps : Word) {q : BitVec 32} {k : ℕ}
    (hk : k = q.toNat / 2 ^ (32 - integerBits fps)) :
    (shiftedWord fps q).toNat = k * 2 ^ (32 - integerBits fps) := by
  unfold shiftedWord
  rcases integerBits_cases fps with ⟨hl, hp⟩ | ⟨hl, hp⟩
  · have hmask : q &&& ~~~(0o177777 : BitVec 32) = (q >>> 16) <<< 16 := by
      ext i hi
      simp only [← BitVec.getLsbD_eq_getElem, BitVec.getLsbD_and, BitVec.getLsbD_not,
        BitVec.getLsbD_shiftLeft, BitVec.getLsbD_ushiftRight]
      interval_cases i <;> simp
    have hq := q.isLt
    rw [if_neg (not_not.mpr hl), hmask, hk, hp, BitVec.toNat_shiftLeft,
      BitVec.toNat_ushiftRight, Nat.shiftLeft_eq, Nat.shiftRight_eq_div_pow]
    omega
  · rw [if_pos hl, hk, hp, Nat.sub_self, pow_zero, Nat.div_one, Nat.mul_one]

/-- Whether the shifted fraction is below the limit of its sign. -/
theorem shifted_below_limit (fps : Word) (sign : Bool) {shifted : BitVec 32} {k : ℕ}
    (hk : shifted.toNat = k * 2 ^ (32 - integerBits fps)) :
    ¬ stcfiLimit (fps &&& fpsL ≠ 0) sign ≤ shifted ↔
      FitsBits (integerBits fps) (if sign then -(k : ℤ) else k) := by
  rw [BitVec.le_def, stcfiLimit_toNat, hk]
  unfold FitsBits
  rcases integerBits_cases fps with ⟨hl, hp⟩ | ⟨hl, hp⟩
  · rw [hp, decide_eq_false (not_not.mpr hl)]
    cases sign <;> simp only [Bool.false_eq_true, if_true, if_false] <;> omega
  · rw [hp, decide_eq_true hl]
    cases sign <;> simp only [Bool.false_eq_true, if_true, if_false] <;> omega

theorem integerWord_signed (fps : Word) (sign : Bool) {shifted : BitVec 32} {k : ℕ}
    (hk : shifted.toNat = k * 2 ^ (32 - integerBits fps)) :
    (if sign then -shifted else shifted) = integerWord fps (if sign then -(k : ℤ) else k) := by
  have hword : shifted = BitVec.ofInt 32 (k * 2 ^ (32 - integerBits fps)) := by
    apply BitVec.eq_of_toNat_eq
    have hlt := shifted.isLt
    rw [BitVec.toNat_ofInt, hk]
    rw [hk] at hlt
    have hcast : (k : ℤ) * 2 ^ (32 - integerBits fps) = (k * 2 ^ (32 - integerBits fps) : ℕ) := by
      push_cast
      rfl
    rw [hcast]
    omega
  unfold integerWord
  cases sign with
  | false => exact hword
  | true =>
    simp only [if_true]
    rw [neg_mul, BitVec.ofInt_neg, ← hword]

/-- A number of an exponent up to the bias is below one. -/
theorem packed_below_one {n : ℕ} (hn : n < 2 ^ 56) {e : ℤ} (he : e ≤ fpBias) :
    (n : ℚ) * 2 ^ (e - fpBias - 56) < 1 := by
  have hpow : (2 : ℚ) ^ (e - fpBias - 56) ≤ 2 ^ (-56 : ℤ) :=
    zpow_le_zpow_right₀ one_le_two (by omega)
  have hpos : (0 : ℚ) < 2 ^ (e - fpBias - 56) := by positivity
  calc (n : ℚ) * 2 ^ (e - fpBias - 56) < 2 ^ 56 * 2 ^ (e - fpBias - 56) :=
        mul_lt_mul_of_pos_right (by exact_mod_cast hn) hpos
    _ ≤ 2 ^ 56 * 2 ^ (-56 : ℤ) := mul_le_mul_of_nonneg_left hpow (by positivity)
    _ = 1 := by norm_num

/-- A number of a larger exponent has more integer places than the format. -/
theorem packed_above {n k : ℕ} (hn : 2 ^ 55 ≤ n) {e : ℤ} (he : fpBias + k < e) :
    2 ^ k ≤ ⌊(n : ℚ) * 2 ^ (e - fpBias - 56)⌋₊ := by
  apply Nat.le_floor
  have hlo : (2 : ℚ) ^ 55 ≤ n := by exact_mod_cast hn
  have hpow : (2 : ℚ) ^ ((k : ℤ) - 55) ≤ 2 ^ (e - fpBias - 56) :=
    zpow_le_zpow_right₀ one_le_two (by omega)
  have hsplit : ((2 ^ k : ℕ) : ℚ) = 2 ^ 55 * 2 ^ ((k : ℤ) - 55) := by
    rw [zpow_sub₀ two_ne_zero, zpow_natCast]
    push_cast
    field_simp
    norm_num
  rw [hsplit]
  gcongr

/-- Between them, the fraction is shifted right until its integer part ends at the last place. -/
theorem packed_floor (fps : Word) {fac : Fpac} (hfac : fac.toNat < 2 ^ 56) {e : ℤ}
    (hlo : fpBias < e) (hhi : e ≤ fpBias + integerBits fps) :
    ⌊(fac.toNat : ℚ) * 2 ^ (e - fpBias - 56)⌋₊ =
      (fac.rshV (24 + (fpBias + integerBits fps) - e).toNat).l.toNat /
        2 ^ (32 - integerBits fps) := by
  obtain ⟨n, hn⟩ : ∃ n : ℕ, (24 + (fpBias + integerBits fps) - e).toNat = n := ⟨_, rfl⟩
  rw [hn]
  have hbits : integerBits fps ≤ 32 := by
    rcases integerBits_cases fps with ⟨-, hp⟩ | ⟨-, hp⟩ <;> rw [hp]
    decide
  have hn64 : 24 ≤ n ∧ n < 56 := by omega
  have hquot : (fac.rshV n).toNat = fac.toNat / 2 ^ n := Fpac.toNat_rshV fac (by omega)
  have hl : (fac.rshV n).l.toNat = fac.toNat / 2 ^ n := by
    have hlt : fac.toNat / 2 ^ n < 2 ^ 32 := by
      apply Nat.div_lt_of_lt_mul
      calc fac.toNat < 2 ^ (24 + 32) := hfac
        _ = 2 ^ 24 * 2 ^ 32 := pow_add 2 24 32
        _ ≤ 2 ^ n * 2 ^ 32 := Nat.mul_le_mul_right _ (Nat.pow_le_pow_right (by decide) hn64.1)
    have hl := (fac.rshV n).l.isLt
    have hhalves : (fac.rshV n).toNat =
      (fac.rshV n).h.toNat * 2 ^ 32 + (fac.rshV n).l.toNat := rfl
    omega
  have hexp : e - fpBias - 56 = -(n + (32 - integerBits fps) : ℕ) := by
    push_cast [hbits]
    omega
  rw [floor_packed _ hexp, hl, Nat.div_div_eq_div_mul, pow_add]

theorem stcfiCore_eq {fac : Fpac} (sign : Bool) {e : ℤ} (fps : Word)
    (hlo : 2 ^ 55 ≤ fac.toNat) (hhi : fac.toNat < 2 ^ 56) {m : ℚ}
    (hm : m = if e = 0 then 0 else (fac.toNat : ℚ) * 2 ^ (e - fpBias - 56)) {t : ℤ}
    (ht : t = if sign then -(⌊m⌋₊ : ℤ) else ⌊m⌋₊) :
    (FitsBits (integerBits fps) t ∧ stcfiCore fac sign e fps = (integerWord fps t, false)) ∨
      (¬ FitsBits (integerBits fps) t ∧ stcfiCore fac sign e fps = (0, true)) := by
  have hcore : stcfiCore fac sign e fps =
      if e ≤ fpBias then (0, false)
      else if fpBias + integerBits fps < e then (0, true)
      else
        let shifted := shiftedWord fps (fac.rshV (24 + (fpBias + integerBits fps) - e).toNat).l
        if stcfiLimit (fps &&& fpsL ≠ 0) sign ≤ shifted then (0, true)
        else (if sign then -shifted else shifted, false) := by
    rw [← limitExp_eq]
    unfold stcfiCore shiftedWord
    simp only [decide_eq_true_eq]
  rw [hcore]
  -- below 1, past the largest exponent, and between
  by_cases hsmall : e ≤ fpBias
  · have hbelow : m < 1 := by
      rw [hm]
      split_ifs
      · exact zero_lt_one
      · exact packed_below_one hhi hsmall
    have ht0 : t = 0 := by
      rw [ht, Nat.floor_eq_zero.mpr hbelow]
      cases sign <;> rfl
    refine .inl ⟨?_, ?_⟩
    · unfold FitsBits
      rw [ht0]
      rcases integerBits_cases fps with ⟨-, hp⟩ | ⟨-, hp⟩ <;> rw [hp] <;> omega
    · rw [if_pos hsmall, ht0, integerWord, zero_mul]
      rfl
  · have hm' : m = fac.toNat * 2 ^ (e - fpBias - 56) := by
      rw [hm, if_neg]
      unfold fpBias at hsmall
      omega
    rw [if_neg hsmall]
    by_cases hlarge : fpBias + integerBits fps < e
    · have habove := packed_above hlo hlarge
      rw [← hm'] at habove
      refine .inr ⟨?_, ?_⟩
      · unfold FitsBits
        rw [ht]
        rcases integerBits_cases fps with ⟨-, hp⟩ | ⟨-, hp⟩ <;> rw [hp] at habove ⊢ <;>
          cases sign <;> simp only [Bool.false_eq_true, if_true, if_false] <;> omega
      · rw [if_pos hlarge]
    · have hk := packed_floor fps hhi (not_le.1 hsmall) (not_lt.1 hlarge)
      rw [← hm'] at hk
      have hword := shiftedWord_toNat fps hk
      rw [if_neg hlarge]
      dsimp only
      by_cases hfits : FitsBits (integerBits fps) t
      · refine .inl ⟨hfits, ?_⟩
        rw [ht] at hfits ⊢
        rw [if_neg ((shifted_below_limit fps sign hword).mpr hfits),
          integerWord_signed fps sign hword]
      · refine .inr ⟨hfits, ?_⟩
        rw [ht] at hfits
        rw [if_pos (not_not.mp (mt (shifted_below_limit fps sign hword).mp hfits))]

theorem integerWord_toInt (fps : Word) {t : ℤ} (ht : FitsBits (integerBits fps) t) :
    (integerWord fps t).toInt = t * 2 ^ (32 - integerBits fps) := by
  unfold FitsBits at ht
  unfold integerWord
  rcases integerBits_cases fps with ⟨-, hp⟩ | ⟨-, hp⟩ <;> rw [hp] at ht ⊢ <;>
    rw [BitVec.toInt_ofInt_eq_self (by decide)] <;> omega

/-- The integer a float is converted to: its precision's value, cut off toward zero. -/
def convertedInteger (val : BitVec 64) (fps : Word) : ℤ := truncate (value (significant fps val))

theorem fpStcfi_cases (val : BitVec 64) (fps : Word) :
    (FitsBits (integerBits fps) (convertedInteger val fps) ∧
      fpStcfi val fps = (integerWord fps (convertedInteger val fps), false, 0)) ∨
    (¬ FitsBits (integerBits fps) (convertedInteger val fps) ∧
      fpStcfi val fps = (0, true, (fpNotrap fps fecIcvt 0).2)) := by
  obtain ⟨fac, hfac, heq⟩ := fpStcfi_eq val fps
  have hbounds := significand_bounds (significant fps val)
  have hm : magnitude (significant fps val) =
      if exponent val = 0 then 0 else (fac.toNat : ℚ) * 2 ^ (exponent val - fpBias - 56) := by
    unfold magnitude
    rw [exponent_significant, hfac]
  have hm0 : 0 ≤ magnitude (significant fps val) := magnitude_nonneg _
  have ht : convertedInteger val fps = if negative val then
      -(⌊magnitude (significant fps val)⌋₊ : ℤ) else ⌊magnitude (significant fps val)⌋₊ := by
    unfold convertedInteger
    rw [value_eq, negative_significant, truncate_signed _ hm0]
  rw [heq]
  rcases stcfiCore_eq (negative val) fps (by omega) (by omega) hm ht with ⟨hfits, hcore⟩ |
    ⟨hfits, hcore⟩
  · refine .inl ⟨hfits, ?_⟩
    rw [hcore]
    rfl
  · refine .inr ⟨hfits, ?_⟩
    rw [hcore]
    rfl

theorem conversion_posted (fps : Word) :
    (fpNotrap fps fecIcvt 0).2 = if fps &&& fpsIc ≠ 0 then fecIcvt else 0 := by
  have htest : fpTestCode fecIcvt = fpsIc := rfl
  unfold fpNotrap
  rw [htest]
  by_cases hic : fps &&& fpsIc = 0
  · rw [if_pos ⟨le_rfl, by decide, hic⟩, if_neg (not_not.mpr hic)]
  · rw [if_neg (fun h => hic h.2.2), if_pos hic]

/-- A float converts to its integer part, cut off toward zero, or is reported. -/
theorem stcfi_truncates_or_reports (val : BitVec 64) (fps : Word) :
    (FitsBits (integerBits fps) (convertedInteger val fps) →
      (fpStcfi val fps).1.toInt = convertedInteger val fps * 2 ^ (32 - integerBits fps)) ∧
    (¬ FitsBits (integerBits fps) (convertedInteger val fps) → (fpStcfi val fps).1 = 0) ∧
    ((fpStcfi val fps).2.1 = true ↔ ¬ FitsBits (integerBits fps) (convertedInteger val fps)) ∧
    (fpStcfi val fps).2.2 =
      if (fpStcfi val fps).2.1 = true ∧ fps &&& fpsIc ≠ 0 then fecIcvt else 0 := by
  rcases fpStcfi_cases val fps with ⟨hfits, heq⟩ | ⟨hfits, heq⟩
  · rw [heq]
    refine ⟨fun _ => integerWord_toInt fps hfits, fun h => absurd hfits h, ?_, ?_⟩
    · simp only [Bool.false_eq_true, false_iff, not_not]
      exact hfits
    · simp only [Bool.false_eq_true, false_and, if_false]
  · rw [heq]
    refine ⟨fun h => absurd h hfits, fun _ => rfl, ?_, ?_⟩
    · simp only [true_iff]
      exact hfits
    · simp only [true_and]
      exact conversion_posted fps

/-! ## Integer to float -/

/-- The shifts that bring the leading bit to the top, given enough of them. -/
theorem ldcifNormalize_spec (fuel : ℕ) (l : BitVec 32) (i : ℕ) (hl : 0 < l.toNat)
    (hfuel : 2 ^ 32 ≤ l.toNat * 2 ^ fuel) :
    ∃ k, (ldcifNormalize fuel l i).2 = i + k ∧
      (ldcifNormalize fuel l i).1.toNat = l.toNat * 2 ^ k ∧
      2 ^ 31 ≤ (ldcifNormalize fuel l i).1.toNat := by
  induction fuel generalizing l i with
  | zero =>
    have hlt := l.isLt
    omega
  | succ fuel ih =>
    have hlt := l.isLt
    have hsign : getSign l = decide (2 ^ 31 ≤ l.toNat) := by
      unfold getSign
      rw [← BitVec.testBit_toNat, Nat.testBit_eq_decide_div_mod_eq, decide_eq_decide]
      omega
    rw [ldcifNormalize]
    by_cases htop : 2 ^ 31 ≤ l.toNat
    · rw [hsign, if_pos (decide_eq_true htop)]
      exact ⟨0, rfl, (Nat.mul_one _).symm, htop⟩
    · have hshift : (l <<< 1).toNat = l.toNat * 2 := by
        rw [BitVec.toNat_shiftLeft, Nat.shiftLeft_eq, pow_one, Nat.mod_eq_of_lt (by omega)]
      rw [hsign, if_neg (by rw [decide_eq_true_eq]; exact htop)]
      obtain ⟨k, hcount, hval, hlead⟩ := ih (l <<< 1) (i + 1) (by omega)
        (by rw [hshift, Nat.mul_assoc, ← pow_succ']; exact hfuel)
      refine ⟨k + 1, by omega, ?_, hlead⟩
      rw [hval, hshift, pow_succ', Nat.mul_assoc]

/-- The magnitude that is normalized. -/
def ldcifMagnitude (facl : BitVec 32) : BitVec 32 :=
  if getSign facl then (facl ^^^ 0xFFFFFFFF) + 1 else facl

/-- The packed number before it is rounded. -/
def ldcifPacked (facl : BitVec 32) (fps : Word) : Fpac :=
  let li := ldcifNormalize 32 (ldcifMagnitude facl) 0
  ⟨li.1 <<< 24, (if getSign facl then fpSign else 0) |||
    (BitVec.ofInt 32 (fpBias + integerBits fps - li.2) <<< 23) ||| ((li.1 >>> 8) &&& fpFrach)⟩

theorem fpLdcif_eq {facl : BitVec 32} (fps : Word) (h : facl ≠ 0) :
    fpLdcif facl fps = fromFac (if fps &&& (fpsD ||| fpsT) = 0 then
      (roundfp11 (ldcifPacked facl fps) fps 0).val else ldcifPacked facl fps) := by
  have hbias : (if fps &&& fpsL ≠ 0 then fpBias + 32 else fpBias + 16) =
      fpBias + (integerBits fps : ℤ) := limitExp_eq fps
  unfold fpLdcif
  rw [if_neg h]
  dsimp only
  rw [hbias]
  rfl

theorem ldcifMagnitude_toNat (facl : BitVec 32) :
    (ldcifMagnitude facl).toNat = facl.toInt.natAbs ∧ getSign facl = decide (facl.toInt < 0) := by
  have hlt := facl.isLt
  have hsign : getSign facl = decide (2 ^ 31 ≤ facl.toNat) := by
    unfold getSign
    rw [← BitVec.testBit_toNat, Nat.testBit_eq_decide_div_mod_eq, decide_eq_decide]
    omega
  have hneg : (facl ^^^ 0xFFFFFFFF) + 1 = -facl := by
    rw [BitVec.neg_eq_not_add]
    congr 1
    exact BitVec.xor_allOnes
  unfold ldcifMagnitude
  rw [hsign, hneg]
  by_cases h : 2 ^ 31 ≤ facl.toNat
  · rw [if_pos (decide_eq_true h), BitVec.toNat_neg, BitVec.toInt_eq_toNat_cond,
      if_neg (by omega), decide_eq_decide]
    omega
  · rw [if_neg (by rw [decide_eq_true_eq]; exact h), BitVec.toInt_eq_toNat_cond,
      if_pos (by omega), decide_eq_decide]
    omega

/-- The number that an operand of LDCif stands for. -/
def integerOperand (facl : BitVec 32) (fps : Word) : ℚ := facl.toInt / 2 ^ (32 - integerBits fps)

/-- The fields put together from a sign, an exponent and the leading bits of the integer. -/
theorem ldcif_fields_toNat (sign : Bool) {e : ℤ} (l : BitVec 32) (he : 1 ≤ e) (he' : e ≤ 255) :
    (fromFac ⟨l <<< 24, (if sign then fpSign else 0) ||| (BitVec.ofInt 32 e <<< 23) |||
      ((l >>> 8) &&& fpFrach)⟩).toNat =
      (if sign then 2 ^ 63 else 0) + e.toNat * 2 ^ 55 + l.toNat % 2 ^ 31 * 2 ^ 24 := by
  have hl := l.isLt
  have hsign : (if sign then fpSign else 0) = (if sign then fpSign else 0) &&& fpSign := by
    cases sign <;> rfl
  have hofInt : (BitVec.ofInt 32 e).toNat = e.toNat := by
    rw [BitVec.toNat_ofInt]
    omega
  have hfield : BitVec.ofInt 32 e = BitVec.ofInt 32 e &&& 0o377 := by
    have hmask : (0o377 : BitVec 32).toNat = 2 ^ 8 - 1 := rfl
    rw [← BitVec.toNat_inj, BitVec.toNat_and, hmask, Nat.and_two_pow_sub_one_eq_mod, hofInt]
    omega
  rw [Fpac.fromFac_toNat, hsign, hfield]
  unfold Fpac.toNat
  rw [packed_toNat, hofInt, BitVec.toNat_shiftLeft, BitVec.toNat_ushiftRight, Nat.shiftLeft_eq,
    Nat.shiftRight_eq_div_pow]
  cases sign with
  | false =>
    rw [if_neg Bool.false_ne_true, if_neg Bool.false_ne_true, show (0 : BitVec 32).toNat = 0 from rfl]
    omega
  | true =>
    rw [if_pos rfl, if_pos rfl, show fpSign.toNat = 2 ^ 31 from rfl]
    omega

/-- The fields of the packed integer: its own bits are the fraction. -/
theorem ldcifPacked_fields {facl : BitVec 32} (fps : Word) (h : facl ≠ 0) :
    exponent (fromFac (ldcifPacked facl fps)) ≠ 0 ∧
      exponent (fromFac (ldcifPacked facl fps)) ≤ 160 ∧
      negative (fromFac (ldcifPacked facl fps)) = decide (facl.toInt < 0) ∧
      magnitude (fromFac (ldcifPacked facl fps)) = |integerOperand facl fps| := by
  obtain ⟨hmag, hsign⟩ := ldcifMagnitude_toNat facl
  have hpos : 0 < (ldcifMagnitude facl).toNat := by
    rw [hmag, Int.natAbs_pos]
    intro h0
    exact h (BitVec.eq_of_toInt_eq h0)
  -- the loop shifts the leading 1 to the top, and counts the exponent down as it does
  obtain ⟨k, hcount, hval, hlead⟩ := ldcifNormalize_spec 32 (ldcifMagnitude facl) 0 hpos
    (Nat.le_mul_of_pos_left _ hpos)
  have hbits : integerBits fps = 16 ∨ integerBits fps = 32 := by
    rcases integerBits_cases fps with ⟨-, hp⟩ | ⟨-, hp⟩ <;> omega
  unfold ldcifPacked
  dsimp only
  generalize ldcifNormalize 32 (ldcifMagnitude facl) 0 = li at hcount hval hlead
  have hl := li.1.isLt
  have hk : k < 32 := by
    have hle : 2 ^ k ≤ li.1.toNat := by
      rw [hval]
      exact Nat.le_mul_of_pos_left _ hpos
    exact (Nat.pow_lt_pow_iff_right (by decide : 1 < 2)).mp (hle.trans_lt hl)
  obtain ⟨e, he⟩ : ∃ e : ℤ, fpBias + integerBits fps - li.2 = e := ⟨_, rfl⟩
  have hbias : fpBias = 128 := rfl
  have hrange : 1 ≤ e ∧ e ≤ 160 := by omega
  have htoNat := ldcif_fields_toNat (getSign facl) li.1 hrange.1 (by omega)
  rw [he]
  -- of the packed word only the value of its fields is used below
  generalize fromFac ⟨li.1 <<< 24, (if getSign facl then fpSign else 0) |||
    (BitVec.ofInt 32 e <<< 23) ||| ((li.1 >>> 8) &&& fpFrach)⟩ = v at htoNat
  have htop : (if getSign facl then 2 ^ 63 else 0) = 0 ∧ getSign facl = false ∨
      (if getSign facl then 2 ^ 63 else 0) = 2 ^ 63 ∧ getSign facl = true := by
    cases getSign facl
    · exact .inl ⟨rfl, rfl⟩
    · exact .inr ⟨rfl, rfl⟩
  have hexp : exponent v = e := by
    rw [exponent_eq, htoNat]
    omega
  have hsig : significand v = li.1.toNat * 2 ^ 24 := by
    unfold significand
    rw [htoNat]
    omega
  refine ⟨by omega, by omega, ?_, ?_⟩
  · rw [negative_eq, htoNat, ← hsign]
    rcases htop with ⟨ht, hs⟩ | ⟨ht, hs⟩
    · rw [ht, hs, decide_eq_false_iff_not]
      omega
    · rw [ht, hs, decide_eq_true_eq]
      omega
  · have hscale : (2 : ℚ) ^ k * 2 ^ 24 * 2 ^ (e - fpBias - 56) = 1 / 2 ^ (32 - integerBits fps) := by
      have hexps : e - fpBias - 56 = -((32 - integerBits fps : ℕ) : ℤ) - k - 24 := by omega
      rw [hexps, zpow_sub₀ two_ne_zero, zpow_sub₀ two_ne_zero, zpow_neg, zpow_natCast, zpow_natCast]
      field_simp
    rw [magnitude_of_fields (by omega) hexp hsig, hval, hmag, integerOperand, abs_div,
      abs_of_pos (by positivity : (0 : ℚ) < 2 ^ (32 - integerBits fps))]
    push_cast
    calc (facl.toInt.natAbs : ℚ) * 2 ^ k * 2 ^ 24 * 2 ^ (e - fpBias - 56)
        = facl.toInt.natAbs * (2 ^ k * 2 ^ 24 * 2 ^ (e - fpBias - 56)) := by ring
      _ = |(facl.toInt : ℚ)| / 2 ^ (32 - integerBits fps) := by
        rw [hscale, mul_one_div, Nat.cast_natAbs, Int.cast_abs]

theorem roundSigned_zero (p : ℕ) (d : Direction) : roundSigned p d (0 : ℚ) = 0 := by
  unfold roundSigned
  rw [if_neg (lt_irrefl 0), roundMagnitude_zero]

theorem single_rounds {fps : Word} :
    fps &&& (fpsD ||| fpsT) = 0 ↔ fps &&& fpsD = 0 ∧ fps &&& fpsT = 0 := by
  rw [BitVec.and_or_distrib_left]
  exact BitVec.or_eq_zero_iff

theorem integerOperand_signed (facl : BitVec 32) (fps : Word) :
    integerOperand facl fps = signed (decide (facl.toInt < 0)) |integerOperand facl fps| := by
  have hpow : (0 : ℚ) < 2 ^ (32 - integerBits fps) := by positivity
  unfold integerOperand signed
  by_cases h : facl.toInt < 0
  · have hneg : (facl.toInt : ℚ) / 2 ^ (32 - integerBits fps) ≤ 0 :=
      div_nonpos_of_nonpos_of_nonneg (by exact_mod_cast h.le) hpow.le
    rw [if_pos (decide_eq_true h), abs_of_nonpos hneg, neg_neg]
  · have hnonneg : 0 ≤ (facl.toInt : ℚ) / 2 ^ (32 - integerBits fps) :=
      div_nonneg (by exact_mod_cast not_lt.mp h) hpow.le
    rw [if_neg (by rw [decide_eq_true_eq]; exact h), abs_of_nonneg hnonneg]

/-- An integer loads as itself, rounded to the precision in force. -/
theorem ldcif_value (facl : BitVec 32) (fps : Word) :
    value (significant fps (fpLdcif facl fps)) =
      roundSigned (precision fps) (direction fps) (integerOperand facl fps) := by
  by_cases h : facl = 0
  · have hzero : significant fps 0 = 0 := by
      unfold significant
      split_ifs <;> rfl
    have hval : value 0 = 0 := rfl
    have hint : (0 : BitVec 32).toInt = 0 := rfl
    have hop : integerOperand 0 fps = 0 := by
      unfold integerOperand
      rw [hint, Int.cast_zero, zero_div]
    rw [h, hop, roundSigned_zero, show fpLdcif 0 fps = 0 from rfl, hzero, hval]
  · obtain ⟨hexp, hrange, hneg, hmag⟩ := ldcifPacked_fields fps h
    have hpos : 0 < |integerOperand facl fps| := by
      rw [← hmag]
      exact magnitude_pos hexp
    rw [integerOperand_signed, roundSigned_signed _ _ _ hpos, value_eq, negative_significant,
      fpLdcif_eq fps h]
    rcases precision_cases fps with ⟨hd, hp, -⟩ | ⟨hd, hp, -⟩
    · rw [significant_single hd, hp]
      by_cases ht : fps &&& fpsT = 0
      · have hdir : direction fps = .nearestAway := if_pos ht
        rw [if_pos (single_rounds.mpr ⟨hd, ht⟩), hdir]
        rcases roundfp11_cases (ldcifPacked facl fps) fps hexp with
          ⟨-, -, -, hsign, hround⟩ | ⟨-, hlast, -⟩
        · rw [hsign, hround, hneg, hmag]
        · omega
      · have hdir : direction fps = .towardZero := if_neg ht
        rw [if_neg (fun h => ht (single_rounds.mp h).2), hdir, hneg, magnitude_highHalf hexp, hmag]
    · have hself : significant fps (fromFac (ldcifPacked facl fps)) =
          fromFac (ldcifPacked facl fps) := by
        unfold significant
        rw [if_neg hd]
      rw [if_neg (fun h => hd (single_rounds.mp h).1), hself, hneg, hp, ← hmag,
        roundMagnitude_double _ hexp]

/-! ## The round trip -/

/-- What LDCif promises of an integer, and STCfi of what it loaded. -/
structure ConvertsBack (facl : BitVec 32) (fps : Word) (n : ℤ) : Prop where
  exact : value (significant fps (fpLdcif facl fps)) = n
  back : fpStcfi (fpLdcif facl fps) fps = (facl, false, 0)

theorem roundSigned_intCast {n : ℤ} {p : ℕ} (d : Direction) (hn : n.natAbs < 2 ^ p) :
    roundSigned p d (n : ℚ) = n := by
  by_cases h0 : n = 0
  · rw [h0, Int.cast_zero, roundSigned_zero]
  · have hsigned : (n : ℚ) = signed (decide (n < 0)) (n.natAbs : ℚ) := by
      unfold signed
      rw [Nat.cast_natAbs, Int.cast_abs]
      by_cases hneg : n < 0
      · rw [if_pos (decide_eq_true hneg), abs_of_neg (by exact_mod_cast hneg), neg_neg]
      · rw [if_neg (by rw [decide_eq_true_eq]; exact hneg),
          abs_of_nonneg (by exact_mod_cast not_lt.mp hneg)]
    have hpos : (0 : ℚ) < (n.natAbs : ℚ) := by exact_mod_cast Int.natAbs_pos.mpr h0
    rw [hsigned, roundSigned_signed _ _ _ hpos,
      roundMagnitude_natCast d (Int.natAbs_pos.mpr h0) hn]

/-- An integer that the format and the precision both hold. -/
theorem convertsBack {facl : BitVec 32} {fps : Word} {n : ℤ} (hfits : FitsBits (integerBits fps) n)
    (hop : facl.toInt = n * 2 ^ (32 - integerBits fps)) (hn : n.natAbs < 2 ^ precision fps) :
    ConvertsBack facl fps n := by
  have hval : value (significant fps (fpLdcif facl fps)) = n := by
    have hnum : integerOperand facl fps = n := by
      have hpow : (2 : ℚ) ^ (32 - integerBits fps) ≠ 0 := by positivity
      unfold integerOperand
      rw [hop, Int.cast_mul, Int.cast_pow, Int.cast_ofNat, mul_div_cancel_right₀ _ hpow]
    rw [ldcif_value, hnum, roundSigned_intCast _ hn]
  have hinteger : convertedInteger (fpLdcif facl fps) fps = n := by
    unfold convertedInteger truncate
    rw [hval, Int.ceil_intCast, Int.floor_intCast, ite_self]
  have hword : integerWord fps n = facl := by
    unfold integerWord
    rw [← hop, BitVec.ofInt_toInt]
  refine ⟨hval, ?_⟩
  rcases fpStcfi_cases (fpLdcif facl fps) fps with ⟨-, heq⟩ | ⟨hnot, -⟩
  · rw [heq, hinteger, hword]
  · rw [hinteger] at hnot
    exact absurd hfits hnot

/-- LDCif rounds to the precision in force, and STCfi takes an exact result back. -/
theorem ldcif_rounds_and_stcfi_inverts (fps : Word) :
    (fps &&& fpsL = 0 → ∀ w : Word, ConvertsBack (w ++ (0 : Word)) fps w.toInt) ∧
    (fps &&& fpsL ≠ 0 → fps &&& fpsD ≠ 0 → ∀ facl, ConvertsBack facl fps facl.toInt) ∧
    (fps &&& fpsL ≠ 0 → fps &&& fpsD = 0 → ∀ facl,
      value (highHalf (fpLdcif facl fps)) =
        roundSigned 24 (direction fps) (facl.toInt : ℚ)) := by
  refine ⟨fun hl w => ?_, fun hl hd facl => ?_, fun hl hd facl => ?_⟩
  · have hp : integerBits fps = 16 := if_pos hl
    have hw := w.toInt_lt
    have hw' := w.le_toInt
    apply convertsBack
    · unfold FitsBits
      rw [hp]
      omega
    · have hhigh : (w ++ (0 : Word)).toNat = w.toNat * 2 ^ 16 := by
        rw [BitVec.toNat_append, show (0 : Word).toNat = 0 from rfl, Nat.or_zero, Nat.shiftLeft_eq]
      have hlt := w.isLt
      rw [hp, BitVec.toInt_eq_toNat_cond, BitVec.toInt_eq_toNat_cond, hhigh]
      split_ifs <;> omega
    · rcases precision_cases fps with ⟨-, hprec, -⟩ | ⟨-, hprec, -⟩ <;> rw [hprec] <;> omega
  · have hp : integerBits fps = 32 := if_neg hl
    have hi := facl.toInt_lt
    have hi' := facl.le_toInt
    apply convertsBack
    · unfold FitsBits
      rw [hp]
      omega
    · rw [hp, Nat.sub_self, pow_zero, mul_one]
    · rw [precision, if_neg hd]
      omega
  · have hp : integerBits fps = 32 := if_neg hl
    have hprec : precision fps = 24 := if_pos hd
    rw [← significant_single hd, ldcif_value, hprec, integerOperand, hp, Nat.sub_self, pow_zero,
      div_one]

/-- The most negative integers, and one of 25 bits in single precision. -/
theorem extremes_convert_back :
    ConvertsBack 0x80000000 0 (-32768) ∧
      ConvertsBack 0x80000000 (fpsL ||| fpsD) (-2147483648) ∧
      value (highHalf (fpLdcif 0x01000001 fpsL)) = roundSigned 24 .nearestAway (16777217 : ℚ) := by
  refine ⟨(ldcif_rounds_and_stcfi_inverts 0).1 (by decide) 0x8000,
    (ldcif_rounds_and_stcfi_inverts (fpsL ||| fpsD)).2.1 (by decide) (by decide) 0x80000000, ?_⟩
  exact_mod_cast (ldcif_rounds_and_stcfi_inverts fpsL).2.2 (by decide) (by decide) 0x01000001

end Pdp11
