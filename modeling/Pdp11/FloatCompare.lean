import Pdp11.FloatAdd

/-! The floating comparison is the order of the numbers. -/

namespace Pdp11

/-! ## Order of the packed forms -/

/-- The exponent and fraction fields as one number. -/
def rank (v : BitVec 64) : ℕ := v.toNat % 2 ^ 63

/-- Exponent 0 replaced by the clean zero. -/
def clean (v : BitVec 64) : BitVec 64 := if exponent v = 0 then 0 else v

/-- A number with exponent 0 is the clean zero. -/
def Clean (v : BitVec 64) : Prop := exponent v = 0 → v = 0

theorem clean_clean (v : BitVec 64) : Clean (clean v) := by
  unfold Clean clean
  split_ifs with h
  · exact fun _ => rfl
  · exact fun h' => absurd h' h

theorem value_clean (v : BitVec 64) : value (clean v) = value v := by
  unfold clean
  split_ifs with h
  · have hzero : magnitude v = 0 := if_pos h
    have hzero' : magnitude 0 = 0 := if_pos rfl
    rw [value_eq, value_eq, hzero, hzero', signed_eq_zero.mpr rfl, signed_eq_zero.mpr rfl]
  · rfl

theorem exponent_rank (v : BitVec 64) : exponent v = (rank v / 2 ^ 55 : ℕ) := by
  rw [exponent_eq]
  unfold rank
  omega

theorem significand_rank (v : BitVec 64) : significand v = 2 ^ 55 + rank v % 2 ^ 55 := by
  unfold significand rank
  omega

/-- The magnitude follows the rank. -/
theorem magnitude_lt_of_rank {u v : BitVec 64} (hu : exponent u ≠ 0) (h : rank u < rank v) :
    magnitude u < magnitude v := by
  have hexp : exponent u ≤ exponent v := by
    rw [exponent_rank, exponent_rank]
    omega
  have hpos := (exponent_bounds u).1
  rw [magnitude_eq hu, magnitude_eq (by omega)]
  by_cases heq : exponent u = exponent v
  · have hsig : significand u < significand v := by
      rw [exponent_rank, exponent_rank] at heq
      rw [significand_rank, significand_rank]
      omega
    have hsig' : (significand u : ℚ) < significand v := by exact_mod_cast hsig
    rw [heq]
    exact mul_lt_mul_of_pos_right hsig' (by positivity)
  · have hsig : (significand u : ℚ) < significand v * 2 := by
      have hhi := (significand_bounds u).2
      have hlo := (significand_bounds v).1
      exact_mod_cast (by omega : significand u < significand v * 2)
    have hscale : (2 : ℚ) ^ (exponent u - fpBias - 56 + 1) ≤ 2 ^ (exponent v - fpBias - 56) :=
      zpow_le_zpow_right₀ one_le_two (by omega)
    calc (significand u : ℚ) * 2 ^ (exponent u - fpBias - 56)
        < significand v * 2 * 2 ^ (exponent u - fpBias - 56) :=
          mul_lt_mul_of_pos_right hsig (by positivity)
      _ = significand v * 2 ^ (exponent u - fpBias - 56 + 1) := by
          rw [zpow_add_one₀ two_ne_zero]
          ring
      _ ≤ significand v * 2 ^ (exponent v - fpBias - 56) :=
          mul_le_mul_of_nonneg_left hscale (by positivity)

theorem magnitude_of_rank {u v : BitVec 64} (h : rank u = rank v) : magnitude u = magnitude v := by
  unfold magnitude
  rw [exponent_rank, exponent_rank, significand_rank, significand_rank, h]

namespace Clean

variable {u v : BitVec 64} (hu : Clean u) (hv : Clean v)
include hu

theorem rank_eq_zero : rank u = 0 ↔ magnitude u = 0 := by
  constructor
  · intro h
    unfold magnitude
    rw [exponent_rank, h]
    exact if_pos rfl
  · intro h
    by_cases he : exponent u = 0
    · rw [hu he]
      rfl
    · exact absurd h (magnitude_pos he).ne'

theorem negative_pos (h : negative u = true) : 0 < magnitude u := by
  refine magnitude_pos fun he => ?_
  rw [hu he] at h
  exact absurd h (by decide)

theorem lt_magnitude {w : BitVec 64} (h : rank w < rank u) : magnitude w < magnitude u := by
  by_cases he : exponent w = 0
  · have hne : magnitude u ≠ 0 := by
      rw [ne_eq, ← hu.rank_eq_zero]
      omega
    have hzero : magnitude w = 0 := if_pos he
    rw [hzero]
    exact lt_of_le_of_ne (magnitude_nonneg u) hne.symm
  · exact magnitude_lt_of_rank he h

include hv

theorem magnitude_lt_iff : magnitude u < magnitude v ↔ rank u < rank v := by
  constructor
  · intro h
    rcases lt_trichotomy (rank u) (rank v) with hr | hr | hr
    · exact hr
    · exact absurd h (magnitude_of_rank hr).not_lt
    · exact absurd h (hu.lt_magnitude hr).not_gt
  · exact hv.lt_magnitude

theorem magnitude_eq_iff : magnitude u = magnitude v ↔ rank u = rank v := by
  constructor
  · intro h
    rcases lt_trichotomy (rank u) (rank v) with hr | hr | hr
    · exact absurd h (hv.lt_magnitude hr).ne
    · exact hr
    · exact absurd h (hu.lt_magnitude hr).ne'
  · exact magnitude_of_rank

/-- The order of two numbers from their signs and ranks. -/
theorem value_lt_iff : value u < value v ↔
    if negative u then (negative v = true → rank v < rank u)
    else negative v = false ∧ rank u < rank v := by
  rw [value_eq, value_eq]
  unfold signed
  cases hsu : negative u with
  | true =>
    have hpos := hu.negative_pos hsu
    cases hsv : negative v with
    | true =>
      have h := hv.magnitude_lt_iff hu
      simp only [if_true, neg_lt_neg_iff, forall_const]
      exact h
    | false =>
      have h := magnitude_nonneg v
      simp only [if_true, Bool.false_eq_true, if_false, false_imp_iff, iff_true]
      linarith
  | false =>
    cases hsv : negative v with
    | true =>
      have h := magnitude_nonneg u
      have h' := hv.negative_pos hsv
      simp only [Bool.false_eq_true, if_false, if_true, reduceCtorEq, false_and, iff_false, not_lt]
      linarith
    | false =>
      have h := hu.magnitude_lt_iff hv
      simp only [Bool.false_eq_true, if_false, true_and]
      exact h

theorem value_eq_iff : value u = value v ↔ u = v := by
  have hdiffer {a b : BitVec 64} (ha : Clean a) (hsa : negative a = true) (hsb : negative b = false) :
      value a ≠ value b := by
    have hpos := ha.negative_pos hsa
    have hnonneg := magnitude_nonneg b
    rw [value_eq, value_eq, hsa, hsb]
    show -magnitude a ≠ magnitude b
    intro h
    linarith
  refine ⟨fun h => ?_, fun h => by rw [h]⟩
  have hsign : negative u = negative v := by
    cases hsu : negative u <;> cases hsv : negative v
    · rfl
    · exact absurd h.symm (hdiffer hv hsv hsu)
    · exact absurd h (hdiffer hu hsu hsv)
    · rfl
  have hmag : magnitude u = magnitude v := by
    rw [value_eq, value_eq, hsign] at h
    unfold signed at h
    split_ifs at h
    · exact neg_injective h
    · exact h
  have hrank := (hu.magnitude_eq_iff hv).mp hmag
  have hu64 := u.isLt
  have hv64 := v.isLt
  rw [negative_eq, negative_eq, decide_eq_decide] at hsign
  unfold rank at hrank
  apply BitVec.eq_of_toNat_eq
  omega

/-- Of two different numbers the first is below when it is negative, but for two of one sign whose
packed forms compare unsigned. -/
theorem below_iff (hne : u ≠ v) : value u < value v ↔
    if negative u = negative v ∧ u.toNat < v.toNat then negative u = false
    else negative u = true := by
  have hu64 := u.isLt
  have hv64 := v.isLt
  rw [ne_eq, ← BitVec.toNat_inj] at hne
  rw [hu.value_lt_iff hv, negative_eq, negative_eq]
  unfold rank
  simp only [decide_eq_decide, decide_eq_true_eq, decide_eq_false_iff_not]
  split_ifs <;> omega

end Clean

/-! ## The comparison -/

/-- The accumulator operand, exponent 0 read as zero. -/
def cleanFac (f : Fpac) : Fpac := if getExp f.h = 0 then .zero else f

theorem fromFac_cleanFac (f : Fpac) : fromFac (cleanFac f) = clean (fromFac f) := by
  unfold cleanFac clean
  rw [getExp_eq]
  split_ifs <;> rfl

/-- The comparison of two cleaned operands. -/
def cmpClean (fac fsrc : Fpac) : Word × Bool :=
  if fsrc.h = fac.h ∧ fsrc.l = fac.l then (fpsZ, fsrc.isZero)
  else
    let cc := (fsrc.h >>> 28).setWidth 16 &&& fpsN
    if getSign (fsrc.h ^^^ fac.h) = false ∧ fac.h ≠ 0 ∧ fsrc.lt fac then (cc ^^^ fpsN, false)
    else (cc, false)

/-- The sign shifted to the place of N. -/
theorem sign_condition (h : BitVec 32) :
    (h >>> 28).setWidth 16 &&& fpsN = if getSign h then fpsN else 0 := by
  have hbit : ∀ b : BitVec 4, b.setWidth 16 &&& fpsN = if b.getLsbD 3 then fpsN else 0 := by decide
  have hsplit : (h >>> 28).setWidth 16 = (h.extractLsb' 28 4).setWidth 16 := by
    have hh := h.isLt
    apply BitVec.eq_of_toNat_eq
    rw [BitVec.toNat_setWidth, BitVec.toNat_setWidth, BitVec.extractLsb'_toNat,
      BitVec.toNat_ushiftRight, Nat.shiftRight_eq_div_pow]
    omega
  have hsign : getSign h = (h.extractLsb' 28 4).getLsbD 3 := by
    unfold getSign
    rw [BitVec.getLsbD_extractLsb']
    rfl
  rw [hsplit, hbit, hsign]

theorem Fpac.eq_iff (x y : Fpac) : x.h = y.h ∧ x.l = y.l ↔ fromFac x = fromFac y := by
  constructor
  · rintro ⟨hh, hl⟩
    unfold fromFac
    rw [hh, hl]
  · intro h
    have heq : x = y := ext_toNat (by rw [← fromFac_toNat, h, fromFac_toNat])
    rw [heq]
    exact ⟨rfl, rfl⟩

/-- The condition codes of a comparison: Z for equal numbers, N for a source below the
accumulator. -/
theorem cmpClean_order {fac fsrc : Fpac} (hfac : Clean (fromFac fac)) (hfsrc : Clean (fromFac fsrc)) :
    cmpClean fac fsrc =
      (if value (fromFac fsrc) = value (fromFac fac) then fpsZ
        else if value (fromFac fsrc) < value (fromFac fac) then fpsN else 0,
        decide (value (fromFac fac) = 0 ∧ value (fromFac fsrc) = 0)) := by
  have hzero : value 0 = 0 := by
    rw [value_eq, signed_eq_zero]
    exact if_pos rfl
  have hclean0 : Clean (0 : BitVec 64) := fun _ => rfl
  unfold cmpClean
  by_cases heq : fromFac fsrc = fromFac fac
  · have hisZero : fsrc.isZero = decide (value (fromFac fsrc) = 0) := by
      rw [Bool.eq_iff_iff, Fpac.isZero_iff, decide_eq_true_eq, ← hzero, hfsrc.value_eq_iff hclean0,
        ← BitVec.toNat_inj, Fpac.fromFac_toNat]
      rfl
    rw [if_pos ((Fpac.eq_iff fsrc fac).mpr heq), if_pos (congrArg value heq), ← heq, hisZero]
    simp only [and_self]
  · have hne : value (fromFac fsrc) ≠ value (fromFac fac) := fun h =>
      heq ((hfsrc.value_eq_iff hfac).mp h)
    have hboth : ¬(value (fromFac fac) = 0 ∧ value (fromFac fsrc) = 0) := by
      rintro ⟨h, h'⟩
      exact hne (h'.trans h.symm)
    rw [if_neg fun h => heq ((Fpac.eq_iff fsrc fac).mp h), if_neg hne, decide_eq_false hboth]
    dsimp only
    have hxor : getSign (fsrc.h ^^^ fac.h) = (negative (fromFac fsrc) ^^ negative (fromFac fac)) := by
      rw [← getSign_eq, ← getSign_eq]
      exact BitVec.getLsbD_xor
    have hless : fsrc.lt fac = true ↔ (fromFac fsrc).toNat < (fromFac fac).toNat := by
      rw [Fpac.lt_iff, Fpac.fromFac_toNat, Fpac.fromFac_toNat]
    -- only zero has no bits in its high half, and nothing lies below it
    have hhigh (h : fsrc.lt fac = true) : fac.h ≠ 0 := by
      intro hh
      have hexp : exponent (fromFac fac) = 0 := by
        rw [← getExp_eq, hh]
        rfl
      rw [hless, hfac hexp] at h
      exact absurd h (Nat.not_lt_zero _)
    have hflip : (getSign (fsrc.h ^^^ fac.h) = false ∧ fac.h ≠ 0 ∧ fsrc.lt fac = true) ↔
        negative (fromFac fsrc) = negative (fromFac fac) ∧
          (fromFac fsrc).toNat < (fromFac fac).toNat := by
      rw [hxor, and_iff_right_of_imp hhigh, hless]
      exact and_congr_left fun _ => bne_eq_false_iff_eq
    have hbelow := hfsrc.below_iff hfac heq
    rw [sign_condition, getSign_eq]
    by_cases hc : getSign (fsrc.h ^^^ fac.h) = false ∧ fac.h ≠ 0 ∧ fsrc.lt fac = true
    · rw [if_pos hc]
      rw [if_pos (hflip.mp hc)] at hbelow
      cases hs : negative (fromFac fsrc) with
      | true =>
        have hv : ¬value (fromFac fsrc) < value (fromFac fac) := by
          rw [hbelow, hs]
          exact Bool.noConfusion
        rw [if_neg hv]
        rfl
      | false =>
        rw [if_pos (hbelow.mpr hs)]
        rfl
    · rw [if_neg hc]
      rw [if_neg (mt hflip.mpr hc)] at hbelow
      rw [if_congr hbelow.symm rfl rfl]

/-- The outcome of a comparison is the order of the two numbers. -/
theorem fpCmp_order (fac fsrc : BitVec 64) (fps : Word) :
    fpCmp fac fsrc fps =
      (if value (significant fps fsrc) = value (significant fps fac) then fpsZ
        else if value (significant fps fsrc) < value (significant fps fac) then fpsN else 0,
        decide (value (significant fps fac) = 0 ∧ value (significant fps fsrc) = 0)) := by
  have hclean (v : BitVec 64) : fromFac (cleanFac (toFac v fps)) = clean (significant fps v) := by
    rw [fromFac_cleanFac, fromFac_toFac]
  have hvalue (v : BitVec 64) :
      value (fromFac (cleanFac (toFac v fps))) = value (significant fps v) := by
    rw [hclean, value_clean]
  have hcleaned (v : BitVec 64) : Clean (fromFac (cleanFac (toFac v fps))) := by
    rw [hclean]
    exact clean_clean _
  have hcmp := cmpClean_order (hcleaned fac) (hcleaned fsrc)
  rw [hvalue, hvalue] at hcmp
  exact hcmp

/-- The source of a comparison is below the accumulator. -/
def Below (fps : Word) (fac fsrc : BitVec 64) : Prop := (fpCmp fac fsrc fps).1 &&& fpsN ≠ 0

/-- The operands of a comparison are equal. -/
def Equal (fps : Word) (fac fsrc : BitVec 64) : Prop := (fpCmp fac fsrc fps).1 &&& fpsZ ≠ 0

theorem fpCmp_codes (fac fsrc : BitVec 64) (fps : Word) :
    (fpCmp fac fsrc fps).1 =
      if value (significant fps fsrc) = value (significant fps fac) then fpsZ
      else if value (significant fps fsrc) < value (significant fps fac) then fpsN else 0 := by
  rw [fpCmp_order]

theorem below_iff_value (fac fsrc : BitVec 64) (fps : Word) :
    Below fps fac fsrc ↔ value (significant fps fsrc) < value (significant fps fac) := by
  unfold Below
  rw [fpCmp_codes]
  split_ifs with heq hlt
  · exact iff_of_false (by decide) heq.not_lt
  · exact iff_of_true (by decide) hlt
  · exact iff_of_false (by decide) hlt

theorem equal_iff_value (fac fsrc : BitVec 64) (fps : Word) :
    Equal fps fac fsrc ↔ value (significant fps fsrc) = value (significant fps fac) := by
  unfold Equal
  rw [fpCmp_codes]
  split_ifs with heq hlt
  · exact iff_of_true (by decide) heq
  · exact iff_of_false (by decide) heq
  · exact iff_of_false (by decide) heq

/-- CMPf decides the order of the numbers: Z for equal ones, N for a source below the accumulator,
never both, and a clean zero exactly when both are zero. Swapping the operands swaps the strict
outcomes, and the order is transitive. -/
theorem cmp_decides_order (fps : Word) :
    (∀ fac fsrc, (Equal fps fac fsrc ↔ value (significant fps fsrc) = value (significant fps fac)) ∧
      (Below fps fac fsrc ↔ value (significant fps fsrc) < value (significant fps fac)) ∧
      ¬(Equal fps fac fsrc ∧ Below fps fac fsrc) ∧
      ((fpCmp fac fsrc fps).2 = true ↔
        value (significant fps fac) = 0 ∧ value (significant fps fsrc) = 0)) ∧
    (∀ fac fsrc, Below fps fac fsrc ↔ ¬Equal fps fsrc fac ∧ ¬Below fps fsrc fac) ∧
    (∀ a b c, Below fps a b → Below fps b c → Below fps a c) ∧
    ∀ a b c, Equal fps a b → Equal fps b c → Equal fps a c := by
  refine ⟨fun fac fsrc => ⟨equal_iff_value _ _ _, below_iff_value _ _ _, ?_, ?_⟩, ?_, ?_, ?_⟩
  · rw [equal_iff_value, below_iff_value]
    rintro ⟨heq, hlt⟩
    exact hlt.ne heq
  · rw [fpCmp_order]
    exact decide_eq_true_iff
  · intro fac fsrc
    rw [below_iff_value, below_iff_value, equal_iff_value]
    constructor
    · exact fun h => ⟨h.ne', h.not_gt⟩
    · rintro ⟨hne, hnlt⟩
      exact lt_of_le_of_ne (not_lt.mp hnlt) (Ne.symm hne)
  · intro a b c
    rw [below_iff_value, below_iff_value, below_iff_value]
    exact fun h h' => h'.trans h
  · intro a b c
    rw [equal_iff_value, equal_iff_value, equal_iff_value]
    exact fun h h' => h'.trans h

theorem minus_two_below_three :
    Below 0 0x4140000000000000 0xC100000000000000 := by
  have hzero : Below 0 0x4140000000000000 0x0000000000000001 := by
    unfold Below
    decide +kernel
  have hminus : Below 0 0x0000000000000001 0xC100000000000000 := by
    unfold Below
    decide +kernel
  exact (cmp_decides_order 0).2.2.1 _ _ _ hzero hminus

end Pdp11
