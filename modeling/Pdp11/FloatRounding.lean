import Pdp11.FractionBits
import Pdp11.Lib.Rounding
import Mathlib.Data.Rat.Floor
import Mathlib.Tactic.LinearCombination

/-! The numbers that packed accumulators stand for, and the rounding of a guarded fraction. -/

namespace Pdp11
open Rounding

/-- The bits of an accumulator that its precision uses: single precision has only the high 32. -/
def significant (fps : Word) (v : BitVec 64) : BitVec 64 :=
  if fps &&& fpsD = 0 then (v >>> 32) <<< 32 else v

def negative (v : BitVec 64) : Bool := v.getLsbD 63

def exponent (v : BitVec 64) : ℤ := (v.extractLsb' 55 8).toNat

/-- The fraction with its hidden bit, 56 bits long. -/
def significand (v : BitVec 64) : ℕ := 2 ^ 55 + v.toNat % 2 ^ 55

/-- A packed fraction lies in `[1/2, 1)`; exponent 0 stands for zero. -/
def magnitude (v : BitVec 64) : ℚ :=
  if exponent v = 0 then 0 else significand v * 2 ^ (exponent v - fpBias - 56)

def value (v : BitVec 64) : ℚ := if negative v then -magnitude v else magnitude v

def precision (fps : Word) : ℕ := if fps &&& fpsD = 0 then 24 else 56

def direction (fps : Word) : Direction :=
  if fps &&& fpsT = 0 then .nearestAway else .towardZero

/-- The exponent field of a packed number of value `x`. -/
def packedExponent (x : ℚ) : ℤ := Int.log 2 |x| + 1 + fpBias

theorem negative_eq (v : BitVec 64) : negative v = decide (2 ^ 63 ≤ v.toNat) := by
  have hv := v.isLt
  unfold negative
  rw [← BitVec.testBit_toNat, Nat.testBit_eq_decide_div_mod_eq, decide_eq_decide]
  omega

theorem exponent_eq (v : BitVec 64) : exponent v = (v.toNat / 2 ^ 55 % 2 ^ 8 : ℕ) := by
  unfold exponent
  rw [BitVec.extractLsb'_toNat, Nat.shiftRight_eq_div_pow]

theorem significant_toNat (fps : Word) (v : BitVec 64) :
    (significant fps v).toNat =
      if fps &&& fpsD = 0 then v.toNat / 2 ^ 32 * 2 ^ 32 else v.toNat := by
  unfold significant
  split_ifs
  · have hv := v.isLt
    rw [BitVec.toNat_shiftLeft, BitVec.toNat_ushiftRight, Nat.shiftLeft_eq,
      Nat.shiftRight_eq_div_pow, Nat.mod_eq_of_lt (by omega)]
  · rfl

theorem negative_significant (fps : Word) (v : BitVec 64) :
    negative (significant fps v) = negative v := by
  rw [negative_eq, negative_eq, decide_eq_decide, significant_toNat]
  split_ifs <;> omega

theorem exponent_significant (fps : Word) (v : BitVec 64) :
    exponent (significant fps v) = exponent v := by
  rw [exponent_eq, exponent_eq, significant_toNat]
  split_ifs <;> omega

/-- Unpacking reads the bits of the precision. -/
theorem toFac_toNat (v : BitVec 64) (fps : Word) :
    (toFac v fps).toNat = (significant fps v).toNat := by
  have hv := v.isLt
  have hh : ((v >>> 32).setWidth 32).toNat = v.toNat / 2 ^ 32 := by
    rw [BitVec.toNat_setWidth, BitVec.toNat_ushiftRight, Nat.shiftRight_eq_div_pow,
      Nat.mod_eq_of_lt (by omega)]
  rw [significant_toNat]
  unfold toFac Fpac.toNat
  dsimp only
  rw [hh]
  split_ifs
  · rw [show (0 : BitVec 32).toNat = 0 from rfl]
    omega
  · rw [BitVec.toNat_setWidth]
    omega

theorem getSign_eq (f : Fpac) : getSign f.h = negative (fromFac f) := by
  have hl := f.l.isLt
  rw [negative_eq, Fpac.fromFac_toNat]
  unfold getSign Fpac.toNat
  rw [← BitVec.testBit_toNat, Nat.testBit_eq_decide_div_mod_eq, decide_eq_decide]
  omega

theorem getExp_eq (f : Fpac) : getExp f.h = exponent (fromFac f) := by
  have hl := f.l.isLt
  rw [exponent_eq, Fpac.fromFac_toNat]
  unfold getExp Fpac.toNat
  rw [BitVec.extractLsb'_toNat, Nat.shiftRight_eq_div_pow]
  omega

theorem fromFac_toFac (v : BitVec 64) (fps : Word) : fromFac (toFac v fps) = significant fps v := by
  rw [← BitVec.toNat_inj, Fpac.fromFac_toNat, toFac_toNat]

theorem getExp_toFac (v : BitVec 64) (fps : Word) : getExp (toFac v fps).h = exponent v := by
  rw [getExp_eq, fromFac_toFac, exponent_significant]

theorem getSign_toFac (v : BitVec 64) (fps : Word) : getSign (toFac v fps).h = negative v := by
  rw [getSign_eq, fromFac_toFac, negative_significant]

theorem getSign_xor_toFac (a b : BitVec 64) (fps : Word) :
    getSign ((toFac a fps).h ^^^ (toFac b fps).h) = (negative a ^^ negative b) := by
  rw [← getSign_toFac a fps, ← getSign_toFac b fps]
  exact BitVec.getLsbD_xor

theorem exponent_bounds (v : BitVec 64) : 0 ≤ exponent v ∧ exponent v < 256 := by
  have h := (v.extractLsb' 55 8).isLt
  unfold exponent
  omega

theorem significand_bounds (v : BitVec 64) : 2 ^ 55 ≤ significand v ∧ significand v < 2 ^ 56 := by
  have h : v.toNat % 2 ^ 55 < 2 ^ 55 := Nat.mod_lt _ (by decide)
  unfold significand
  omega

/-- The exponent of a number is that of the packed form that stands for it. -/
theorem packedExponent_eq {m : ℕ} (e : ℤ) (hlo : 2 ^ 55 ≤ m) (hhi : m < 2 ^ 56) :
    packedExponent (m * 2 ^ (e - fpBias - 56)) = e := by
  have hm : (0 : ℚ) < m := by exact_mod_cast (by omega : 0 < m)
  have hlog : Int.log 2 (m : ℚ) = 55 := by
    apply log_eq
    · exact_mod_cast hlo
    · exact_mod_cast hhi
  unfold packedExponent
  rw [abs_of_pos (by positivity), log_mul_zpow hm, hlog]
  ring

theorem magnitude_eq {v : BitVec 64} (h : exponent v ≠ 0) :
    magnitude v = significand v * 2 ^ (exponent v - fpBias - 56) := by
  unfold magnitude
  rw [if_neg h]

theorem magnitude_nonneg (v : BitVec 64) : 0 ≤ magnitude v := by
  unfold magnitude
  split_ifs <;> positivity

theorem magnitude_pos {v : BitVec 64} (h : exponent v ≠ 0) : 0 < magnitude v := by
  have hs := (significand_bounds v).1
  have hs' : (0 : ℚ) < significand v := by exact_mod_cast (by omega : 0 < significand v)
  rw [magnitude_eq h]
  positivity

/-- The fraction that an operation works on, with its three guard bits. -/
theorem toNat_guarded (v : BitVec 64) (fps : Word) :
    (toFac v fps).getFrac.lshGuard.toNat = significand (significant fps v) * 8 := by
  rw [Fpac.toNat_getFrac_lshGuard, toFac_toNat]
  rfl

/-- The sign, exponent and fraction fields do not overlap. -/
theorem packed_toNat (s e x : BitVec 32) :
    ((s &&& fpSign) ||| ((e &&& 0o377) <<< 23) ||| (x &&& fpFrach)).toNat =
      s.toNat / 2 ^ 31 * 2 ^ 31 + e.toNat % 2 ^ 8 * 2 ^ 23 + x.toNat % 2 ^ 23 := by
  have hfields : (s &&& fpSign) ||| ((e &&& 0o377) <<< 23) ||| (x &&& fpFrach) =
      (s.extractLsb' 31 1 ++ e.setWidth 8) ++ x.setWidth 23 := by
    ext i hi
    simp only [← BitVec.getLsbD_eq_getElem, BitVec.getLsbD_or, BitVec.getLsbD_and,
      BitVec.getLsbD_shiftLeft, BitVec.getLsbD_append, BitVec.getLsbD_extractLsb',
      BitVec.getLsbD_setWidth]
    interval_cases i <;> simp
  have hx : x.toNat % 2 ^ 23 < 2 ^ 23 := Nat.mod_lt _ (by decide)
  have he : e.toNat % 2 ^ 8 < 2 ^ 8 := Nat.mod_lt _ (by decide)
  have hs := s.isLt
  rw [hfields, BitVec.toNat_append, BitVec.toNat_append, BitVec.extractLsb'_toNat,
    BitVec.toNat_setWidth, BitVec.toNat_setWidth, ← Nat.shiftLeft_add_eq_or_of_lt he,
    ← Nat.shiftLeft_add_eq_or_of_lt hx, Nat.shiftLeft_eq, Nat.shiftLeft_eq,
    Nat.shiftRight_eq_div_pow]
  omega

/-- The guard bits that the precision drops from a fraction. -/
def guardBits (fps : Word) : ℕ := 59 - precision fps

theorem precision_cases (fps : Word) :
    (fps &&& fpsD = 0 ∧ precision fps = 24 ∧ guardBits fps = 35) ∨
      (fps &&& fpsD ≠ 0 ∧ precision fps = 56 ∧ guardBits fps = 3) := by
  unfold guardBits precision
  split_ifs with h
  · exact .inl ⟨h, rfl, rfl⟩
  · exact .inr ⟨h, rfl, rfl⟩

theorem guardBits_places (fps : Word) :
    precision fps + guardBits fps = 59 ∧ 3 ≤ guardBits fps := by
  rcases precision_cases fps with ⟨-, hp, hg⟩ | ⟨-, hp, hg⟩ <;> omega

/-- Half of the last place added at the guard bits, and a carry out of the fraction put back. -/
def guardRound (fps : Word) (exp : ℤ) (frac : Fpac) : Fpac × ℤ :=
  if fps &&& fpsT = 0 then
    let frac := Fpac.add (if fps &&& fpsD ≠ 0 then .droundGuard else .froundGuard) frac
    if frac.h.getLsbD carryBit then (frac.rsh1, exp + 1) else (frac, exp)
  else (frac, exp)

/-- The fields of the packed result. -/
def pack (fac : Fpac) (fe : Fpac × ℤ) : Fpac :=
  ⟨fe.1.rshGuard.l, (fac.h &&& fpSign) ||| (((BitVec.ofInt 32 fe.2) &&& 0o377) <<< 23) |||
    (fe.1.rshGuard.h &&& fpFrach)⟩

/-- The range checks on a packed result. -/
def packChecked (fac : Fpac) (fe : Fpac × ℤ) (fps : Word) (fec : ℕ) : FpResult Fpac :=
  if fe.2 > 0o377 then
    ⟨if (fpNotrap fps fecOvflo fec).1 then .zero else pack fac fe, true, (fpNotrap fps fecOvflo fec).2⟩
  else if fe.2 ≤ 0 then
    ⟨if (fpNotrap fps fecUnflo fec).1 then .zero else pack fac fe, false,
      (fpNotrap fps fecUnflo fec).2⟩
  else ⟨pack fac fe, false, fec⟩

theorem roundAndPack_true (fac : Fpac) (exp : ℤ) (frac : Fpac) (fps : Word) (fec : ℕ) :
    roundAndPack fac exp frac true fps fec = packChecked fac (guardRound fps exp frac) fps fec := by
  have hfe : (if (true : Bool) = true ∧ fps &&& fpsT = 0 then
      (if (Fpac.add (if fps &&& fpsD ≠ 0 then .droundGuard else .froundGuard) frac).h.getLsbD
          carryBit then
        ((Fpac.add (if fps &&& fpsD ≠ 0 then .droundGuard else .froundGuard) frac).rsh1, exp + 1)
        else (Fpac.add (if fps &&& fpsD ≠ 0 then .droundGuard else .froundGuard) frac, exp))
      else (frac, exp)) = guardRound fps exp frac := by
    unfold guardRound
    simp only [true_and]
  unfold roundAndPack packChecked
  dsimp only
  rw [hfe]
  rfl

theorem roundAndPack_false (fac : Fpac) (exp : ℤ) (frac : Fpac) (fps : Word) (fec : ℕ) :
    roundAndPack fac exp frac false fps fec = packChecked fac (frac, exp) fps fec := by
  unfold roundAndPack packChecked
  simp only [Bool.false_eq_true, false_and, if_false]
  rfl

theorem roundAndPack_eq (fac : Fpac) (exp : ℤ) (frac : Fpac) (fps : Word) (fec : ℕ)
    (h1 : 1 ≤ (guardRound fps exp frac).2) (h2 : (guardRound fps exp frac).2 ≤ 255) :
    roundAndPack fac exp frac true fps fec =
      ⟨pack fac (guardRound fps exp frac), false, fec⟩ := by
  rw [roundAndPack_true, packChecked, if_neg (by omega), if_neg (by omega)]

/-- The exponent field of a packed result. -/
theorem getExp_pack (fac : Fpac) (fe : Fpac × ℤ) (he : 1 ≤ fe.2) (he' : fe.2 ≤ 255) :
    getExp (pack fac fe).h = fe.2 := by
  have hs := fac.h.isLt
  have hofInt : (BitVec.ofInt 32 fe.2).toNat % 2 ^ 8 = fe.2.toNat := by
    rw [BitVec.toNat_ofInt]
    omega
  unfold getExp pack
  rw [BitVec.extractLsb'_toNat, Nat.shiftRight_eq_div_pow, packed_toNat, hofInt]
  omega

theorem guard_toNat (fps : Word) :
    (if fps &&& fpsD ≠ 0 then Fpac.droundGuard else .froundGuard).toNat =
      Direction.nearestAway.half (guardBits fps) := by
  rcases precision_cases fps with ⟨hd, -, hg⟩ | ⟨hd, -, hg⟩
  · rw [if_neg (not_not.mpr hd), hg]
    rfl
  · rw [if_pos hd, hg]
    rfl

/-- Adding half of the last place rounds the fraction, its exponent adjusted for a carry. -/
theorem guardRound_spec (fps : Word) (exp : ℤ) {frac : Fpac} (hlo : 2 ^ 58 ≤ frac.toNat)
    (hhi : frac.toNat < 2 ^ 59) :
    2 ^ 58 ≤ (guardRound fps exp frac).1.toNat ∧ (guardRound fps exp frac).1.toNat < 2 ^ 59 ∧
      (((guardRound fps exp frac).1.toNat / 2 ^ guardBits fps : ℕ) : ℚ) *
          2 ^ (guardRound fps exp frac).2 =
        ((frac.toNat + (direction fps).half (guardBits fps)) / 2 ^ guardBits fps : ℕ) *
          2 ^ exp := by
  unfold guardRound direction
  by_cases ht : fps &&& fpsT = 0
  · have hhalf : Direction.nearestAway.half (guardBits fps) ≤ 2 ^ 34 := by
      rcases precision_cases fps with ⟨-, -, hg⟩ | ⟨-, -, hg⟩ <;> rw [hg] <;> decide
    have hsum := Fpac.toNat_add
      (if fps &&& fpsD ≠ 0 then Fpac.droundGuard else .froundGuard) frac
    rw [guard_toNat, Nat.mod_eq_of_lt (by omega)] at hsum
    simp only [if_pos ht]
    generalize Fpac.add (if fps &&& fpsD ≠ 0 then Fpac.droundGuard else .froundGuard) frac = sum
      at hsum ⊢
    by_cases hcarry : sum.h.getLsbD carryBit = true
    · have hsum59 := (Fpac.carryBit_iff (by omega)).mp hcarry
      -- the sum is just over a power of two: only its leading bit is kept
      have hquot : (frac.toNat + Direction.nearestAway.half (guardBits fps)) / 2 ^ guardBits fps =
          sum.toNat / 2 / 2 ^ guardBits fps * 2 := by
        rw [← hsum]
        rcases precision_cases fps with ⟨-, -, hg⟩ | ⟨-, -, hg⟩
        · rw [hg] at hsum ⊢
          simp only [Direction.half] at hsum
          omega
        · rw [hg] at hsum ⊢
          simp only [Direction.half] at hsum
          omega
      rw [if_pos hcarry, Fpac.toNat_rsh1]
      refine ⟨by omega, by omega, ?_⟩
      rw [hquot, zpow_add_one₀ two_ne_zero]
      push_cast
      ring
    · have hsum59 : ¬ 2 ^ 59 ≤ sum.toNat := fun h => hcarry ((Fpac.carryBit_iff (by omega)).mpr h)
      rw [if_neg hcarry]
      dsimp only
      rw [← hsum]
      exact ⟨by omega, Nat.lt_of_not_le hsum59, rfl⟩
  · rw [if_neg ht, if_neg ht, Direction.half, Nat.add_zero]
    exact ⟨hlo, hhi, rfl⟩

/-- The fields of a packed result, read back. -/
theorem pack_fields (fac : Fpac) {frac : Fpac} {e : ℤ} (fps : Word) (hlo : 2 ^ 58 ≤ frac.toNat)
    (hhi : frac.toNat < 2 ^ 59) (he : 1 ≤ e) (he' : e ≤ 255) :
    negative (fromFac (pack fac (frac, e))) = getSign fac.h ∧
      exponent (fromFac (pack fac (frac, e))) = e ∧
      significand (significant fps (fromFac (pack fac (frac, e)))) =
        frac.toNat / 2 ^ guardBits fps * 2 ^ (guardBits fps - 3) := by
  have hfrac : frac.rshGuard.toNat = frac.toNat / 2 ^ 3 := Fpac.toNat_rshK frac (by decide)
  have hl := frac.rshGuard.l.isLt
  have hs := fac.h.isLt
  have hofInt : (BitVec.ofInt 32 e).toNat % 2 ^ 8 = e.toNat := by
    rw [BitVec.toNat_ofInt]
    omega
  have hpack : (fromFac (pack fac (frac, e))).toNat =
      fac.h.toNat / 2 ^ 31 * 2 ^ 63 + e.toNat * 2 ^ 55 + frac.toNat / 2 ^ 3 % 2 ^ 55 := by
    rw [Fpac.fromFac_toNat, ← hfrac]
    unfold Fpac.toNat pack
    rw [packed_toNat, hofInt]
    dsimp only
    omega
  refine ⟨?_, ?_, ?_⟩
  · rw [negative_eq, hpack]
    unfold getSign
    rw [← BitVec.testBit_toNat, Nat.testBit_eq_decide_div_mod_eq, decide_eq_decide]
    omega
  · rw [exponent_eq, hpack]
    omega
  · unfold significand
    rw [significant_toNat, hpack]
    rcases precision_cases fps with ⟨hd, -, hg⟩ | ⟨hd, -, hg⟩
    · rw [if_pos hd, hg]
      omega
    · rw [if_neg hd, hg]
      omega

/-- A result without overflow or posted exception, its sign and its magnitude in the precision. -/
structure Delivers (fps : Word) (r : FpResult (BitVec 64)) (sign : Bool) (mag : ℚ) : Prop where
  v : r.v = false
  fec : r.fec = 0
  sign : negative r.val = sign
  magnitude : magnitude (significant fps r.val) = mag

/-- The packed form of a result. -/
def FpResult.packed (r : FpResult Fpac) : FpResult (BitVec 64) := ⟨fromFac r.val, r.v, r.fec⟩

/-- A guarded fraction is packed correctly rounded. -/
theorem roundAndPack_delivers (fac : Fpac) (exp : ℤ) {frac : Fpac} (fps : Word)
    (hlo : 2 ^ 58 ≤ frac.toNat) (hhi : frac.toNat < 2 ^ 59) {rounded : ℚ}
    (hrounded : rounded =
      roundMagnitude (precision fps) (direction fps) ((frac.toNat : ℚ) * 2 ^ (exp - fpBias - 59)))
    (h1 : 1 ≤ packedExponent rounded) (h2 : packedExponent rounded ≤ 255) :
    Delivers fps (roundAndPack fac exp frac true fps 0).packed (getSign fac.h) rounded := by
  obtain ⟨hlo', hhi', hquot⟩ := guardRound_spec fps exp hlo hhi
  generalize hfe : guardRound fps exp frac = fe at hlo' hhi' hquot
  obtain ⟨f, e⟩ := fe
  dsimp only at hlo' hhi' hquot
  have hplaces := guardBits_places fps
  have hround := roundMagnitude_of_prefix (K := ℚ) (direction fps) (f := frac.toNat) (j := 0)
    (g := guardBits fps) (p := precision fps) (x := (frac.toNat : ℚ)) (by omega) (one_dvd _) le_rfl
    (by simp) (by rw [hplaces.1]; omega) (by rw [hplaces.1]; exact hhi)
  have hfrac : (0 : ℚ) < frac.toNat := by exact_mod_cast (by omega : 0 < frac.toNat)
  -- the rounded number in the fields of the packed result
  have hpacked : rounded = ((f.toNat / 2 ^ guardBits fps * 2 ^ (guardBits fps - 3) : ℕ) : ℚ) *
      2 ^ (e - fpBias - 56) := by
    have hscale : (2 : ℚ) ^ (e - fpBias - 56) = 2 ^ e * 2 ^ (-fpBias - 59 : ℤ) * 2 ^ 3 := by
      rw [← zpow_natCast, ← zpow_add₀ two_ne_zero, ← zpow_add₀ two_ne_zero]
      congr 1
      push_cast
      ring
    have hscale' : (2 : ℚ) ^ (exp - fpBias - 59) = 2 ^ exp * 2 ^ (-fpBias - 59 : ℤ) := by
      rw [← zpow_add₀ two_ne_zero]
      congr 1
      ring
    have hguard : (2 : ℚ) ^ guardBits fps = 2 ^ (guardBits fps - 3) * 2 ^ 3 := by
      rw [← pow_add, Nat.sub_add_cancel hplaces.2]
    rw [hrounded, roundMagnitude_mul_zpow _ _ hfrac, hround, hscale, hscale', hguard]
    push_cast at hquot ⊢
    linear_combination (-(2 : ℚ) ^ (guardBits fps - 3) * 2 ^ 3 * 2 ^ (-fpBias - 59 : ℤ)) * hquot
  have hexp : packedExponent rounded = e := by
    have hsig : 2 ^ 55 ≤ f.toNat / 2 ^ guardBits fps * 2 ^ (guardBits fps - 3) ∧
        f.toNat / 2 ^ guardBits fps * 2 ^ (guardBits fps - 3) < 2 ^ 56 := by
      rcases precision_cases fps with ⟨-, -, hg⟩ | ⟨-, -, hg⟩ <;> rw [hg] <;> omega
    rw [hpacked]
    exact packedExponent_eq e hsig.1 hsig.2
  rw [hexp] at h1 h2
  obtain ⟨hneg, hexponent, hsig⟩ := pack_fields fac fps hlo' hhi' h1 h2
  rw [roundAndPack_eq fac exp frac fps 0 (by rw [hfe]; exact h1) (by rw [hfe]; exact h2), hfe]
  unfold FpResult.packed
  refine ⟨rfl, rfl, hneg, ?_⟩
  dsimp only
  rw [magnitude_eq (by rw [exponent_significant, hexponent]; omega), hsig, exponent_significant,
    hexponent, hpacked]

/-- A fraction cut off within its guard bits is packed as the exact number would be. -/
theorem roundAndPack_prefix (fac : Fpac) (exp : ℤ) {frac : Fpac} (fps : Word) {j : ℕ} {x : ℚ}
    (hlo : 2 ^ 58 ≤ frac.toNat) (hhi : frac.toNat < 2 ^ 59) (hj : j < guardBits fps)
    (hdvd : 2 ^ j ∣ frac.toNat) (hx : (frac.toNat : ℚ) ≤ x) (hx' : x < frac.toNat + 2 ^ j)
    {rounded : ℚ}
    (hrounded : rounded =
      roundMagnitude (precision fps) (direction fps) (x * 2 ^ (exp - fpBias - 59)))
    (h1 : 1 ≤ packedExponent rounded) (h2 : packedExponent rounded ≤ 255) :
    Delivers fps (roundAndPack fac exp frac true fps 0).packed (getSign fac.h) rounded := by
  apply roundAndPack_delivers fac exp fps hlo hhi _ h1 h2
  have hplaces := guardBits_places fps
  have hfrac : (0 : ℚ) < frac.toNat := by exact_mod_cast (by omega : 0 < frac.toNat)
  have hbot : 2 ^ (precision fps + guardBits fps) ≤ frac.toNat * 2 := by
    rw [hplaces.1]
    omega
  have htop : frac.toNat < 2 ^ (precision fps + guardBits fps) := by
    rw [hplaces.1]
    exact hhi
  rw [hrounded, roundMagnitude_mul_zpow _ _ hfrac,
    roundMagnitude_mul_zpow _ _ (lt_of_lt_of_le hfrac hx),
    roundMagnitude_of_prefix (direction fps) hj hdvd hx hx' hbot htop,
    roundMagnitude_of_prefix (direction fps) (j := 0) (g := guardBits fps) (by omega) (one_dvd _)
      le_rfl (by simp) hbot htop]

/-- The one shift that sets the hidden bit of a product or quotient. -/
def normalizeOnce (frac : Fpac) (exp : ℤ) : Fpac × ℤ :=
  if frac.h.getLsbD hiddenBit then (frac, exp) else (frac.lsh1, exp - 1)

/-- The bit shifted in is a zero where the exact number has its next bit: one more place is
unreliable, and the guard bits cover it. -/
theorem normalizeOnce_delivers (fac : Fpac) (exp : ℤ) {frac : Fpac} (fps : Word) {j : ℕ} {x : ℚ}
    (hlo : 2 ^ 57 ≤ frac.toNat) (hhi : frac.toNat < 2 ^ 59) (hj : j + 1 < guardBits fps)
    (hdvd : 2 ^ j ∣ frac.toNat) (hx : (frac.toNat : ℚ) ≤ x) (hx' : x < frac.toNat + 2 ^ j)
    {rounded : ℚ}
    (hrounded : rounded =
      roundMagnitude (precision fps) (direction fps) (x * 2 ^ (exp - fpBias - 59)))
    (h1 : 1 ≤ packedExponent rounded) (h2 : packedExponent rounded ≤ 255) :
    Delivers fps (roundAndPack fac (normalizeOnce frac exp).2 (normalizeOnce frac exp).1 true fps
      0).packed (getSign fac.h) rounded := by
  unfold normalizeOnce
  by_cases hhidden : frac.h.getLsbD hiddenBit = true
  · have hbot := (Fpac.hiddenBit_iff hhi).mp hhidden
    rw [if_pos hhidden]
    exact roundAndPack_prefix fac exp fps hbot hhi (by omega) hdvd hx hx' hrounded h1 h2
  · have hbot : ¬ 2 ^ 58 ≤ frac.toNat := fun h => hhidden ((Fpac.hiddenBit_iff hhi).mpr h)
    have hshift : frac.lsh1.toNat = frac.toNat * 2 := by
      rw [Fpac.toNat_lsh1, Nat.mod_eq_of_lt (by omega)]
    have hscale : x * 2 * (2 : ℚ) ^ (exp - 1 - fpBias - 59) = x * 2 ^ (exp - fpBias - 59) := by
      rw [mul_assoc, ← zpow_one_add₀ two_ne_zero]
      congr 2
      ring
    rw [if_neg hhidden]
    dsimp only
    apply roundAndPack_prefix (j := j + 1) (x := x * 2) fac (exp - 1) fps (by omega) (by omega) hj
      _ _ _ (by rw [hscale, hrounded]) h1 h2
    · rw [hshift, pow_succ]
      exact Nat.mul_dvd_mul_right hdvd 2
    · rw [hshift]
      push_cast
      linarith
    · rw [hshift, pow_succ]
      push_cast
      linarith

end Pdp11
