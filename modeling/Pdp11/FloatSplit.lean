import Pdp11.FloatAdd
import Pdp11.FloatMultiply
import Pdp11.Lib.BitMask
import Mathlib.Algebra.Order.Floor.Semifield

/-! The split of a single-precision product into an integer and a fraction. -/

namespace Pdp11
open Rounding

/-! ## The product -/

/-- A single-precision significand has zeros below its 24 bits. -/
theorem significand_single {fps : Word} (hd : fps &&& fpsD = 0) (v : BitVec 64) :
    2 ^ 32 ∣ significand (significant fps v) := by
  unfold significand
  rw [significant_toNat, if_pos hd]
  omega

theorem normalizeOnce_shifted {frac : Fpac} (exp : ℤ) (h : frac.toNat < 2 ^ 59)
    (hlo : 2 ^ 57 ≤ frac.toNat) :
    ShiftedLeft (frac, exp) (normalizeOnce frac exp) ∧ 2 ^ 58 ≤ (normalizeOnce frac exp).1.toNat := by
  unfold normalizeOnce
  split_ifs with hhidden
  · exact ⟨.refl h, (Fpac.hiddenBit_iff h).mp hhidden⟩
  · have hclear : frac.toNat < 2 ^ 58 :=
      Nat.not_le.mp fun h' => hhidden ((Fpac.hiddenBit_iff h).mpr h')
    have hshift : frac.lsh1.toNat = frac.toNat * 2 := by
      rw [Fpac.toNat_lsh1, Nat.mod_eq_of_lt (by omega)]
    refine ⟨⟨1, by rw [hshift, pow_one], rfl, ?_⟩, ?_⟩
    · dsimp only
      omega
    · dsimp only
      omega

/-- A normalized fraction with its exponent, and the number it stands for. -/
structure Normal (fe : Fpac × ℤ) (x : ℚ) : Prop where
  lo : 2 ^ 58 ≤ fe.1.toNat
  hi : fe.1.toNat < 2 ^ 59
  value : (fe.1.toNat : ℚ) * 2 ^ (fe.2 - fpBias - 59) = x

/-- The product of two single-precision fractions is exact. -/
theorem mulFrac_normal {fps : Word} (hd : fps &&& fpsD = 0) {fac fsrc : BitVec 64}
    (hfac : exponent fac ≠ 0) (hfsrc : exponent fsrc ≠ 0) :
    Normal (mulFrac (toFac fac fps) (toFac fsrc fps))
      (magnitude (significant fps fac) * magnitude (significant fps fsrc)) := by
  have hfa : (toFac fac fps).getFrac.toNat = significand (significant fps fac) := by
    rw [Fpac.toNat_getFrac, toFac_toNat]
    rfl
  have hfb := toNat_guarded fsrc fps
  have hs := significand_bounds (significant fps fac)
  have ht := significand_bounds (significant fps fsrc)
  have hproduct := fracMulfp11_toNat (toFac fac fps).getFrac (toFac fsrc fps).getFrac
    (by omega) (by omega)
  rw [hfa, hfb] at hproduct
  have hbounds := product_bounds hs ht
  rw [← hproduct] at hbounds
  have hmul : mulFrac (toFac fac fps) (toFac fsrc fps) =
      normalizeOnce (fracMulfp11 (toFac fac fps).getFrac (toFac fsrc fps).getFrac)
        (exponent fac + exponent fsrc - fpBias) := by
    unfold mulFrac normalizeOnce
    dsimp only
    rw [getExp_toFac, getExp_toFac]
  obtain ⟨hshift, hlo⟩ := normalizeOnce_shifted (exponent fac + exponent fsrc - fpBias) hbounds.2
    hbounds.1
  rw [hmul]
  refine ⟨hlo, hshift.lt, ?_⟩
  rw [hshift.value_eq]
  have hexact := magnitude_mul (significant fps fac) (significant fps fsrc)
    (by rw [exponent_significant]; exact hfac) (by rw [exponent_significant]; exact hfsrc)
  rw [exponent_significant, exponent_significant] at hexact
  -- the 56 bits dropped are zeros
  have hdvd : 2 ^ 56 ∣ significand (significant fps fsrc) * 8 * significand (significant fps fac) := by
    obtain ⟨m, hm⟩ := significand_single hd fac
    obtain ⟨n, hn⟩ := significand_single hd fsrc
    refine ⟨n * m * 2 ^ 11, ?_⟩
    rw [hm, hn]
    ring
  rw [hexact, hproduct, Nat.cast_div hdvd (by norm_num)]

/-! ## The mask -/

namespace Fpac

variable (f m : Fpac)

/-- The bits of a fraction under a mask. -/
def masked : Fpac := ⟨f.l &&& m.l, f.h &&& m.h⟩

/-- The bits of a fraction outside a mask. -/
def unmasked : Fpac := ⟨f.l &&& ~~~m.l, f.h &&& ~~~m.h⟩

theorem masked_add_unmasked : (f.masked m).toNat + (f.unmasked m).toNat = f.toNat := by
  have hl := BitMask.toNat_and_add_and_not f.l m.l
  have hh := BitMask.toNat_and_add_and_not f.h m.h
  unfold masked unmasked toNat
  dsimp only
  omega

theorem masked_toNat {k : ℕ} (h : m.toNat = 2 ^ k - 1) : (f.masked m).toNat = f.toNat % 2 ^ k := by
  have hbits : (f.masked m).bits = f.bits &&& m.bits := by
    unfold bits masked
    exact BitVec.and_append.symm
  rw [← toNat_bits, hbits, BitVec.toNat_and, toNat_bits, toNat_bits, h,
    Nat.and_two_pow_sub_one_eq_mod]

end Fpac

/-- The mask covers the places below the binary point. -/
theorem fmask_toNat {n : ℕ} (hn : n ≤ 59) : (Fpac.fmask.rshV n).toNat = 2 ^ (59 - n) - 1 := by
  have hfull : Fpac.fmask.toNat = 2 ^ 59 - 1 := rfl
  have hsplit : 2 ^ 59 = 2 ^ n * 2 ^ (59 - n) := by
    rw [← pow_add, Nat.add_sub_cancel' hn]
  have hpos : 0 < 2 ^ n := Nat.two_pow_pos n
  have hpos' : 0 < 2 ^ (59 - n) := Nat.two_pow_pos _
  rw [Fpac.toNat_rshV _ (by omega), hfull, hsplit]
  apply Nat.div_eq_of_lt_le
  · rw [Nat.sub_mul, Nat.one_mul, Nat.mul_comm]
    exact Nat.sub_le_sub_left hpos _
  · rw [Nat.sub_add_cancel hpos', Nat.mul_comm (2 ^ (59 - n))]
    exact Nat.sub_lt (Nat.mul_pos hpos hpos') Nat.one_pos

/-! ## The two parts -/

theorem Normal.pos {fe : Fpac × ℤ} {x : ℚ} (h : Normal fe x) : 0 < x := by
  have hlo := h.lo
  have hfrac : (0 : ℚ) < fe.1.toNat := by exact_mod_cast (by omega : 0 < fe.1.toNat)
  rw [← h.value]
  positivity

/-- Truncation drops the 35 guard bits of a normalized fraction. -/
theorem Normal.truncated {fe : Fpac × ℤ} {x : ℚ} (h : Normal fe x) :
    roundMagnitude 24 .towardZero x =
      ((fe.1.toNat / 2 ^ 35 * 2 ^ 32 : ℕ) : ℚ) * 2 ^ (fe.2 - fpBias - 56) := by
  have hlo := h.lo
  have hpos : (0 : ℚ) < fe.1.toNat := by exact_mod_cast (by omega : 0 < fe.1.toNat)
  have hround := roundMagnitude_of_prefix (K := ℚ) .towardZero (f := fe.1.toNat) (j := 0) (g := 35)
    (p := 24) (x := (fe.1.toNat : ℚ)) (by omega) (one_dvd _) le_rfl (by simp) (by omega) h.hi
  have hscale : (2 : ℚ) ^ (fe.2 - fpBias - 56) = 2 ^ (fe.2 - fpBias - 59) * 2 ^ 3 := by
    rw [← zpow_natCast, ← zpow_add₀ two_ne_zero]
    congr 1
    push_cast
    ring
  rw [← h.value, roundMagnitude_mul_zpow _ _ hpos, hround, hscale]
  simp only [Direction.half, Nat.add_zero]
  push_cast
  ring

theorem Normal.packedExponent {fe : Fpac × ℤ} {x : ℚ} (h : Normal fe x) :
    packedExponent (roundMagnitude 24 .towardZero x) = fe.2 := by
  have hlo := h.lo
  have hhi := h.hi
  rw [h.truncated]
  exact packedExponent_eq fe.2 (by omega) (by omega)

/-- Packing without rounding truncates. -/
theorem packed_truncates {fps : Word} (hd : fps &&& fpsD = 0) (sign : Fpac) {fe : Fpac × ℤ} {x : ℚ}
    (h : Normal fe x) (hlo : 1 ≤ fe.2) (hhi : fe.2 ≤ 255) :
    negative (fromFac (pack sign fe)) = getSign sign.h ∧
      magnitude (significant fps (fromFac (pack sign fe))) = roundMagnitude 24 .towardZero x := by
  obtain ⟨hneg, hexp, hsig⟩ := pack_fields sign fps h.lo h.hi hlo hhi
  have hguard : guardBits fps = 35 := by
    unfold guardBits precision
    rw [if_pos hd]
  refine ⟨hneg, ?_⟩
  rw [magnitude_eq (by rw [exponent_significant, hexp]; omega), exponent_significant, hexp, hsig,
    hguard, h.truncated]

/-- One part of a split product: all zero bits, or a number with the sign of the product. -/
structure Part (fps : Word) (sign : Bool) (r : BitVec 64) (x : ℚ) : Prop where
  zero : x = 0 → r = 0
  sign : x ≠ 0 → negative r = sign
  magnitude : magnitude (significant fps r) = x

/-- A part that the exponent field can hold. -/
def InRange (x : ℚ) : Prop := x = 0 ∨ (1 ≤ packedExponent x ∧ packedExponent x ≤ 255)

theorem Part.of_zero (fps : Word) (sign : Bool) : Part fps sign (fromFac .zero) 0 := by
  have hzero : fromFac .zero = 0 := rfl
  have hfield : exponent (significant fps 0) = 0 := by
    rw [exponent_significant]
    rfl
  rw [hzero]
  exact ⟨fun _ => rfl, fun h => absurd rfl h, if_pos hfield⟩

theorem Part.of_delivers {fps : Word} {r : FpResult (BitVec 64)} {sign : Bool} {x : ℚ}
    (h : Delivers fps r sign x) (hx : x ≠ 0) : Part fps sign r.val x :=
  ⟨fun h0 => absurd h0 hx, fun _ => h.sign, h.magnitude⟩

theorem precision_single {fps : Word} (hd : fps &&& fpsD = 0) : precision fps = 24 := if_pos hd

/-- A fraction rounded and packed. -/
theorem rounded_part {fps : Word} (hd : fps &&& fpsD = 0) (sign : Fpac) {fe : Fpac × ℤ} {x : ℚ}
    (h : Normal fe x) (hx : 0 < x) (hrange : InRange (roundMagnitude 24 (direction fps) x)) :
    let r := roundAndPack sign fe.2 fe.1 true fps 0
    Part fps (getSign sign.h) (fromFac r.val) (roundMagnitude 24 (direction fps) x) ∧
      r.v = false ∧ r.fec = 0 := by
  have hpos := roundMagnitude_pos (direction fps) (p := 24) (by decide) hx
  obtain ⟨h1, h2⟩ := hrange.resolve_left hpos.ne'
  have hrounded : roundMagnitude 24 (direction fps) x = roundMagnitude (precision fps) (direction fps)
      ((fe.1.toNat : ℚ) * 2 ^ (fe.2 - fpBias - 59)) := by
    rw [precision_single hd, h.value]
  have hdelivers := roundAndPack_delivers sign fe.2 fps h.lo h.hi hrounded h1 h2
  exact ⟨.of_delivers hdelivers hpos.ne', hdelivers.v, hdelivers.fec⟩

/-- The fraction part of a product with `n` integer places. -/
theorem modFraction_part {fps : Word} (hd : fps &&& fpsD = 0) (sign frac : Fpac) {n : ℕ} (hn : n ≤ 59)
    (hfrac : frac.toNat < 2 ^ (59 - n)) {x : ℚ} (hx : (frac.toNat : ℚ) / 2 ^ (59 - n) = x)
    (hrange : InRange (roundMagnitude 24 (direction fps) x)) :
    Part fps (getSign sign.h) (fromFac (modFraction sign frac n fps).val)
        (roundMagnitude 24 (direction fps) x) ∧
      (modFraction sign frac n fps).v = false ∧ (modFraction sign frac n fps).fec = 0 := by
  have hsplit : 2 ^ 59 = 2 ^ (59 - n) * 2 ^ n := by
    rw [← pow_add, Nat.sub_add_cancel hn]
  by_cases hzero : frac.toNat = 0
  · have hx0 : x = 0 := by rw [← hx, hzero, Nat.cast_zero, zero_div]
    unfold modFraction
    rw [if_pos ((Fpac.isZero_iff frac).mpr hzero), hx0, roundMagnitude_zero]
    exact ⟨.of_zero fps _, rfl, rfl⟩
  · -- the fraction moves up to the binary point, and is normalized from there
    have hshift : (frac.lshV n).toNat = frac.toNat * 2 ^ n := by
      have hlt : frac.toNat * 2 ^ n < 2 ^ 59 := by
        rw [hsplit]
        exact Nat.mul_lt_mul_of_pos_right hfrac (Nat.two_pow_pos n)
      rw [Fpac.toNat_lshV, Nat.mod_eq_of_lt (by omega)]
    have hlt : (frac.lshV n).toNat < 2 ^ 59 := by
      rw [hshift, hsplit]
      exact Nat.mul_lt_mul_of_pos_right hfrac (Nat.two_pow_pos n)
    have hstart : 1 ≤ (frac.lshV n).toNat := by
      rw [hshift]
      exact Nat.mul_pos (Nat.pos_of_ne_zero hzero) (Nat.two_pow_pos n)
    have hcut : ShiftedLeft (frac.lshV n, fpBias) (shortcuts (frac.lshV n, fpBias)) :=
      shortcuts_shifted hlt
    obtain ⟨hnormal, hlo⟩ := normalize_shifted normalizeFuel _ hcut.lt (by
      obtain ⟨k, hk, -, -⟩ := hcut
      have hk1 : 1 ≤ (shortcuts (frac.lshV n, fpBias)).1.toNat := by
        rw [hk]
        exact Nat.mul_pos hstart (Nat.two_pow_pos k)
      exact le_trans (by decide : 2 ^ 58 ≤ 1 * 2 ^ normalizeFuel) (Nat.mul_le_mul_right _ hk1))
    have hvalue : ((frac.lshV n).toNat : ℚ) * 2 ^ (fpBias - fpBias - 59) = x := by
      have hpow : (2 : ℚ) ^ (59 : ℤ) = 2 ^ (59 - n) * 2 ^ n := by
        rw [show (59 : ℤ) = (59 : ℕ) from rfl, zpow_natCast]
        exact_mod_cast hsplit
      rw [← hx, hshift, sub_self, zero_sub, zpow_neg, hpow]
      push_cast
      field_simp
    have hnorm : Normal (normalize normalizeFuel (shortcuts (frac.lshV n, fpBias))) x :=
      ⟨hlo, hnormal.lt, by rw [(hcut.trans hnormal).value_eq, hvalue]⟩
    have hpos : 0 < x := by
      rw [← hx]
      exact div_pos (by exact_mod_cast Nat.pos_of_ne_zero hzero) (by positivity)
    unfold modFraction
    rw [if_neg fun h => hzero ((Fpac.isZero_iff frac).mp h)]
    exact rounded_part hd sign hnorm hpos hrange

/-- The whole part of a product, cut off to the precision. -/
theorem whole_part {fps : Word} (hd : fps &&& fpsD = 0) (sign : Fpac) {fe : Fpac × ℤ} {x : ℚ}
    (h : Normal fe x) (hlo : 1 ≤ fe.2) (hhi : fe.2 ≤ 255) (fec : ℕ) :
    let r := roundAndPack sign fe.2 fe.1 false fps fec
    Part fps (getSign sign.h) (fromFac r.val) (roundMagnitude 24 .towardZero x) ∧ r.v = false ∧
      r.fec = fec := by
  obtain ⟨hneg, hmag⟩ := packed_truncates hd sign h hlo hhi
  have hpos := roundMagnitude_pos .towardZero (p := 24) (by decide) h.pos
  dsimp only
  rw [roundAndPack_false, packChecked, if_neg (by dsimp only; omega), if_neg (by dsimp only; omega)]
  exact ⟨⟨fun h0 => absurd h0 hpos.ne', fun _ => hneg, hmag⟩, rfl, rfl⟩

theorem modfp11_eq {fac fsrc : Fpac} (fps : Word) (h1 : getExp fac.h ≠ 0) (h2 : getExp fsrc.h ≠ 0)
    (hd : fps &&& fpsD = 0) :
    modfp11 fac fsrc fps =
      let sign : Fpac := { fac with h := fac.h ^^^ fsrc.h }
      let fe := mulFrac fac fsrc
      if fe.2 ≤ fpBias then
        let r := roundAndPack sign fe.2 fe.1 true fps 0
        ⟨(.zero, r.val), r.v, r.fec⟩
      else if fpBias + 24 < fe.2 then
        let r := roundAndPack sign fe.2 fe.1 false fps 0
        ⟨(r.val, .zero), r.v, r.fec⟩
      else
        let n := (fe.2 - fpBias).toNat
        let f := modFraction sign (fe.1.masked (Fpac.fmask.rshV n)) n fps
        let r := roundAndPack sign fe.2 (fe.1.unmasked (Fpac.fmask.rshV n)) false fps f.fec
        ⟨(r.val, f.val), r.v, r.fec⟩ := by
  unfold modfp11
  rw [if_neg (by simp [h1, h2]), if_neg (not_not.mpr hd)]
  rfl

/-- The integer of a product, to the precision. -/
def wholeOf (x : ℚ) : ℚ := roundMagnitude 24 .towardZero ((⌊x⌋₊ : ℕ) : ℚ)

/-- The fraction of a product, rounded; a product of more than 24 integer places has none. -/
def fractionOf (fps : Word) (x : ℚ) : ℚ :=
  if x < 2 ^ 24 then roundMagnitude 24 (direction fps) (x - (⌊x⌋₊ : ℕ)) else 0

/-- The two results of a split, with their exact values. -/
structure Splits (fps : Word) (sign : Bool) (r : FpResult (Fpac × Fpac)) (x : ℚ) : Prop where
  whole : Part fps sign (fromFac r.val.1) (wholeOf x)
  fraction : Part fps sign (fromFac r.val.2) (fractionOf fps x)
  v : r.v = false
  fec : r.fec = 0

section
variable {fps : Word} (hd : fps &&& fpsD = 0) (sign : Fpac) {fe : Fpac × ℤ} {x : ℚ}
  (h : Normal fe x)
include h

theorem Normal.lt_one (he : fe.2 ≤ fpBias) : x < 1 := by
  have hhi : (fe.1.toNat : ℚ) < 2 ^ 59 := by exact_mod_cast h.hi
  have hscale : (2 : ℚ) ^ (fe.2 - fpBias - 59) ≤ 2 ^ (-59 : ℤ) :=
    zpow_le_zpow_right₀ one_le_two (by omega)
  calc x = fe.1.toNat * 2 ^ (fe.2 - fpBias - 59) := h.value.symm
    _ < 2 ^ 59 * 2 ^ (fe.2 - fpBias - 59) := mul_lt_mul_of_pos_right hhi (by positivity)
    _ ≤ 2 ^ 59 * 2 ^ (-59 : ℤ) := mul_le_mul_of_nonneg_left hscale (by positivity)
    _ = 1 := by norm_num

theorem Normal.large (he : fpBias + 24 < fe.2) : 2 ^ 24 ≤ x := by
  have hlo : (2 ^ 58 : ℚ) ≤ fe.1.toNat := by exact_mod_cast h.lo
  have hscale : (2 : ℚ) ^ (-34 : ℤ) ≤ 2 ^ (fe.2 - fpBias - 59) :=
    zpow_le_zpow_right₀ one_le_two (by omega)
  calc (2 : ℚ) ^ 24 = (2 : ℚ) ^ 58 * 2 ^ (-34 : ℤ) := by norm_num
    _ ≤ (fe.1.toNat : ℚ) * 2 ^ (-34 : ℤ) := mul_le_mul_of_nonneg_right hlo (by positivity)
    _ ≤ fe.1.toNat * 2 ^ (fe.2 - fpBias - 59) :=
        mul_le_mul_of_nonneg_left hscale (by positivity)
    _ = x := h.value

include hd

/-- A product below one is all fraction. -/
theorem splits_fraction (he : fe.2 ≤ fpBias) (hrange : InRange (fractionOf fps x)) :
    let r := roundAndPack sign fe.2 fe.1 true fps 0
    Splits fps (getSign sign.h) ⟨(.zero, r.val), r.v, r.fec⟩ x := by
  have hone := h.lt_one he
  have hfloor : ⌊x⌋₊ = 0 := Nat.floor_eq_zero.mpr hone
  have hwhole : wholeOf x = 0 := by
    unfold wholeOf
    rw [hfloor, Nat.cast_zero, roundMagnitude_zero]
  have hfraction : fractionOf fps x = roundMagnitude 24 (direction fps) x := by
    unfold fractionOf
    rw [if_pos (hone.trans (by norm_num)), hfloor, Nat.cast_zero, sub_zero]
  rw [hfraction] at hrange
  obtain ⟨hpart, hv, hfec⟩ := rounded_part hd sign h h.pos hrange
  refine ⟨?_, ?_, hv, hfec⟩
  · rw [hwhole]
    exact .of_zero fps _
  · rw [hfraction]
    exact hpart

/-- A product of more than 24 integer places is all integer. -/
theorem splits_whole (he : fpBias + 24 < fe.2) (hrange : InRange (wholeOf x)) :
    let r := roundAndPack sign fe.2 fe.1 false fps 0
    Splits fps (getSign sign.h) ⟨(r.val, .zero), r.v, r.fec⟩ x := by
  have hlarge := h.large he
  have hwhole : wholeOf x = roundMagnitude 24 .towardZero x :=
    roundMagnitude_floor (by linarith) (le_trans (by norm_num) hlarge)
  have hfraction : fractionOf fps x = 0 := if_neg hlarge.not_gt
  have hpos := roundMagnitude_pos .towardZero (p := 24) (by decide) h.pos
  rw [hwhole] at hrange
  obtain ⟨h1, h2⟩ := hrange.resolve_left hpos.ne'
  rw [h.packedExponent] at h1 h2
  obtain ⟨hpart, hv, hfec⟩ := whole_part hd sign h h1 h2 0
  refine ⟨?_, ?_, hv, hfec⟩
  · rw [hwhole]
    exact hpart
  · rw [hfraction]
    exact .of_zero fps _

/-- A product is split at its binary point. -/
theorem splits_both (hlo : fpBias < fe.2) (hhi : fe.2 ≤ fpBias + 24)
    (hrange : InRange (fractionOf fps x)) :
    let n := (fe.2 - fpBias).toNat
    let f := modFraction sign (fe.1.masked (Fpac.fmask.rshV n)) n fps
    let r := roundAndPack sign fe.2 (fe.1.unmasked (Fpac.fmask.rshV n)) false fps f.fec
    Splits fps (getSign sign.h) ⟨(r.val, f.val), r.v, r.fec⟩ x := by
  intro n f r
  have hbias : fpBias = 128 := rfl
  have hn : 1 ≤ n ∧ n ≤ 24 := by omega
  have hlo' := h.lo
  have hhi' := h.hi
  have hmask : (Fpac.fmask.rshV n).toNat = 2 ^ (59 - n) - 1 := fmask_toNat (by omega)
  have hmasked : (fe.1.masked (Fpac.fmask.rshV n)).toNat = fe.1.toNat % 2 ^ (59 - n) :=
    Fpac.masked_toNat _ _ hmask
  have hsum := Fpac.masked_add_unmasked fe.1 (Fpac.fmask.rshV n)
  have hdiv := Nat.div_add_mod fe.1.toNat (2 ^ (59 - n))
  have hmod := Nat.mod_lt fe.1.toNat (Nat.two_pow_pos (59 - n))
  have hscale : (2 : ℚ) ^ (fe.2 - fpBias - 59) = (2 ^ (59 - n))⁻¹ := by
    rw [show fe.2 - fpBias - 59 = -((59 - n : ℕ) : ℤ) by omega, zpow_neg, zpow_natCast]
  -- the quotient by the weight of the point is the integer, the remainder the fraction
  have hx : x = (fe.1.toNat : ℚ) / ((2 ^ (59 - n) : ℕ) : ℚ) := by
    rw [← h.value, hscale, div_eq_mul_inv]
    push_cast
    rfl
  have hfloor : ⌊x⌋₊ = fe.1.toNat / 2 ^ (59 - n) := by
    rw [hx, Nat.floor_div_eq_div]
  have hwhole : (fe.1.unmasked (Fpac.fmask.rshV n)).toNat = ⌊x⌋₊ * 2 ^ (59 - n) := by
    rw [hfloor, Nat.mul_comm]
    omega
  have hfrac : ((fe.1.masked (Fpac.fmask.rshV n)).toNat : ℚ) / 2 ^ (59 - n) = x - (⌊x⌋₊ : ℕ) := by
    have hsplit : (fe.1.toNat : ℚ) =
        2 ^ (59 - n) * (⌊x⌋₊ : ℕ) + (fe.1.masked (Fpac.fmask.rshV n)).toNat := by
      rw [hfloor, hmasked]
      exact_mod_cast hdiv.symm
    have hscaled : x * 2 ^ (59 - n) = fe.1.toNat := by
      rw [← h.value, hscale]
      field_simp
    rw [div_eq_iff (by positivity), sub_mul, hscaled, hsplit]
    ring
  have hnormal : Normal (fe.1.unmasked (Fpac.fmask.rshV n), fe.2) ((⌊x⌋₊ : ℕ) : ℚ) := by
    have hlead : 2 ^ (n - 1) ≤ ⌊x⌋₊ := by
      have hpow : 2 ^ (n - 1) * 2 ^ (59 - n) = 2 ^ 58 := by
        rw [← pow_add]
        congr 1
        omega
      rw [hfloor, Nat.le_div_iff_mul_le (Nat.two_pow_pos _), hpow]
      exact hlo'
    refine ⟨?_, ?_, ?_⟩
    · calc 2 ^ 58 = 2 ^ (n - 1) * 2 ^ (59 - n) := by
            rw [← pow_add]
            congr 1
            omega
        _ ≤ ⌊x⌋₊ * 2 ^ (59 - n) := Nat.mul_le_mul_right _ hlead
        _ = _ := hwhole.symm
    · dsimp only
      omega
    · dsimp only
      rw [hwhole, hscale]
      push_cast
      field_simp
  have hsmall : x < 2 ^ 24 := by
    have hroom : fe.1.toNat < 2 ^ 24 * 2 ^ (59 - n) := by
      refine hhi'.trans_le ?_
      rw [← pow_add]
      exact Nat.pow_le_pow_right (by decide) (by omega)
    rw [hx, div_lt_iff₀ (by positivity)]
    exact_mod_cast hroom
  have hfraction : fractionOf fps x = roundMagnitude 24 (direction fps) (x - (⌊x⌋₊ : ℕ)) :=
    if_pos hsmall
  rw [hfraction] at hrange
  obtain ⟨hpart, -, hfec⟩ := modFraction_part hd sign (fe.1.masked (Fpac.fmask.rshV n)) (n := n)
    (by omega) (by rw [hmasked]; exact hmod) hfrac hrange
  obtain ⟨hpart', hv, hfec'⟩ := whole_part hd sign hnormal (by dsimp only; omega)
    (by dsimp only; omega) f.fec
  refine ⟨hpart', ?_, hv, hfec'.trans hfec⟩
  rw [hfraction]
  exact hpart

end

/-- MODf in single precision splits the exact product of its operands: the integer is the product
truncated, to 24 bits, and the fraction is the rest, rounded, unless the product has more than 24
integer places. A part of zero is all zero bits, another has the sign of the product. -/
theorem mod_splits (fac fsrc : BitVec 64) (fps : Word) (hfac : exponent fac ≠ 0)
    (hfsrc : exponent fsrc ≠ 0) (hd : fps &&& fpsD = 0) :
    let product := value (significant fps fac) * value (significant fps fsrc)
    let sign := decide (product < 0)
    InRange (wholeOf |product|) → InRange (fractionOf fps |product|) →
      Part fps sign (fpMod fac fsrc fps).val.1 (wholeOf |product|) ∧
        Part fps sign (fpMod fac fsrc fps).val.2 (fractionOf fps |product|) ∧
        (fpMod fac fsrc fps).v = false ∧ (fpMod fac fsrc fps).fec = 0 := by
  intro product sign hwhole hfraction
  let x := magnitude (significant fps fac) * magnitude (significant fps fsrc)
  have hposa : 0 < magnitude (significant fps fac) :=
    magnitude_pos (by rw [exponent_significant]; exact hfac)
  have hposb : 0 < magnitude (significant fps fsrc) :=
    magnitude_pos (by rw [exponent_significant]; exact hfsrc)
  have hx : 0 < x := mul_pos hposa hposb
  have hproduct : product = signed (negative fac ^^ negative fsrc) x := by
    show value _ * value _ = _
    rw [value_eq, value_eq, negative_significant, negative_significant]
    cases negative fac <;> cases negative fsrc
    · rfl
    · exact mul_neg _ _
    · exact neg_mul _ _
    · exact neg_mul_neg _ _
  have habs : |product| = x := by
    rw [hproduct]
    cases negative fac ^^ negative fsrc
    · exact abs_of_pos hx
    · exact (abs_neg x).trans (abs_of_pos hx)
  have hsign : sign = (negative fac ^^ negative fsrc) := by
    show decide (product < 0) = _
    rw [hproduct]
    cases negative fac ^^ negative fsrc
    · exact decide_eq_false hx.not_gt
    · exact decide_eq_true (neg_neg_of_pos hx)
  rw [habs] at hwhole hfraction ⊢
  have h := mulFrac_normal hd hfac hfsrc
  let packedSign : Fpac := { toFac fac fps with h := (toFac fac fps).h ^^^ (toFac fsrc fps).h }
  have hpacked : getSign packedSign.h = sign := by
    rw [hsign, ← getSign_xor_toFac fac fsrc fps]
  -- no whole part, no fraction left, and both
  have hmod : Splits fps sign (modfp11 (toFac fac fps) (toFac fsrc fps) fps) x := by
    rw [modfp11_eq fps (by rw [getExp_toFac]; exact hfac) (by rw [getExp_toFac]; exact hfsrc) hd,
      ← hpacked]
    dsimp only
    split_ifs with h1 h2
    · exact splits_fraction hd packedSign h h1 hfraction
    · exact splits_whole hd packedSign h h2 hwhole
    · exact splits_both hd packedSign h (not_le.mp h1) (not_lt.mp h2) hfraction
  exact ⟨hmod.whole, hmod.fraction, hmod.v, hmod.fec⟩

/-- `3 * 2.5` is seven and a half. -/
theorem three_times_two_and_a_half :
    Part 0 false (fpMod 0x4140000000000000 0x4120000000000000 0).val.1 7 ∧
      Part 0 false (fpMod 0x4140000000000000 0x4120000000000000 0).val.2 (1 / 2) := by
  have hthree : value (significant 0 0x4140000000000000) = 3 := by
    rw [value_eq, magnitude_eq (by decide),
      show exponent (significant 0 0x4140000000000000) = 130 by decide,
      show significand (significant 0 0x4140000000000000) = 3 * 2 ^ 54 by decide,
      show negative (significant 0 0x4140000000000000) = false by decide]
    norm_num [signed]
  have hfactor : value (significant 0 0x4120000000000000) = 5 / 2 := by
    rw [value_eq, magnitude_eq (by decide),
      show exponent (significant 0 0x4120000000000000) = 130 by decide,
      show significand (significant 0 0x4120000000000000) = 5 * 2 ^ 53 by decide,
      show negative (significant 0 0x4120000000000000) = false by decide]
    norm_num [signed]
  have hwhole : wholeOf (15 / 2) = 7 := by
    have hfloor : ⌊(15 / 2 : ℚ)⌋₊ = 7 := by
      rw [Nat.floor_eq_iff (by norm_num)]
      norm_num
    unfold wholeOf
    rw [hfloor, roundMagnitude_natCast .towardZero (by decide) (by decide)]
    norm_num
  have hfraction : fractionOf 0 (15 / 2) = 1 / 2 := by
    have hfloor : ⌊(15 / 2 : ℚ)⌋₊ = 7 := by
      rw [Nat.floor_eq_iff (by norm_num)]
      norm_num
    have hone := roundMagnitude_natCast (K := ℚ) (m := 1) (p := 24) (direction 0) (by decide)
      (by decide)
    have hhalf := roundMagnitude_mul_zpow 24 (direction 0) (x := ((1 : ℕ) : ℚ)) (by norm_num) (-1)
    rw [hone] at hhalf
    unfold fractionOf
    rw [if_pos (by norm_num), hfloor]
    norm_num at hhalf ⊢
    exact hhalf
  have hrange {x : ℚ} (n : ℤ) (hlo : (2 : ℚ) ^ n ≤ |x|) (hhi : |x| < 2 ^ (n + 1)) (h0 : -128 ≤ n)
      (h1 : n ≤ 126) : InRange x := by
    right
    unfold packedExponent
    rw [log_eq hlo hhi]
    have hbias : fpBias = 128 := rfl
    omega
  have h := mod_splits 0x4140000000000000 0x4120000000000000 0 (by decide) (by decide) (by decide)
  have hproduct : |(3 * (5 / 2) : ℚ)| = 15 / 2 := by norm_num [abs_of_pos]
  have hsign : decide ((3 * (5 / 2) : ℚ) < 0) = false := decide_eq_false (by norm_num)
  dsimp only at h
  rw [hthree, hfactor, hproduct, hsign, hwhole, hfraction] at h
  obtain ⟨h1, h2, -, -⟩ := h (hrange 2 (by norm_num [abs_of_pos]) (by norm_num [abs_of_pos])
    (by decide) (by decide)) (hrange (-1) (by norm_num [abs_of_pos])
      (by norm_num [abs_of_pos]) (by decide) (by decide))
  exact ⟨h1, h2⟩

end Pdp11
