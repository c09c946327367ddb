import Pdp11.FloatAdd

/-! The rounding of a packed number to single precision. -/

namespace Pdp11
open Rounding

/-- The half of a packed number that single precision uses. -/
def highHalf (v : BitVec 64) : BitVec 64 := (v >>> 32) <<< 32

theorem significant_single {fps : Word} (hd : fps &&& fpsD = 0) (v : BitVec 64) :
    significant fps v = highHalf v := by
  unfold significant
  rw [if_pos hd]
  rfl

theorem highHalf_eq (v : BitVec 64) : highHalf v = significant 0 v :=
  (significant_single rfl v).symm

theorem highHalf_toNat (v : BitVec 64) : (highHalf v).toNat = v.toNat / 2 ^ 32 * 2 ^ 32 := by
  have hsingle : (0 : Word) &&& fpsD = 0 := rfl
  rw [highHalf_eq, significant_toNat, if_pos hsingle]

theorem and_highMask (v : BitVec 64) : v &&& 0xFFFFFFFF00000000 = highHalf v := by
  have hmask : (0xFFFFFFFF00000000 : BitVec 64) = BitVec.allOnes 64 <<< 32 := by decide
  rw [hmask]
  unfold highHalf
  ext i hi
  simp only [← BitVec.getLsbD_eq_getElem, BitVec.getLsbD_and, BitVec.getLsbD_shiftLeft,
    BitVec.getLsbD_ushiftRight, BitVec.getLsbD_allOnes]
  by_cases hlow : i < 32
  · simp [hlow]
  · have hback : 32 + (i - 32) = i := by omega
    have hin : i - 32 < 64 := by omega
    simp [hi, hlow, hback, hin]

theorem negative_highHalf (v : BitVec 64) : negative (highHalf v) = negative v := by
  rw [highHalf_eq, negative_significant]

theorem exponent_highHalf (v : BitVec 64) : exponent (highHalf v) = exponent v := by
  rw [highHalf_eq, exponent_significant]

/-- The fraction of a packed number, rounded to 24 bits. -/
theorem roundMagnitude_packed (d : Direction) {v : BitVec 64} (hexp : exponent v ≠ 0) :
    roundMagnitude 24 d (magnitude v) =
      ((significand v + d.half 32) / 2 ^ 32 * 2 ^ 32 : ℕ) * 2 ^ (exponent v - fpBias - 56) := by
  have hs := significand_bounds v
  have hpos : (0 : ℚ) < significand v := by exact_mod_cast (by omega : 0 < significand v)
  have hprefix := roundMagnitude_of_prefix (K := ℚ) d (f := significand v) (j := 0) (g := 32)
    (p := 24) (by decide) (one_dvd _) le_rfl (by simp) (by omega) (by omega)
  rw [magnitude_eq hexp, roundMagnitude_mul_zpow _ _ hpos, hprefix]
  push_cast
  rfl

theorem magnitude_of_fields {v : BitVec 64} {m : ℕ} {e : ℤ} (he : e ≠ 0) (hexp : exponent v = e)
    (hsig : significand v = m) : magnitude v = m * 2 ^ (e - fpBias - 56) := by
  rw [magnitude_eq (by rw [hexp]; exact he), hexp, hsig]

/-- Half of the last single-precision place added to a packed number: a carry out of the fraction
goes on into the exponent, and one out of the exponent into the sign. -/
theorem rounds_packed {v w : BitVec 64} (hexp : exponent v ≠ 0)
    (hw : w.toNat = (v.toNat + 2 ^ 31) % 2 ^ 64) :
    (packedExponent (roundMagnitude 24 .nearestAway (magnitude v)) ≤ 255 ∧
      negative w = negative v ∧
      magnitude (highHalf w) = roundMagnitude 24 .nearestAway (magnitude v)) ∨
    (255 < packedExponent (roundMagnitude 24 .nearestAway (magnitude v)) ∧
      exponent v = 255 ∧ negative w = !negative v) := by
  have hs := significand_bounds v
  have he := exponent_bounds v
  have hv := v.isLt
  have hhalf : Direction.nearestAway.half 32 = 2 ^ 31 := rfl
  have hneg {u : BitVec 64} (hu : 2 ^ 63 ≤ u.toNat ↔ 2 ^ 63 ≤ v.toNat) :
      negative u = negative v := by
    rw [negative_eq, negative_eq, decide_eq_decide]
    exact hu
  rw [roundMagnitude_packed _ hexp, hhalf]
  have hsig : significand v = 2 ^ 55 + v.toNat % 2 ^ 55 := rfl
  have hfield := exponent_eq v
  have hexp' := exponent_eq (highHalf w)
  have hsig' : significand (highHalf w) = 2 ^ 55 + (highHalf w).toNat % 2 ^ 55 := rfl
  rw [highHalf_toNat] at hexp' hsig'
  by_cases hcarry : significand v + 2 ^ 31 < 2 ^ 56
  · rw [packedExponent_eq _ (by omega) (by omega)]
    refine .inl ⟨by omega, hneg (by omega), magnitude_of_fields hexp (by omega) (by omega)⟩
  · have hcarried : ((((significand v + 2 ^ 31) / 2 ^ 32 * 2 ^ 32 : ℕ) : ℚ)) *
        2 ^ (exponent v - fpBias - 56) =
        ((2 ^ 55 : ℕ) : ℚ) * 2 ^ (exponent v + 1 - fpBias - 56) := by
      have hquot : (significand v + 2 ^ 31) / 2 ^ 32 * 2 ^ 32 = 2 ^ 55 * 2 := by omega
      rw [hquot, show exponent v + 1 - fpBias - 56 = exponent v - fpBias - 56 + 1 by ring,
        zpow_add_one₀ two_ne_zero]
      push_cast
      ring
    rw [hcarried, packedExponent_eq _ le_rfl (by omega)]
    by_cases hlast : exponent v = 255
    · -- the carry leaves the largest exponent
      refine .inr ⟨by omega, hlast, ?_⟩
      rw [negative_eq, negative_eq, ← decide_not, decide_eq_decide]
      omega
    · refine .inl ⟨by omega, hneg (by omega), magnitude_of_fields ?_ (by omega) (by omega)⟩
      omega

/-- Cutting off the low half rounds toward zero. -/
theorem magnitude_highHalf {v : BitVec 64} (hexp : exponent v ≠ 0) :
    magnitude (highHalf v) = roundMagnitude 24 .towardZero (magnitude v) := by
  have hhalf : Direction.towardZero.half 32 = 0 := rfl
  have hv := v.isLt
  rw [roundMagnitude_packed _ hexp, hhalf]
  apply magnitude_of_fields hexp (exponent_highHalf v)
  unfold significand
  rw [highHalf_toNat]
  omega

/-- `fpRound` takes the accumulator apart without masking. -/
theorem fromFac_halves (v : BitVec 64) :
    fromFac ⟨v.setWidth 32, (v >>> 32).setWidth 32⟩ = v := by
  have hv := v.isLt
  rw [← BitVec.toNat_inj, Fpac.fromFac_toNat]
  unfold Fpac.toNat
  rw [BitVec.toNat_setWidth, BitVec.toNat_setWidth, BitVec.toNat_ushiftRight,
    Nat.shiftRight_eq_div_pow]
  omega

/-- A double-precision number is its own rounding to 56 bits. -/
theorem roundMagnitude_double (d : Direction) {v : BitVec 64} (hexp : exponent v ≠ 0) :
    roundMagnitude 56 d (magnitude v) = magnitude v := by
  have hs := significand_bounds v
  have hpos : (0 : ℚ) < significand v := by exact_mod_cast (by omega : 0 < significand v)
  rw [magnitude_eq hexp, roundMagnitude_mul_zpow _ _ hpos,
    roundMagnitude_natCast d (by omega) hs.2]

theorem roundfp11_eq (f : Fpac) (fps : Word) : roundfp11 f fps 0 =
    if getSign ((Fpac.add .fround f).h ^^^ f.h) then
      ⟨if (fpNotrap fps fecOvflo 0).1 then .zero
        else { Fpac.add .fround f with h := (Fpac.add .fround f).h ^^^ fpSign }, true,
        (fpNotrap fps fecOvflo 0).2⟩
    else ⟨Fpac.add .fround f, false, 0⟩ := by
  unfold roundfp11
  generalize fpNotrap fps fecOvflo 0 = posted
  rfl

/-- The rounding of a packed number, and the overflow that its sign bit shows. -/
theorem roundfp11_cases (f : Fpac) (fps : Word) (hexp : exponent (fromFac f) ≠ 0) :
    (packedExponent (roundMagnitude 24 .nearestAway (magnitude (fromFac f))) ≤ 255 ∧
      (roundfp11 f fps 0).v = false ∧ (roundfp11 f fps 0).fec = 0 ∧
      negative (fromFac (roundfp11 f fps 0).val) = negative (fromFac f) ∧
      magnitude (highHalf (fromFac (roundfp11 f fps 0).val)) =
        roundMagnitude 24 .nearestAway (magnitude (fromFac f))) ∨
    (255 < packedExponent (roundMagnitude 24 .nearestAway (magnitude (fromFac f))) ∧
      exponent (fromFac f) = 255 ∧ (roundfp11 f fps 0).v = true ∧
      (roundfp11 f fps 0).fec = (fpNotrap fps fecOvflo 0).2 ∧
      if (fpNotrap fps fecOvflo 0).1 then (roundfp11 f fps 0).val = .zero
      else negative (fromFac (roundfp11 f fps 0).val) = negative (fromFac f)) := by
  have hw : (fromFac (Fpac.add .fround f)).toNat = ((fromFac f).toNat + 2 ^ 31) % 2 ^ 64 := by
    have hround : Fpac.fround.toNat = 2 ^ 31 := rfl
    rw [Fpac.fromFac_toNat, Fpac.fromFac_toNat, Fpac.toNat_add, hround]
  have hflip : getSign ((Fpac.add .fround f).h ^^^ f.h) =
      (negative (fromFac (Fpac.add .fround f)) ^^ negative (fromFac f)) := by
    rw [← getSign_eq, ← getSign_eq]
    exact BitVec.getLsbD_xor
  generalize hposted : fpNotrap fps fecOvflo 0 = posted
  rw [roundfp11_eq, hposted]
  rcases rounds_packed hexp hw with ⟨hle, hneg, hmag⟩ | ⟨hgt, hlast, hneg⟩
  · rw [hflip, hneg, Bool.xor_self, if_neg Bool.false_ne_true]
    exact .inl ⟨hle, rfl, rfl, hneg, hmag⟩
  · rw [hflip, hneg, Bool.not_xor_self, if_pos rfl]
    refine .inr ⟨hgt, hlast, rfl, rfl, ?_⟩
    split_ifs
    · rfl
    · have hsign : getSign ((Fpac.add .fround f).h ^^^ fpSign) =
          !getSign (Fpac.add .fround f).h := by
        unfold getSign
        rw [BitVec.getLsbD_xor]
        exact Bool.xor_true _
      rw [← getSign_eq, hsign, getSign_eq, hneg, Bool.not_not]

end Pdp11
