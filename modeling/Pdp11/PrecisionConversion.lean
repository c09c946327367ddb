import Pdp11.FloatSingle
import Pdp11.FloatOperands

/-! Conversion between single and double precision, and back. -/

namespace Pdp11
open FaultState Rounding

/-! ## Rounding to single precision -/

/-- `r` is `val` rounded to single precision, where the rounded number is `x`. -/
structure RoundedTo (val : BitVec 64) (fps : Word) (x : ℚ) (r : FpResult (BitVec 64)) : Prop where
  number : packedExponent x ≤ 255 → value (highHalf r.val) = x ∧ r.v = false ∧ r.fec = 0
  overflow : 255 < packedExponent x → r.v = true ∧ (fps &&& fpsIv = 0 → r.val = 0 ∧ r.fec = 0) ∧
    (fps &&& fpsIv ≠ 0 → r.fec = fecOvflo ∧ negative r.val = negative val)

theorem overflow_posted (fps : Word) :
    fpNotrap fps fecOvflo 0 = if fps &&& fpsIv = 0 then (true, 0) else (false, fecOvflo) := by
  have htest : fpTestCode fecOvflo = fpsIv := rfl
  unfold fpNotrap
  rw [htest]
  by_cases hiv : fps &&& fpsIv = 0
  · rw [if_pos ⟨by decide, by decide, hiv⟩, if_pos hiv]
  · rw [if_neg (fun h => hiv h.2.2), if_neg hiv]

/-- The packed result of a rounding whose cases are known. -/
theorem roundedTo_of {f : Fpac} (fps : Word) {r : FpResult Fpac} {x : ℚ}
    (hcases : (packedExponent x ≤ 255 ∧ r.v = false ∧ r.fec = 0 ∧
        negative (fromFac r.val) = negative (fromFac f) ∧ magnitude (highHalf (fromFac r.val)) = x) ∨
      (255 < packedExponent x ∧ r.v = true ∧ r.fec = (fpNotrap fps fecOvflo 0).2 ∧
        if (fpNotrap fps fecOvflo 0).1 then r.val = .zero
        else negative (fromFac r.val) = negative (fromFac f))) :
    RoundedTo (fromFac f) fps (signed (negative (fromFac f)) x) ⟨fromFac r.val, r.v, r.fec⟩ := by
  have hneg := packedExponent_signed (negative (fromFac f)) x
  rw [overflow_posted] at hcases
  rcases hcases with ⟨hle, hv, hfec, hsign, hmag⟩ | ⟨hgt, hv, hfec, hval⟩
  · refine ⟨fun _ => ⟨?_, hv, hfec⟩, fun h => by omega⟩
    rw [value_eq, negative_highHalf, hsign, hmag]
  · refine ⟨fun h => by omega, fun _ => ⟨hv, fun hiv => ?_, fun hiv => ?_⟩⟩
    · rw [if_pos hiv] at hfec hval
      rw [if_pos rfl] at hval
      refine ⟨?_, hfec⟩
      rw [hval, ← BitVec.toNat_inj, Fpac.fromFac_toNat]
      rfl
    · rw [if_neg hiv] at hfec hval
      rw [if_neg Bool.false_ne_true] at hval
      exact ⟨hfec, hval⟩

theorem fpRound_eq (val : BitVec 64) (fps : Word) :
    ∃ f, fromFac f = val ∧ ∃ r, roundfp11 f fps 0 = r ∧
      fpRound val fps = ⟨fromFac r.val, r.v, r.fec⟩ :=
  ⟨_, fromFac_halves val, _, rfl, rfl⟩

theorem fpRound_rounds (fps : Word) {val : BitVec 64} (hexp : exponent val ≠ 0) :
    RoundedTo val fps (roundSigned 24 .nearestAway (value val)) (fpRound val fps) := by
  obtain ⟨f, hf, r, hr, hround⟩ := fpRound_eq val fps
  rw [hround, value_eq, roundSigned_signed _ _ _ (magnitude_pos hexp)]
  subst hf
  have hcases := roundfp11_cases f fps hexp
  rw [hr] at hcases
  apply roundedTo_of
  rcases hcases with h | ⟨hgt, -, h⟩
  · exact .inl h
  · exact .inr ⟨hgt, h⟩

/-! ## The converting load and store -/

/-- The accumulator that LDCff' loads from an operand of value `v`. -/
def ldcff (v : BitVec 64) (fps : Word) : FpResult (BitVec 64) :=
  let v := if fpExp v = 0 then 0 else v
  if fps &&& (fpsD ||| fpsT) = 0 then fpRound v fps else ⟨v, false, 0⟩

/-- The value that STCff' stores of an accumulator. -/
def stcff (v : BitVec 64) (fps : Word) : FpResult (BitVec 64) :=
  let v := if fps &&& fpsD = 0 then v &&& 0xFFFFFFFF00000000 else v
  let v := if fpExp v = 0 then 0 else v
  if fps &&& (fpsD ||| fpsT) = fpsD then fpRound v fps else ⟨v, false, 0⟩

/-- A floating operand found and read. -/
def operandFp (spec : BitVec 6) (lenWords : ℕ) : M (BitVec 64) := do
  let o ← decodeFp spec lenWords
  readFp o lenWords

theorem keepsFp_operandFp (spec : BitVec 6) (lenWords : ℕ) : KeepsFp (operandFp spec lenWords) :=
  (keepsFp_operand (operand_decodeFp _ _)).bind fun _ => keepsFp_operand (operand_readFp _ _)

theorem opLdcff_eq (word : Word) (olen : ℕ) (entryPc : Word) :
    opLdcff word olen entryPc = (do
      let v ← operandFp (dstSpec word) olen
      let p ← getFp
      finishFp (acField word) (ldcff v p.fps) entryPc) := by
  unfold operandFp
  rw [bind_assoc_eq]
  rfl

/-- A load without an exception only sets the accumulator and the codes. -/
theorem opLdcff_loads {word : Word} {olen : ℕ} (entryPc : Word) {m m₁ : Machine} {v : BitVec 64}
    (h : operandFp (dstSpec word) olen m = .ok v m₁) (hfec : (ldcff v m.cpu.fp.fps).fec = 0) :
    ∃ m₂, opLdcff word olen entryPc m = .ok () m₂ ∧
      m₂.cpu.fp.fac (acField word) = (ldcff v m.cpu.fp.fps).val := by
  have hfp : m₁.cpu.fp = m.cpu.fp := (keepsFp_operandFp _ _).of_ok h
  rw [opLdcff_eq, bind_ok h]
  have hget : getFp m₁ = .ok m.cpu.fp m₁ := by
    rw [← hfp]
    rfl
  rw [bind_ok hget]
  generalize ldcff v m.cpu.fp.fps = r at hfec ⊢
  have hdone : whenM (r.fec ≠ 0) (postFpe r.fec entryPc) = pure () :=
    if_neg (not_not.mpr hfec)
  unfold finishFp
  rw [hdone]
  exact ⟨_, rfl, Function.update_self _ _ _⟩

/-- STCff' puts `v` in its operand, and changes nothing after that but the floating registers. -/
def StoresAs (word entryPc : Word) (v : BitVec 64) (m : Machine) : Prop :=
  ∃ f : FpRegs → FpRegs, opStcff word (fpOlen m.cpu.fp.fps) entryPc m = (do
    let o ← decodeFp (dstSpec word) (fpOlen m.cpu.fp.fps)
    writeFp o (fpOlen m.cpu.fp.fps) v
    modifyFp f) m

theorem opStcff_stores (word entryPc : Word) (m : Machine)
    (hfec : (stcff (m.cpu.fp.fac (acField word)) m.cpu.fp.fps).fec = 0) :
    StoresAs word entryPc (stcff (m.cpu.fp.fac (acField word)) m.cpu.fp.fps).val m := by
  have heq : opStcff word (fpOlen m.cpu.fp.fps) entryPc m =
      (do
        let r := stcff (m.cpu.fp.fac (acField word)) m.cpu.fp.fps
        let o ← decodeFp (dstSpec word) (fpOlen m.cpu.fp.fps)
        writeFp o (fpOlen m.cpu.fp.fps) r.val
        setFps fun fps => fpSetcc fps r.val (if r.v then fpsV else 0)
        whenM (r.fec ≠ 0) (postFpe r.fec entryPc)) m := rfl
  unfold StoresAs
  rw [heq]
  generalize stcff (m.cpu.fp.fac (acField word)) m.cpu.fp.fps = r at hfec ⊢
  have hdone : whenM (r.fec ≠ 0) (postFpe r.fec entryPc) = pure () :=
    if_neg (not_not.mpr hfec)
  dsimp only
  rw [hdone]
  exact ⟨fun p => { p with fps := fpSetcc p.fps r.val (if r.v then fpsV else 0) }, rfl⟩

/-! ## Single-precision numbers -/

/-- The two words of a single-precision number, in the high half of a register. -/
def HighWords (v : BitVec 64) (w0 w1 : Word) : Prop :=
  v.extractLsb' 48 16 = w0 ∧ v.extractLsb' 32 16 = w1

theorem packWords_toNat (w0 w1 : Word) :
    (packWords w0 w1 0 0).toNat = w0.toNat * 2 ^ 48 + w1.toNat * 2 ^ 32 := by
  have h0 := w0.isLt
  have h1 := w1.isLt
  have hzero : (0 : Word).toNat = 0 := rfl
  unfold packWords
  rw [BitVec.toNat_append, BitVec.toNat_append, BitVec.toNat_append, hzero, Nat.or_zero,
    Nat.or_zero, ← Nat.shiftLeft_add_eq_or_of_lt h1, Nat.shiftLeft_eq, Nat.shiftLeft_eq,
    Nat.shiftLeft_eq]
  omega

theorem highWords_iff {v : BitVec 64} {w0 w1 : Word} :
    HighWords v w0 w1 ↔ highHalf v = packWords w0 w1 0 0 := by
  have hv := v.isLt
  have h0 := w0.isLt
  have h1 := w1.isLt
  unfold HighWords
  rw [← BitVec.toNat_inj, ← BitVec.toNat_inj, ← BitVec.toNat_inj, highHalf_toNat, packWords_toNat,
    BitVec.extractLsb'_toNat, BitVec.extractLsb'_toNat, Nat.shiftRight_eq_div_pow,
    Nat.shiftRight_eq_div_pow]
  omega

theorem highHalf_packWords (w0 w1 : Word) :
    highHalf (packWords w0 w1 0 0) = packWords w0 w1 0 0 := by
  rw [← BitVec.toNat_inj, highHalf_toNat, packWords_toNat]
  omega

theorem add_half_cut {n : ℕ} (h : n / 2 ^ 32 * 2 ^ 32 = n) :
    (n + 2 ^ 31) / 2 ^ 32 * 2 ^ 32 = n := by
  have hquot : (n + 2 ^ 31) / 2 ^ 32 = n / 2 ^ 32 := by omega
  rw [hquot, h]

/-- Rounding a number that is in single precision already changes the low half alone. -/
theorem fpRound_single {v : BitVec 64} (fps : Word) (hlow : highHalf v = v) :
    (fpRound v fps).fec = 0 ∧ highHalf (fpRound v fps).val = v := by
  obtain ⟨f, rfl, r, hr, hround⟩ := fpRound_eq v fps
  have hlow' : (fromFac f).toNat / 2 ^ 32 * 2 ^ 32 = (fromFac f).toNat := by
    rw [← highHalf_toNat, hlow]
  have hlt := (fromFac f).isLt
  have hsum : (fromFac (Fpac.add .fround f)).toNat = (fromFac f).toNat + 2 ^ 31 := by
    have hfround : Fpac.fround.toNat = 2 ^ 31 := rfl
    rw [Fpac.fromFac_toNat, Fpac.toNat_add, hfround, ← Fpac.fromFac_toNat]
    omega
  have hflip : getSign ((Fpac.add .fround f).h ^^^ f.h) = false := by
    have hxor : getSign ((Fpac.add .fround f).h ^^^ f.h) =
        (getSign (Fpac.add .fround f).h ^^ getSign f.h) := BitVec.getLsbD_xor
    have hsign : negative (fromFac (Fpac.add .fround f)) = negative (fromFac f) := by
      rw [negative_eq, negative_eq, hsum, decide_eq_decide]
      omega
    rw [hxor, getSign_eq, getSign_eq, hsign, Bool.xor_self]
  rw [roundfp11_eq, hflip, if_neg Bool.false_ne_true] at hr
  rw [hround, ← hr]
  refine ⟨rfl, ?_⟩
  apply BitVec.eq_of_toNat_eq
  generalize Fpac.add .fround f = sum at hsum
  show (highHalf (fromFac sum)).toNat = (fromFac f).toNat
  rw [highHalf_toNat, hsum]
  exact add_half_cut hlow'

theorem fpExp_eq_zero {v : BitVec 64} : fpExp v = 0 ↔ exponent v = 0 := by
  unfold exponent
  rw [← BitVec.toNat_inj, Int.natCast_eq_zero]
  rfl

/-- A single-precision number, widened by a load in double precision and narrowed by a store. -/
def WidensAndNarrows (w0 w1 : Word) : Prop :=
  ∀ (load store entryPc entryPc' : Word) (m m₁ : Machine), m.cpu.fp.fps &&& fpsD ≠ 0 →
    operandFp (dstSpec load) (fpOlen m.cpu.fp.fps) m = .ok (packWords w0 w1 0 0) m₁ →
    ∃ m₂, opLdcff load (fpOlen m.cpu.fp.fps) entryPc m = .ok () m₂ ∧
      ∀ m₃ : Machine, m₃.cpu.fp.fps &&& fpsD ≠ 0 →
        m₃.cpu.fp.fac (acField store) = m₂.cpu.fp.fac (acField load) →
        ∃ v, HighWords v w0 w1 ∧ StoresAs store entryPc' v m₃

/-- A single-precision number, stored in double precision and loaded back. -/
def StoresAndLoads (w0 w1 : Word) : Prop :=
  ∀ (store load entryPc entryPc' : Word) (m : Machine), m.cpu.fp.fps &&& fpsD = 0 →
    HighWords (m.cpu.fp.fac (acField store)) w0 w1 →
    StoresAs store entryPc (packWords w0 w1 0 0) m ∧
      ∀ m₁ m₂ : Machine, m₁.cpu.fp.fps &&& fpsD = 0 →
        operandFp (dstSpec load) (fpOlen m₁.cpu.fp.fps) m₁ = .ok (packWords w0 w1 0 0) m₂ →
        ∃ m₃, opLdcff load (fpOlen m₁.cpu.fp.fps) entryPc' m₁ = .ok () m₃ ∧
          HighWords (m₃.cpu.fp.fac (acField load)) w0 w1

theorem single_mode {fps : Word} (hd : fps &&& fpsD = 0) : fps &&& (fpsD ||| fpsT) ≠ fpsD := by
  intro h
  have hmask : fps &&& fpsD = (fps &&& (fpsD ||| fpsT)) &&& fpsD := by
    rw [BitVec.and_assoc]
    rfl
  rw [hd, h] at hmask
  exact absurd hmask (by decide)

theorem double_mode {fps : Word} (hd : fps &&& fpsD ≠ 0) : fps &&& (fpsD ||| fpsT) ≠ 0 := by
  intro h
  rw [BitVec.and_or_distrib_left] at h
  exact hd (BitVec.or_eq_zero_iff.mp h).1

theorem widensAndNarrows {w0 w1 : Word} (hexp : exponent (packWords w0 w1 0 0) ≠ 0) :
    WidensAndNarrows w0 w1 := by
  intro load store entryPc entryPc' m m₁ hd hread
  have hfp : fpExp (packWords w0 w1 0 0) ≠ 0 := fun h => hexp (fpExp_eq_zero.mp h)
  have hload : ldcff (packWords w0 w1 0 0) m.cpu.fp.fps = ⟨packWords w0 w1 0 0, false, 0⟩ := by
    unfold ldcff
    rw [if_neg hfp, if_neg (double_mode hd)]
  obtain ⟨m₂, hrun, hfac⟩ := opLdcff_loads entryPc hread (by rw [hload])
  refine ⟨m₂, hrun, fun m₃ hd₃ hfac₃ => ?_⟩
  rw [hload] at hfac
  have hac : m₃.cpu.fp.fac (acField store) = packWords w0 w1 0 0 := hfac₃.trans hfac
  have hstore : (stcff (packWords w0 w1 0 0) m₃.cpu.fp.fps).fec = 0 ∧
      HighWords (stcff (packWords w0 w1 0 0) m₃.cpu.fp.fps).val w0 w1 := by
    unfold stcff
    rw [if_neg hd₃]
    dsimp only
    rw [if_neg hfp, highWords_iff]
    split_ifs
    · exact fpRound_single _ (highHalf_packWords w0 w1)
    · exact ⟨rfl, highHalf_packWords w0 w1⟩
  rw [← hac] at hstore
  exact ⟨_, hstore.2, opStcff_stores store entryPc' m₃ hstore.1⟩

theorem storesAndLoads {w0 w1 : Word} (hexp : exponent (packWords w0 w1 0 0) ≠ 0) :
    StoresAndLoads w0 w1 := by
  intro store load entryPc entryPc' m hd hwords
  have hfp : fpExp (packWords w0 w1 0 0) ≠ 0 := fun h => hexp (fpExp_eq_zero.mp h)
  have hhigh : m.cpu.fp.fac (acField store) &&& 0xFFFFFFFF00000000 = packWords w0 w1 0 0 := by
    rw [and_highMask, highWords_iff.mp hwords]
  have hstore : stcff (m.cpu.fp.fac (acField store)) m.cpu.fp.fps =
      ⟨packWords w0 w1 0 0, false, 0⟩ := by
    unfold stcff
    rw [if_pos hd, hhigh]
    dsimp only
    rw [if_neg hfp, if_neg (single_mode hd)]
  have hstores := opStcff_stores store entryPc m (by rw [hstore])
  rw [hstore] at hstores
  refine ⟨hstores, fun m₁ m₂ hd₁ hread => ?_⟩
  have hload : (ldcff (packWords w0 w1 0 0) m₁.cpu.fp.fps).fec = 0 ∧
      HighWords (ldcff (packWords w0 w1 0 0) m₁.cpu.fp.fps).val w0 w1 := by
    unfold ldcff
    rw [if_neg hfp, highWords_iff]
    split_ifs
    · exact fpRound_single _ (highHalf_packWords w0 w1)
    · exact ⟨rfl, highHalf_packWords w0 w1⟩
  obtain ⟨m₃, hrun, hfac⟩ := opLdcff_loads entryPc' hread hload.1
  refine ⟨m₃, hrun, ?_⟩
  rw [hfac]
  exact hload.2

/-- Rounding to single precision rounds or reports, and a number that is in single precision
survives either way of converting it there and back. -/
theorem precision_conversion :
    (∀ (fps : Word) (val : BitVec 64), exponent val ≠ 0 →
      RoundedTo val fps (roundSigned 24 .nearestAway (value val)) (fpRound val fps)) ∧
    ∀ w0 w1 : Word, exponent (packWords w0 w1 0 0) ≠ 0 →
      WidensAndNarrows w0 w1 ∧ StoresAndLoads w0 w1 :=
  ⟨fun fps _ hexp => fpRound_rounds fps hexp,
    fun _ _ hexp => ⟨widensAndNarrows hexp, storesAndLoads hexp⟩⟩

/-- The number one, and the largest double-precision number, which overflows. -/
theorem one_converts :
    RoundedTo 0x7FFFFFFFFFFFFFFF 0
        (roundSigned 24 .nearestAway (value 0x7FFFFFFFFFFFFFFF)) (fpRound 0x7FFFFFFFFFFFFFFF 0) ∧
      WidensAndNarrows 0o40200 0 ∧ StoresAndLoads 0o40200 0 :=
  ⟨precision_conversion.1 0 0x7FFFFFFFFFFFFFFF (by decide),
    precision_conversion.2 0o40200 0 (by decide)⟩

end Pdp11
