import Pdp11.FloatDefined
import Pdp11.FloatIntegers
import Pdp11.MultiplyDivide

/-! Where the floating and the extended arithmetic perform an operation that C leaves undefined. -/

namespace Pdp11

open CheckedArith Checked

/-! ## The floating operations -/

/-- An operation on two packed values. -/
def fpBinaryChecked (op : Fpac → Fpac → Word → Option (FpResult Fpac)) (facV fsrcV : BitVec 64)
    (fps : Word) : Option (FpResult (BitVec 64)) := do
  let fac ← toFacChecked facV fps
  let fsrc ← toFacChecked fsrcV fps
  let r ← op fac fsrc fps
  let val ← fromFacChecked r.val
  pure ⟨val, r.v, r.fec⟩

def fpAddChecked := fpBinaryChecked addfp11Checked
def fpMulChecked := fpBinaryChecked mulfp11Checked
def fpDivChecked := fpBinaryChecked divfp11Checked

def fpModChecked (facV fsrcV : BitVec 64) (fps : Word) :
    Option (FpResult (BitVec 64 × BitVec 64)) := do
  let fac ← toFacChecked facV fps
  let fsrc ← toFacChecked fsrcV fps
  let r ← modfp11Checked fac fsrc fps
  let whole ← fromFacChecked r.val.1
  let frac ← fromFacChecked r.val.2
  pure ⟨(whole, frac), r.v, r.fec⟩

def fpCmpChecked (facV fsrcV : BitVec 64) (fps : Word) : Option (Word × Bool) := do
  let fac ← toFacChecked facV fps
  let fsrc ← toFacChecked fsrcV fps
  let fsrcexp ← getExpChecked fsrc.h
  let fsrc := if fsrcexp = 0 then Fpac.zero else fsrc
  let facexp ← getExpChecked fac.h
  let fac := if facexp = 0 then Fpac.zero else fac
  if fsrc.h = fac.h ∧ fsrc.l = fac.l then pure (fpsZ, fsrc.isZero)
  else do
    let n ← shr fsrc.h 28
    let cc := n.setWidth 16 &&& fpsN
    let sign ← getSignChecked (fsrc.h ^^^ fac.h)
    if sign = false ∧ fac.h ≠ 0 ∧ fsrc.lt fac then pure (cc ^^^ fpsN, false) else pure (cc, false)

def fpRoundChecked (val : BitVec 64) (fps : Word) : Option (FpResult (BitVec 64)) := do
  let h ← shr val 32
  let r ← roundfp11Checked ⟨val.setWidth 32, h.setWidth 32⟩ fps 0
  let val ← fromFacChecked r.val
  pure ⟨val, r.v, r.fec⟩

/-- The single shifts of an integer, which must end within the fuel. -/
def ldcifNormalizeChecked : ℕ → BitVec 32 → ℕ → Option (BitVec 32 × ℕ)
  | 0, l, i => do
    if ← getSignChecked l then pure (l, i) else none
  | fuel + 1, l, i => do
    if ← getSignChecked l then pure (l, i)
    else do
      let l ← shl l 1
      let _ ← signedOf 32 (i + 1)
      ldcifNormalizeChecked fuel l (i + 1)

/-- The fields of an integer's float, before it is rounded. -/
def ldcifPackedChecked (facl : BitVec 32) (fps : Word) : Option Fpac := do
  let sign ← getSignChecked facl
  let li ← ldcifNormalizeChecked 32 (if sign then (facl ^^^ 0xFFFFFFFF) + 1 else facl) 0
  let limitExp ← signedOf 32 (if fps &&& fpsL ≠ 0 then fpBias + 32 else fpBias + 16)
  let exp ← signedOf 32 (limitExp - li.2)
  let s ← shl (if sign then 1 else 0 : BitVec 32) 31
  let e ← shl (BitVec.ofInt 32 exp) 23
  let h ← shr li.1 8
  let l ← shl li.1 24
  pure ⟨l, s ||| e ||| (h &&& fpFrach)⟩

def fpLdcifChecked (facl : BitVec 32) (fps : Word) : Option (BitVec 64) :=
  if facl = 0 then fromFacChecked ⟨facl, 0⟩
  else do
    let fac ← ldcifPackedChecked facl fps
    if fps &&& (fpsD ||| fpsT) = 0 then do
      let r ← roundfp11Checked fac fps 0
      fromFacChecked r.val
    else fromFacChecked fac

/-- The three ranges of the exponent; the magnitude of a negative number is negated. -/
def stcfiCoreChecked (fac : Fpac) (sign : Bool) (exp : ℤ) (fps : Word) :
    Option (BitVec 32 × Bool) := do
  let isLong : Bool := fps &&& fpsL ≠ 0
  let limitExp ← signedOf 32 (if isLong then fpBias + 32 else fpBias + 16)
  if exp ≤ fpBias then pure (0, false)
  else if limitExp < exp then pure (0, true)
  else do
    let sum ← signedOf 32 (24 + limitExp)
    let n ← signedOf 32 (sum - exp)
    let shifted ← fac.rshVChecked n
    let dst := if isLong then shifted.l else shifted.l &&& ~~~0o177777
    if stcfiLimit isLong sign ≤ dst then pure (0, true)
    else if sign then do
      let dst ← sneg dst
      pure (dst, false)
    else pure (dst, false)

/-- The condition C and the code posted with it. -/
def stcfiPostedChecked (fps : Word) (dst : BitVec 32) (c : Bool) :
    Option (BitVec 32 × Bool × ℕ) :=
  if c then do
    let t ← fpNotrapChecked fps fecIcvt 0
    pure (dst, c, t.2)
  else pure (dst, c, 0)

def fpStcfiChecked (val : BitVec 64) (fps : Word) : Option (BitVec 32 × Bool × ℕ) := do
  let h ← shr val 32
  let frh : BitVec 32 := h.setWidth 32
  let sign ← getSignChecked frh
  let exp ← getExpChecked frh
  let fac : Fpac := ⟨if fps &&& fpsD ≠ 0 then val.setWidth 32 else 0, (frh &&& fpFrach) ||| fpHb⟩
  let t ← stcfiCoreChecked fac sign exp fps
  stcfiPostedChecked fps t.1 t.2

/-! ## The extended instructions -/

def mulCpuChecked (s : Cpu) (reg : Field3) (value : Word) : Option Cpu := do
  let dst ← smul ((s.regs.r reg).signExtend 32) (value.signExtend 32)
  let hi ← shr dst 16
  let s := { s with regs.r := Function.update (Function.update s.regs.r reg
    (hi.setWidth 16)) (pairReg reg) (dst.setWidth 16) }
  pure (setNzvc s (dst.slt 0) (dst = 0) false ((32767#32).slt dst ∨ dst.slt (-32768#32)))

/-- The 32 bits of a register pair. -/
def pairChecked (s : Cpu) (reg : Field3) : Option (BitVec 32) := do
  let hi ← shl ((s.regs.r reg).setWidth 32 : BitVec 32) 16
  pure (hi ||| (s.regs.r (pairReg reg)).setWidth 32)

def divCpuChecked (s : Cpu) (reg : Field3) (divisor : Word) : Option Cpu := do
  let src ← pairChecked s reg
  if divisor = 0 then pure (setNzvc s false true true true)
  else
    let s := { s with acct.eisExtraNs := 6150 }
    if src = 0o20000000000 ∧ divisor = 0o177777 then
      pure (setFlag (setFlag (setFlag (setFlag s pswV true) pswN false) pswZ false) pswC false)
    else do
      let dst ← sdiv src (divisor.signExtend 32)
      if (32767#32).slt dst ∨ dst.slt (-32768#32) then
        pure (setFlag (setFlag (setFlag (setFlag s pswN (dst.slt 0)) pswV true) pswZ false) pswC
          false)
      else do
        let product ← smul (divisor.signExtend 32) dst
        let rem ← ssub src product
        let s := setFlag s pswN (dst.slt 0)
        let s := { s with regs.r := Function.update (Function.update s.regs.r reg
          (dst.setWidth 16)) (pairReg reg) (rem.setWidth 16) }
        pure (setFlag (setFlag (setFlag s pswZ (dst = 0)) pswV false) pswC false)

/-- `-sign`, with `sign` 1 for a negative `src` and 0 otherwise. -/
def signsChecked (src : BitVec 32) : Option (BitVec 32) := sneg (if src.msb then 1 else 0)

/-- The codes 33 to 63. -/
def shiftRightChecked (src : BitVec 32) (sh : ℕ) : Option Shift := do
  let dst ← sar src (64 - sh)
  let signs ← signsChecked src
  let fill ← shl signs (sh - 32)
  let out ← sar src (63 - sh)
  pure ⟨dst ||| fill, false, out &&& 1 ≠ 0⟩

def ashShiftChecked (src : BitVec 32) (sh : ℕ) : Option Shift :=
  if sh = 0 then pure ⟨src, false, false⟩
  else if sh ≤ 15 then do
    let dst ← shl src sh
    let i ← sar src (16 - sh)
    let i := i &&& 0o177777
    pure ⟨dst, i ≠ (if dst &&& 0o100000 ≠ 0 then 0o177777 else 0), i &&& 1 ≠ 0⟩
  else if sh ≤ 31 then do
    let out ← shl src (sh - 16)
    pure ⟨0, src ≠ 0, out &&& 1 ≠ 0⟩
  else if sh = 32 then do
    let signs ← signsChecked src
    pure ⟨signs, false, src.msb⟩
  else shiftRightChecked src sh

def ashcShiftChecked (src : BitVec 32) (sh : ℕ) : Option Shift :=
  if sh = 0 then pure ⟨src, false, false⟩
  else if sh ≤ 31 then do
    let dst ← shl src sh
    let low ← sar src (32 - sh)
    let signs ← signsChecked src
    let high ← shl signs sh
    let i := low ||| high
    pure ⟨dst, i ≠ (if dst.slt 0 then -1 else 0), i &&& 1 ≠ 0⟩
  else if sh = 32 then do
    let signs ← signsChecked src
    pure ⟨signs, false, src.msb⟩
  else shiftRightChecked src sh

/-- `sh <= 31 ? sh : 64 - sh`, the places of a shift code. -/
def shiftTimeChecked (sh : ℕ) : Option (BitVec 32) := do
  let places ← signedOf 32 (if sh ≤ 31 then sh else 64 - sh)
  pure (150 * BitVec.ofInt 32 places)

def ashCpuChecked (s : Cpu) (reg : Field3) (value : Word) : Option Cpu := do
  let sh := (value &&& 0o77).toNat
  let ns ← shiftTimeChecked sh
  let out ← ashShiftChecked ((s.regs.r reg).signExtend 32) sh
  let s := { s with
    acct.eisExtraNs := ns
    regs.r := Function.update s.regs.r reg (out.dst.setWidth 16) }
  pure (setFlag (setFlag (setNz s (out.dst.setWidth 16) false) pswV out.v) pswC out.c)

def ashcCpuChecked (s : Cpu) (reg : Field3) (value : Word) : Option Cpu := do
  let sh := (value &&& 0o77).toNat
  let ns ← shiftTimeChecked sh
  let src ← pairChecked s reg
  let out ← ashcShiftChecked src sh
  let high ← shr out.dst 16
  let hi : Word := high.setWidth 16
  let lo : Word := out.dst.setWidth 16
  let s := { s with
    acct.eisExtraNs := ns
    regs.r := Function.update (Function.update s.regs.r reg hi) (pairReg reg) lo }
  pure (setNzvc s (hi &&& 0o100000 ≠ 0) (hi ||| lo = 0) out.v out.c)

/-! ## Calls -/

/-- A call of the arithmetic, with its operands, status word and registers. -/
inductive ArithCall where
  | add (fac fsrc : BitVec 64) (fps : Word)
  | mul (fac fsrc : BitVec 64) (fps : Word)
  | div (fac fsrc : BitVec 64) (fps : Word)
  | mod (fac fsrc : BitVec 64) (fps : Word)
  | cmp (fac fsrc : BitVec 64) (fps : Word)
  | round (val : BitVec 64) (fps : Word)
  | ldcif (facl : BitVec 32) (fps : Word)
  | stcfi (val : BitVec 64) (fps : Word)
  | opMul (s : Cpu) (reg : Field3) (value : Word)
  | opDiv (s : Cpu) (reg : Field3) (value : Word)
  | opAsh (s : Cpu) (reg : Field3) (value : Word)
  | opAshc (s : Cpu) (reg : Field3) (value : Word)

/-- A computation with every operation checked, and the model's result of it. -/
structure CheckedCall where
  result : Type
  checked : Option result
  value : result

def ArithCall.run : ArithCall → CheckedCall
  | .add fac fsrc fps => ⟨_, fpAddChecked fac fsrc fps, fpAdd fac fsrc fps⟩
  | .mul fac fsrc fps => ⟨_, fpMulChecked fac fsrc fps, fpMul fac fsrc fps⟩
  | .div fac fsrc fps => ⟨_, fpDivChecked fac fsrc fps, fpDiv fac fsrc fps⟩
  | .mod fac fsrc fps => ⟨_, fpModChecked fac fsrc fps, fpMod fac fsrc fps⟩
  | .cmp fac fsrc fps => ⟨_, fpCmpChecked fac fsrc fps, fpCmp fac fsrc fps⟩
  | .round val fps => ⟨_, fpRoundChecked val fps, fpRound val fps⟩
  | .ldcif facl fps => ⟨_, fpLdcifChecked facl fps, fpLdcif facl fps⟩
  | .stcfi val fps => ⟨_, fpStcfiChecked val fps, fpStcfi val fps⟩
  | .opMul s reg value => ⟨_, mulCpuChecked s reg value, mulCpu s reg value⟩
  | .opDiv s reg value => ⟨_, divCpuChecked s reg value, divCpu s reg value⟩
  | .opAsh s reg value => ⟨_, ashCpuChecked s reg value, ashCpu s reg value⟩
  | .opAshc s reg value => ⟨_, ashcCpuChecked s reg value, ashcCpu s reg value⟩

/-- Every shift has a count below the width of its operand (0 to 31 for 32 bits), every mask an
index up to 32, and no signed operation overflows or divides by zero. -/
def ArithCall.Defined (call : ArithCall) : Prop := call.run.checked.isSome

/-- A store of an integer, its number between the lowest of the format and the next integer. -/
def ArithCall.StoresLowest : ArithCall → Prop
  | .stcfi val fps =>
    -2 ^ (integerBits fps - 1) - 1 < value (significant fps val) ∧
      value (significant fps val) ≤ -2 ^ (integerBits fps - 1)
  | _ => False

/-! ## The floating operations are defined -/

theorem fpBinaryChecked_eq {op : Fpac → Fpac → Word → Option (FpResult Fpac)}
    {f : Fpac → Fpac → Word → FpResult Fpac}
    (h : ∀ fac fsrc fps, op fac fsrc fps = some (f fac fsrc fps)) (facV fsrcV : BitVec 64)
    (fps : Word) :
    fpBinaryChecked op facV fsrcV fps =
      some (f (toFac facV fps) (toFac fsrcV fps) fps).packed := by
  unfold fpBinaryChecked
  rw [bind_eq (toFacChecked_eq _ _), bind_eq (toFacChecked_eq _ _), bind_eq (h _ _ _),
    bind_eq (fromFacChecked_eq _)]
  rfl

theorem fpModChecked_eq (facV fsrcV : BitVec 64) (fps : Word) :
    fpModChecked facV fsrcV fps = some (fpMod facV fsrcV fps) := by
  unfold fpModChecked
  rw [bind_eq (toFacChecked_eq _ _), bind_eq (toFacChecked_eq _ _),
    bind_eq (modfp11Checked_eq _ _ _), bind_eq (fromFacChecked_eq _),
    bind_eq (fromFacChecked_eq _)]
  rfl

theorem fpCmpChecked_eq (facV fsrcV : BitVec 64) (fps : Word) :
    fpCmpChecked facV fsrcV fps = some (fpCmp facV fsrcV fps) := by
  unfold fpCmpChecked fpCmp
  rw [bind_eq (toFacChecked_eq _ _), bind_eq (toFacChecked_eq _ _),
    bind_eq (getExpChecked_eq _), bind_eq (getExpChecked_eq _)]
  dsimp only
  generalize (if getExp (toFac fsrcV fps).h = 0 then Fpac.zero else toFac fsrcV fps) = fsrc
  generalize (if getExp (toFac facV fps).h = 0 then Fpac.zero else toFac facV fps) = fac
  by_cases heq : fsrc.h = fac.h ∧ fsrc.l = fac.l
  · rw [if_pos heq, if_pos heq]
    rfl
  · rw [if_neg heq, if_neg heq, bind_eq (shr_eq (n := 28) _ (by decide) (by decide)),
      bind_eq (getSignChecked_eq _)]
    by_cases hflip : getSign (fsrc.h ^^^ fac.h) = false ∧ fac.h ≠ 0 ∧ fsrc.lt fac
    · rw [if_pos hflip, if_pos hflip]
      rfl
    · rw [if_neg hflip, if_neg hflip]
      rfl

theorem fpRoundChecked_eq (val : BitVec 64) (fps : Word) :
    fpRoundChecked val fps = some (fpRound val fps) := by
  unfold fpRoundChecked
  rw [bind_eq (shr_eq (n := 32) _ (by decide) (by decide)), bind_eq (roundfp11Checked_eq _ _ _),
    bind_eq (fromFacChecked_eq _)]
  rfl

/-- The shifts of an integer end when its leading bit is at the top. -/
theorem ldcifNormalizeChecked_eq (fuel : ℕ) (l : BitVec 32) (i : ℕ)
    (hfuel : 2 ^ 31 ≤ l.toNat * 2 ^ fuel) (hi : i + fuel ≤ 32) :
    ldcifNormalizeChecked fuel l i = some (ldcifNormalize fuel l i) ∧
      (ldcifNormalize fuel l i).2 ≤ 32 := by
  have hsign (x : BitVec 32) : getSign x = decide (2 ^ 31 ≤ x.toNat) := by
    unfold getSign
    rw [← BitVec.testBit_toNat, Nat.testBit_eq_decide_div_mod_eq, decide_eq_decide]
    omega
  induction fuel generalizing l i with
  | zero =>
    have htop : getSign l = true := by
      rw [hsign, decide_eq_true_eq]
      omega
    unfold ldcifNormalizeChecked ldcifNormalize
    rw [bind_eq (getSignChecked_eq _), if_pos htop]
    exact ⟨rfl, by omega⟩
  | succ fuel ih =>
    have hlt := l.isLt
    unfold ldcifNormalizeChecked ldcifNormalize
    rw [bind_eq (getSignChecked_eq _)]
    by_cases htop : getSign l = true
    · rw [if_pos htop, if_pos htop]
      exact ⟨rfl, by omega⟩
    · have hbelow : l.toNat < 2 ^ 31 := by
        rw [hsign, decide_eq_true_eq] at htop
        omega
      have hshift : (l <<< 1).toNat = l.toNat * 2 := by
        rw [BitVec.toNat_shiftLeft, Nat.shiftLeft_eq, pow_one, Nat.mod_eq_of_lt (by omega)]
      rw [if_neg htop, if_neg htop, bind_eq (shl_eq (n := 1) _ (by decide) (by decide)),
        bind_eq (signedOf_small (by omega) (by omega))]
      refine ih (l <<< 1) (i + 1) ?_ (by omega)
      rw [hshift, Nat.mul_assoc, ← pow_succ']
      exact hfuel

theorem limitExp_signedOf (fps : Word) :
    signedOf 32 (if fps &&& fpsL ≠ 0 then fpBias + 32 else fpBias + 16) =
      some (if fps &&& fpsL ≠ 0 then fpBias + 32 else fpBias + 16) := by
  split_ifs <;> rfl

theorem ldcifPackedChecked_eq {facl : BitVec 32} (fps : Word) (h : facl ≠ 0) :
    ldcifPackedChecked facl fps = some (ldcifPacked facl fps) := by
  have hpos : 0 < (ldcifMagnitude facl).toNat := by
    have hne : facl.toInt ≠ 0 := fun h0 => h (BitVec.toInt_inj.1 h0)
    rw [(ldcifMagnitude_toNat facl).1]
    omega
  obtain ⟨hrun, hcount⟩ := ldcifNormalizeChecked_eq 32 (ldcifMagnitude facl) 0 (by omega) le_rfl
  have hlimit := limitExp_eq fps
  have hbits : integerBits fps ≤ 32 := by
    rcases integerBits_cases fps with ⟨-, hp⟩ | ⟨-, hp⟩ <;> rw [hp]
    decide
  unfold ldcifPackedChecked ldcifPacked
  rw [bind_eq (getSignChecked_eq _)]
  refine (bind_eq hrun).trans ?_
  rw [bind_eq (limitExp_signedOf fps), hlimit]
  unfold fpBias
  rw [bind_eq (signedOf_small (by omega) (by omega)),
    bind_eq (shl_eq (n := 31) _ (by decide) (by decide)),
    bind_eq (shl_eq (n := 23) _ (by decide) (by decide)),
    bind_eq (shr_eq (n := 8) _ (by decide) (by decide)),
    bind_eq (shl_eq (n := 24) _ (by decide) (by decide))]
  cases getSign facl <;> rfl

theorem fpLdcifChecked_eq (facl : BitVec 32) (fps : Word) :
    fpLdcifChecked facl fps = some (fpLdcif facl fps) := by
  unfold fpLdcifChecked
  by_cases h : facl = 0
  · rw [if_pos h, fromFacChecked_eq, h]
    rfl
  · rw [if_neg h, bind_eq (ldcifPackedChecked_eq fps h), fpLdcif_eq fps h]
    by_cases hround : fps &&& (fpsD ||| fpsT) = 0
    · rw [if_pos hround, if_pos hround, bind_eq (roundfp11Checked_eq _ _ _), fromFacChecked_eq]
    · rw [if_neg hround, if_neg hround, fromFacChecked_eq]

/-! ## The conversion to an integer -/

/-- The magnitude is negated unless it is too large; only the lowest one has no negation. -/
theorem stcfiCoreChecked_checks {fac : Fpac} (sign : Bool) {e : ℤ} (fps : Word)
    (hfac : 2 ^ 55 ≤ fac.toNat ∧ fac.toNat < 2 ^ 56) (he : 0 ≤ e ∧ e ≤ 255) {m : ℚ}
    (hm : m = if e = 0 then 0 else (fac.toNat : ℚ) * 2 ^ (e - fpBias - 56)) :
    Checks (stcfiCoreChecked fac sign e fps)
      (¬(sign = true ∧ ⌊m⌋₊ = 2 ^ (integerBits fps - 1))) (stcfiCore fac sign e fps) := by
  have hpow : 0 < 2 ^ (integerBits fps - 1) ∧
      2 ^ (integerBits fps - 1) < 2 ^ integerBits fps := by
    rcases integerBits_cases fps with ⟨-, hp⟩ | ⟨-, hp⟩ <;> rw [hp] <;> decide
  have hlimit := limitExp_eq fps
  have hsigned := limitExp_signedOf fps
  rw [hlimit] at hsigned
  unfold stcfiCoreChecked stcfiCore
  simp only [decide_eq_true_eq]
  rw [hlimit, bind_eq hsigned]
  by_cases hsmall : e ≤ fpBias
  · have hfloor : ⌊m⌋₊ = 0 := by
      rw [Nat.floor_eq_zero, hm]
      split_ifs
      · exact zero_lt_one
      · exact packed_below_one hfac.2 hsmall
    rw [if_pos hsmall, if_pos hsmall]
    exact checks_pure_of _ fun h => hpow.1.ne (hfloor.symm.trans h.2)
  have hm' : m = fac.toNat * 2 ^ (e - fpBias - 56) := by
    rw [hm, if_neg]
    unfold fpBias at hsmall
    omega
  rw [if_neg hsmall, if_neg hsmall]
  by_cases hlarge : fpBias + integerBits fps < e
  · have habove := packed_above hfac.1 hlarge
    rw [← hm'] at habove
    rw [if_pos hlarge, if_pos hlarge]
    exact checks_pure_of _ fun h => (hpow.2.trans_le habove).ne' h.2
  have hk := packed_floor fps hfac.2 (not_le.1 hsmall) (not_lt.1 hlarge)
  rw [← hm'] at hk
  have hword := shiftedWord_toNat fps hk
  have hbits : integerBits fps = 16 ∨ integerBits fps = 32 :=
    (integerBits_cases fps).imp And.right And.right
  have hsum : signedOf 32 (24 + (fpBias + integerBits fps : ℤ)) =
      some (24 + (fpBias + integerBits fps)) := by
    unfold fpBias
    exact signedOf_small (by omega) (by omega)
  have hcount : signedOf 32 (24 + (fpBias + integerBits fps) - e) =
      some (24 + (fpBias + integerBits fps) - e) := by
    unfold fpBias
    exact signedOf_small (by omega) (by omega)
  rw [if_neg hlarge, if_neg hlarge, bind_eq hsum, bind_eq hcount,
    bind_eq (Fpac.rshVChecked_eq _ (by omega) (by omega))]
  have hshifted : (if fps &&& fpsL ≠ 0 then
      (fac.rshV (24 + (fpBias + integerBits fps) - e).toNat).l
      else (fac.rshV (24 + (fpBias + integerBits fps) - e).toNat).l &&& ~~~0o177777) =
      shiftedWord fps (fac.rshV (24 + (fpBias + integerBits fps) - e).toNat).l := rfl
  rw [hshifted]
  generalize shiftedWord fps (fac.rshV (24 + (fpBias + integerBits fps) - e).toNat).l = dst at hword
  refine .ite (fun hover => ?_) fun hunder => ?_
  · -- the lowest number is below the limit of a negative one
    refine checks_pure_of _ fun h => ?_
    have hfits := mt (shifted_below_limit fps sign hword).2 (not_not.2 hover)
    rw [h.1, if_pos rfl, h.2] at hfits
    apply hfits
    unfold FitsBits
    rcases hbits with hp | hp <;> rw [hp] <;> decide
  · cases sign with
    | false =>
      rw [if_neg Bool.false_ne_true, if_neg Bool.false_ne_true]
      exact checks_pure_of _ fun h => Bool.false_ne_true h.1
    | true =>
      rw [if_pos rfl, if_pos rfl]
      refine (checks_sneg (by decide) dst).map.iff (not_congr ?_)
      have hscale : (BitVec.intMin 32).toNat =
          2 ^ (integerBits fps - 1) * 2 ^ (32 - integerBits fps) := by
        rcases hbits with hp | hp <;> rw [hp] <;> rfl
      rw [← BitVec.toNat_inj, hword, hscale]
      constructor
      · exact fun h => ⟨rfl, Nat.eq_of_mul_eq_mul_right (Nat.two_pow_pos _) h⟩
      · exact fun h => by rw [h.2]

/-- The stored number is the lowest of its format exactly when its magnitude is. -/
theorem storesLowest_iff (val : BitVec 64) (fps : Word) :
    (ArithCall.stcfi val fps).StoresLowest ↔
      negative val = true ∧ ⌊magnitude (significant fps val)⌋₊ = 2 ^ (integerBits fps - 1) := by
  have hpow : (2 ^ (integerBits fps - 1) : ℕ) ≠ 0 := (Nat.two_pow_pos _).ne'
  have hpos : (0 : ℚ) < 2 ^ (integerBits fps - 1) := by positivity
  have hm0 : 0 ≤ magnitude (significant fps val) := magnitude_nonneg _
  unfold ArithCall.StoresLowest
  dsimp only
  rw [Nat.floor_eq_iff' hpow, value_eq, negative_significant]
  unfold signed
  cases negative val with
  | false =>
    rw [if_neg Bool.false_ne_true]
    refine iff_of_false (fun h => ?_) fun h => Bool.false_ne_true h.1
    linarith [h.2]
  | true =>
    rw [if_pos rfl]
    push_cast
    constructor
    · rintro ⟨hlo, hhi⟩
      exact ⟨rfl, by linarith, by linarith⟩
    · rintro ⟨-, hlo, hhi⟩
      exact ⟨by linarith, by linarith⟩

theorem stcfiPostedChecked_eq (fps : Word) (dst : BitVec 32) (c : Bool) :
    stcfiPostedChecked fps dst c =
      some (dst, c, if c then (fpNotrap fps fecIcvt 0).2 else 0) := by
  unfold stcfiPostedChecked
  cases c with
  | false => rfl
  | true =>
    rw [if_pos rfl, if_pos rfl, bind_eq (fpNotrapChecked_eq _ _ _)]
    rfl

theorem fpStcfiChecked_checks (val : BitVec 64) (fps : Word) :
    Checks (fpStcfiChecked val fps) (¬(ArithCall.stcfi val fps).StoresLowest)
      (fpStcfi val fps) := by
  let frh : BitVec 32 := (val >>> 32).setWidth 32
  let fac : Fpac := ⟨if fps &&& fpsD ≠ 0 then val.setWidth 32 else 0, (frh &&& fpFrach) ||| fpHb⟩
  have hsign : getSign frh = negative val := getSign_toFac val fps
  have hexp : getExp frh = exponent val := getExp_toFac val fps
  have hfac : fac.toNat = significand (significant fps val) := stcfi_fraction val fps
  have hbounds := significand_bounds (significant fps val)
  have hm : magnitude (significant fps val) =
      if exponent val = 0 then 0 else (fac.toNat : ℚ) * 2 ^ (exponent val - fpBias - 56) := by
    unfold magnitude
    rw [exponent_significant, hfac]
  have he := getExp_bounds frh
  rw [hexp] at he
  have hcore := stcfiCoreChecked_checks (negative val) fps (by omega) he hm
  rw [← storesLowest_iff, ← hsign, ← hexp] at hcore
  have hrun : fpStcfiChecked val fps = stcfiCoreChecked fac (getSign frh) (getExp frh) fps >>=
      fun t => stcfiPostedChecked fps t.1 t.2 := by
    unfold fpStcfiChecked
    rw [bind_eq (shr_eq (n := 32) _ (by decide) (by decide))]
    refine (bind_eq (getSignChecked_eq frh)).trans ?_
    exact bind_eq (getExpChecked_eq frh)
  have hposted := stcfiPostedChecked_eq fps (stcfiCore fac (getSign frh) (getExp frh) fps).1
    (stcfiCore fac (getSign frh) (getExp frh) fps).2
  rw [hrun]
  exact (hcore.bind (checks_some hposted)).iff (and_iff_left trivial)

/-! ## The extended instructions are defined -/

theorem pairChecked_eq (s : Cpu) (reg : Field3) :
    pairChecked s reg = some (s.regs.r reg ++ s.regs.r (pairReg reg)) := by
  have hpair (hi lo : Word) :
      (hi.setWidth 32 : BitVec 32) <<< 16 ||| lo.setWidth 32 = hi ++ lo := by
    apply BitVec.eq_of_getLsbD_eq
    intro i hi
    rw [BitVec.getLsbD_append, BitVec.getLsbD_or, BitVec.getLsbD_shiftLeft]
    by_cases hlow : i < 16
    · simp [hlow, hi]
    · simp [hlow, hi, show i - 16 < 32 by omega, BitVec.getLsbD_of_ge lo i (by omega)]
  unfold pairChecked
  rw [bind_eq (shl_eq (n := 16) _ (by decide) (by decide)), ← hpair]
  rfl

theorem mulCpuChecked_eq (s : Cpu) (reg : Field3) (value : Word) :
    mulCpuChecked s reg value = some (mulCpu s reg value) := by
  have hbound := product_bound (fitsWord_toInt (s.regs.r reg)) (fitsWord_toInt value)
  have hfits : FitsSigned 32 (((s.regs.r reg).signExtend 32 : BitVec 32).toInt *
      (value.signExtend 32 : BitVec 32).toInt) := by
    rw [toInt_extend, toInt_extend]
    exact fitsSigned_int (by omega) (by omega)
  unfold mulCpuChecked
  rw [bind_eq (smul_eq hfits), bind_eq (shr_eq (n := 16) _ (by decide) (by decide))]
  rfl

/-- The quotient is computed of operands that have one, and the remainder is smaller than the
divisor. -/
theorem divCpuChecked_eq (s : Cpu) (reg : Field3) (divisor : Word) :
    divCpuChecked s reg divisor = some (divCpu s reg divisor) := by
  unfold divCpuChecked divCpu
  rw [bind_eq (pairChecked_eq s reg)]
  dsimp only
  generalize s.regs.r reg ++ s.regs.r (pairReg reg) = src
  by_cases hzero : divisor = 0
  · rw [if_pos hzero, if_pos hzero]
    rfl
  rw [if_neg hzero, if_neg hzero]
  by_cases hlowest : src = 0o20000000000 ∧ divisor = 0o177777
  · rw [if_pos hlowest, if_pos hlowest]
    rfl
  -- the two divisions C leaves undefined are refused above
  have hextend (x : Word) (h : divisor.signExtend 32 = (x.signExtend 32 : BitVec 32)) :
      divisor = x := by
    have hlow := congrArg (BitVec.setWidth 16) h
    rwa [signExtend_low, signExtend_low] at hlow
  have hdiv : sdiv src (divisor.signExtend 32) = some (src.sdiv (divisor.signExtend 32)) :=
    sdiv_eq (fun h => hzero (hextend 0 h)) fun h => hlowest ⟨h.1, hextend 0o177777 h.2⟩
  rw [if_neg hlowest, if_neg hlowest, bind_eq hdiv]
  have hquotient := toInt_quotient hlowest
  generalize src.sdiv (divisor.signExtend 32) = dst at hquotient
  by_cases hout : (32767#32).slt dst ∨ dst.slt (-32768#32)
  · rw [if_pos hout, if_pos hout]
    rfl
  · have hdst : FitsWord dst.toInt := not_not.1 (mt (not_fitsWord_iff dst).2 hout)
    have hdivisor : FitsWord (divisor.signExtend 32 : BitVec 32).toInt := by
      rw [toInt_extend]
      exact fitsWord_toInt divisor
    have hbound := product_bound hdivisor hdst
    have hrem : src.toInt - (divisor.signExtend 32 * dst).toInt =
        src.toInt.tmod divisor.toInt := by
      rw [toInt_mul hdivisor hdst, toInt_extend, hquotient, Int.tmod_def]
    have hsmall := (divides_tdiv src.toInt (fun h => hzero (BitVec.toInt_inj.1 h))).small
    have hword := fitsWord_toInt divisor
    have hrange : FitsSigned 32 (src.toInt - (divisor.signExtend 32 * dst).toInt) := by
      obtain ⟨hlo, hhi⟩ := hword
      rw [hrem]
      exact fitsSigned_int (by omega) (by omega)
    rw [if_neg hout, if_neg hout,
      bind_eq (smul_eq (fitsSigned_int (by omega) (by omega))), bind_eq (ssub_eq hrange)]
    rfl

theorem signsChecked_eq (src : BitVec 32) :
    signsChecked src = some (if src.msb then -1 else 0) := by
  unfold signsChecked
  cases src.msb <;> rfl

theorem shiftRightChecked_eq (src : BitVec 32) {sh : ℕ} (hlo : 32 < sh) (hhi : sh < 64) :
    shiftRightChecked src sh = some (shiftRight src sh) := by
  have h64 : (64 - sh : ℤ).toNat = 64 - sh := by omega
  have h63 : (63 - sh : ℤ).toNat = 63 - sh := by omega
  have h32 : (sh - 32 : ℤ).toNat = sh - 32 := by omega
  unfold shiftRightChecked
  rw [bind_eq (sar_eq _ (by omega) (by omega)), bind_eq (signsChecked_eq src),
    bind_eq (shl_eq _ (by omega) (by omega)), bind_eq (sar_eq _ (by omega) (by omega)), h64, h63,
    h32]
  rfl

theorem ashShiftChecked_eq (src : BitVec 32) {sh : ℕ} (hsh : sh < 64) :
    ashShiftChecked src sh = some (ashShift src sh) := by
  unfold ashShiftChecked ashShift
  by_cases h0 : sh = 0
  · rw [if_pos h0, if_pos h0]
    rfl
  rw [if_neg h0, if_neg h0]
  by_cases h15 : sh ≤ 15
  · have hcount : (16 - sh : ℤ).toNat = 16 - sh := by omega
    rw [if_pos h15, if_pos h15, bind_eq (shl_eq _ (by omega) (by omega)),
      bind_eq (sar_eq _ (by omega) (by omega)), hcount]
    rfl
  rw [if_neg h15, if_neg h15]
  by_cases h31 : sh ≤ 31
  · have hcount : (sh - 16 : ℤ).toNat = sh - 16 := by omega
    rw [if_pos h31, if_pos h31, bind_eq (shl_eq _ (by omega) (by omega)), hcount]
    rfl
  rw [if_neg h31, if_neg h31]
  by_cases h32 : sh = 32
  · rw [if_pos h32, if_pos h32, bind_eq (signsChecked_eq src)]
    rfl
  · rw [if_neg h32, if_neg h32]
    exact shiftRightChecked_eq src (by omega) hsh

theorem ashcShiftChecked_eq (src : BitVec 32) {sh : ℕ} (hsh : sh < 64) :
    ashcShiftChecked src sh = some (ashcShift src sh) := by
  unfold ashcShiftChecked ashcShift
  by_cases h0 : sh = 0
  · rw [if_pos h0, if_pos h0]
    rfl
  rw [if_neg h0, if_neg h0]
  by_cases h31 : sh ≤ 31
  · have hcount : (32 - sh : ℤ).toNat = 32 - sh := by omega
    rw [if_pos h31, if_pos h31, bind_eq (shl_eq _ (by omega) (by omega)),
      bind_eq (sar_eq _ (by omega) (by omega)), bind_eq (signsChecked_eq src),
      bind_eq (shl_eq _ (by omega) (by omega)), hcount]
    rfl
  rw [if_neg h31, if_neg h31]
  by_cases h32 : sh = 32
  · rw [if_pos h32, if_pos h32, bind_eq (signsChecked_eq src)]
    rfl
  · rw [if_neg h32, if_neg h32]
    exact shiftRightChecked_eq src (by omega) hsh

theorem shiftTimeChecked_eq {sh : ℕ} (hsh : sh < 64) :
    shiftTimeChecked sh = some (shiftExtraNs sh) := by
  have hplaces : (if sh ≤ 31 then (sh : ℤ) else 64 - sh) =
      ((if sh ≤ 31 then sh else 64 - sh : ℕ) : ℤ) := by
    split_ifs <;> omega
  unfold shiftTimeChecked shiftExtraNs
  rw [hplaces, bind_eq (signedOf_small (by omega) (by split_ifs <;> omega)), BitVec.ofInt_natCast]
  rfl

theorem ashCpuChecked_eq (s : Cpu) (reg : Field3) (value : Word) :
    ashCpuChecked s reg value = some (ashCpu s reg value) := by
  have hsh := shiftCode_lt value
  unfold ashCpuChecked
  dsimp only
  rw [bind_eq (shiftTimeChecked_eq hsh), bind_eq (ashShiftChecked_eq _ hsh)]
  rfl

theorem ashcCpuChecked_eq (s : Cpu) (reg : Field3) (value : Word) :
    ashcCpuChecked s reg value = some (ashcCpu s reg value) := by
  have hsh := shiftCode_lt value
  unfold ashcCpuChecked
  dsimp only
  rw [bind_eq (shiftTimeChecked_eq hsh), bind_eq (pairChecked_eq s reg),
    bind_eq (ashcShiftChecked_eq _ hsh), bind_eq (shr_eq (n := 16) _ (by decide) (by decide))]
  rfl

/-! ## All calls -/

theorem ArithCall.checks (call : ArithCall) :
    Checks call.run.checked (¬call.StoresLowest) call.run.value := by
  have hdefined {α : Type} {x : Option α} {a : α} (h : x = some a) : Checks x (¬False) a :=
    (checks_some h).iff (iff_of_true trivial not_false)
  cases call with
  | add fac fsrc fps => exact hdefined (fpBinaryChecked_eq addfp11Checked_eq fac fsrc fps)
  | mul fac fsrc fps => exact hdefined (fpBinaryChecked_eq mulfp11Checked_eq fac fsrc fps)
  | div fac fsrc fps => exact hdefined (fpBinaryChecked_eq divfp11Checked_eq fac fsrc fps)
  | mod fac fsrc fps => exact hdefined (fpModChecked_eq fac fsrc fps)
  | cmp fac fsrc fps => exact hdefined (fpCmpChecked_eq fac fsrc fps)
  | round val fps => exact hdefined (fpRoundChecked_eq val fps)
  | ldcif facl fps => exact hdefined (fpLdcifChecked_eq facl fps)
  | stcfi val fps => exact fpStcfiChecked_checks val fps
  | opMul s reg value => exact hdefined (mulCpuChecked_eq s reg value)
  | opDiv s reg value => exact hdefined (divCpuChecked_eq s reg value)
  | opAsh s reg value => exact hdefined (ashCpuChecked_eq s reg value)
  | opAshc s reg value => exact hdefined (ashcCpuChecked_eq s reg value)

/-- The only undefined operation is the negation of the lowest integer: every other call computes
the model's result with no shift, mask index or signed result out of its range. -/
theorem arithmetic_defined_iff (call : ArithCall) :
    (call.Defined ↔ ¬call.StoresLowest) ∧
      ∀ t, call.run.checked = some t → t = call.run.value :=
  ⟨call.checks.isSome_iff, fun t ht => ((call.checks t).1 ht).2⟩

/-- The store of -32768 as a word. -/
theorem lowest_word_negated : ¬∀ call : ArithCall, call.Defined := by
  intro h
  have hnone : fpStcfiChecked 0xC800000000000000 0 = none := by decide
  have hsome : (fpStcfiChecked 0xC800000000000000 0).isSome := h (.stcfi 0xC800000000000000 0)
  rw [hnone] at hsome
  cases hsome

end Pdp11
