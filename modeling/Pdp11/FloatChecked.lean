import Pdp11.FloatNormalize
import Pdp11.FloatDivide
import Pdp11.Lib.CheckedArith

/-! The floating arithmetic with every shift, mask and signed result checked. -/

namespace Pdp11

open CheckedArith

/-! ## Fields and shifts -/

/-- `and_mask[n]`, an index inside the table. -/
def andMaskChecked (n : ℤ) : Option (BitVec 32) := guarded (0 ≤ n ∧ n ≤ 32) (andMask n.toNat)

/-- `GET_BIT(x, n)`; the sign is bit 31. -/
def getBitChecked (x : BitVec 32) (n : ℕ) : Option Bool := do
  let y ← shr x n
  pure (y &&& 1 ≠ 0)

def getSignChecked (h : BitVec 32) : Option Bool := getBitChecked h 31

def getExpChecked (h : BitVec 32) : Option ℤ := do
  let e ← shr h 23
  pure (e &&& 0o377).toNat

namespace Fpac

/-- `F_RSH_V`, checked: a count of zero would shift the high half by 32. -/
def rshVChecked (f : Fpac) (n : ℤ) : Option Fpac :=
  if 32 ≤ n then do
    let l ← shr f.h (n - 32)
    let mask ← andMaskChecked (64 - n)
    pure ⟨l &&& mask, 0⟩
  else do
    let l ← shr f.l n
    let mask ← andMaskChecked (32 - n)
    let high ← shl f.h (32 - n)
    let h ← shr f.h n
    pure ⟨(l &&& mask) ||| high, h &&& mask⟩

/-- `F_LSH_V`, checked. -/
def lshVChecked (f : Fpac) (n : ℤ) : Option Fpac :=
  if 32 ≤ n then do
    let h ← shl f.l (n - 32)
    pure ⟨0, h⟩
  else do
    let h ← shl f.h n
    let low ← shr f.l (32 - n)
    let mask ← andMaskChecked n
    let l ← shl f.l n
    pure ⟨l, h ||| (low &&& mask)⟩

/-- `F_LSH_K`, checked. -/
def lshKChecked (f : Fpac) (n : ℤ) : Option Fpac := do
  let h ← shl f.h n
  let low ← shr f.l (32 - n)
  let mask ← andMaskChecked n
  let l ← shl f.l n
  pure ⟨l, h ||| (low &&& mask)⟩

/-- `F_RSH_K`, checked. -/
def rshKChecked (f : Fpac) (n : ℤ) : Option Fpac := do
  let l ← shr f.l n
  let mask ← andMaskChecked (32 - n)
  let high ← shl f.h (32 - n)
  let h ← shr f.h n
  pure ⟨(l &&& mask) ||| high, h &&& mask⟩

def lsh1Checked (f : Fpac) : Option Fpac := do
  let h ← shl f.h 1
  let top ← shr f.l 31
  let l ← shl f.l 1
  pure ⟨l, h ||| (top &&& 1)⟩

def rsh1Checked (f : Fpac) : Option Fpac := do
  let l ← shr f.l 1
  let high ← shl (f.h &&& 1) 31
  let h ← shr f.h 1
  pure ⟨(l &&& 0x7FFFFFFF) ||| high, h &&& 0x7FFFFFFF⟩

end Fpac

/-- The packed value holds the high half in 64 bits. -/
def toFacChecked (v : BitVec 64) (fps : Word) : Option Fpac := do
  let h ← shr v 32
  pure ⟨if fps &&& fpsD = 0 then 0 else v.setWidth 32, h.setWidth 32⟩

def fromFacChecked (f : Fpac) : Option (BitVec 64) := do
  let h ← shl (f.h.setWidth 64) 32
  pure (h ||| f.l.setWidth 64)

/-! ## Rounding and packing -/

def fpNotrapChecked (fps : Word) (code fec : ℕ) : Option (Bool × ℕ) :=
  if fecIcvt ≤ code ∧ code ≤ fecUndfv then do
    let i ← sar (BitVec.ofNat 32 code) 1
    if fps &&& [0, 0, 0, fpsIc, fpsIv, fpsIu, fpsIuv].getD i.toNat 0 = 0 then pure (true, fec)
    else pure (false, code)
  else pure (false, code)

def guardRoundChecked (fps : Word) (exp : ℤ) (frac : Fpac) : Option (Fpac × ℤ) := do
  let frac := Fpac.add (if fps &&& fpsD ≠ 0 then .droundGuard else .froundGuard) frac
  if ← getBitChecked frac.h carryBit then do
    let frac ← frac.rsh1Checked
    let exp ← signedOf 32 (exp + 1)
    pure (frac, exp)
  else pure (frac, exp)

def packFieldsChecked (fac : Fpac) (fe : Fpac × ℤ) : Option Fpac := do
  let frac ← fe.1.rshKChecked 3
  let e ← shl ((BitVec.ofInt 32 fe.2) &&& 0o377) 23
  pure ⟨frac.l, (fac.h &&& fpSign) ||| e ||| (frac.h &&& fpFrach)⟩

/-- The range checks on a packed result, `fec` the code posted so far. -/
def rangeChecked (fac : Fpac) (exp : ℤ) (fps : Word) (fec : ℕ) : Option (FpResult Fpac) :=
  if exp > 0o377 then do
    let (quiet, fec) ← fpNotrapChecked fps fecOvflo fec
    pure ⟨if quiet then .zero else fac, true, fec⟩
  else if exp ≤ 0 then do
    let (quiet, fec) ← fpNotrapChecked fps fecUnflo fec
    pure ⟨if quiet then .zero else fac, false, fec⟩
  else pure ⟨fac, false, fec⟩

def roundAndPackChecked (fac : Fpac) (exp : ℤ) (frac : Fpac) (r : Bool) (fps : Word) (fec : ℕ) :
    Option (FpResult Fpac) := do
  let fe ← if r ∧ fps &&& fpsT = 0 then guardRoundChecked fps exp frac else pure (frac, exp)
  let fac ← packFieldsChecked fac fe
  rangeChecked fac fe.2 fps fec

def roundfp11Checked (f : Fpac) (fps : Word) (fec : ℕ) : Option (FpResult Fpac) := do
  let outf := Fpac.add .fround f
  if ← getSignChecked (outf.h ^^^ f.h) then do
    let (quiet, fec) ← fpNotrapChecked fps fecOvflo fec
    pure ⟨if quiet then .zero else { outf with h := outf.h ^^^ fpSign }, true, fec⟩
  else pure ⟨outf, false, fec⟩

/-! ## Normalization -/

/-- The mask is shifted to the guarded place. -/
def shortcutChecked (mask : BitVec 32) (n : ℕ) (fe : Fpac × ℤ) : Option (Fpac × ℤ) := do
  let m ← shl mask 3
  if fe.1.h &&& m = 0 then do
    let frac ← fe.1.lshKChecked n
    let exp ← signedOf 32 (fe.2 - n)
    pure (frac, exp)
  else pure fe

def shortcutsChecked (fe : Fpac × ℤ) : Option (Fpac × ℤ) := do
  let fe ← shortcutChecked 0x00FFFFFF 24 fe
  let fe ← shortcutChecked 0x00FFF000 12 fe
  shortcutChecked 0x00FC0000 6 fe

/-- The single shifts, which must end within the fuel. -/
def normalizeChecked : ℕ → Fpac × ℤ → Option (Fpac × ℤ)
  | 0, fe => do
    if ← getBitChecked fe.1.h hiddenBit then pure fe else none
  | fuel + 1, fe => do
    if ← getBitChecked fe.1.h hiddenBit then pure fe
    else do
      let frac ← fe.1.lsh1Checked
      let exp ← signedOf 32 (fe.2 - 1)
      normalizeChecked fuel (frac, exp)

/-- A normalization, with or without the shortcuts. -/
def normalizedChecked (short : Bool) (fe : Fpac × ℤ) : Option (Fpac × ℤ) :=
  (if short then shortcutsChecked fe else pure fe) >>= normalizeChecked normalizeFuel

/-! ## Operations on unpacked values -/

def alignedFracChecked (fsrcfrac : Fpac) (ediff : ℤ) : Option Fpac :=
  if ediff ≠ 0 then fsrcfrac.rshVChecked ediff else pure fsrcfrac

def subAlignedChecked (fac : Fpac) (facexp ediff : ℤ) (facfrac : Fpac) (fps : Word) :
    Option (FpResult Fpac) :=
  if facfrac.isZero then pure ⟨.zero, false, 0⟩
  else do
    let fe ← normalizedChecked (ediff ≤ 1) (facfrac, facexp)
    roundAndPackChecked fac fe.2 fe.1 true fps 0

def sumAlignedChecked (fac : Fpac) (facexp : ℤ) (facfrac : Fpac) (fps : Word) :
    Option (FpResult Fpac) := do
  if ← getBitChecked facfrac.h carryBit then do
    let facfrac ← facfrac.rsh1Checked
    let facexp ← signedOf 32 (facexp + 1)
    roundAndPackChecked fac facexp facfrac true fps 0
  else roundAndPackChecked fac facexp facfrac true fps 0

/-- `fac + fsrc` of the operands in order of magnitude, their exponents not zero. -/
def addOrderedChecked (fac fsrc : Fpac) (facexp fsrcexp : ℤ) (fps : Word) :
    Option (FpResult Fpac) := do
  let ediff ← signedOf 32 (facexp - fsrcexp)
  if 60 ≤ ediff then pure ⟨fac, false, 0⟩
  else do
    let facfrac ← fac.getFrac.lshKChecked 3
    let fsrcfrac ← fsrc.getFrac.lshKChecked 3
    let facSign ← getSignChecked fac.h
    let fsrcSign ← getSignChecked fsrc.h
    let fsrcfrac ← alignedFracChecked fsrcfrac ediff
    if facSign ≠ fsrcSign then
      subAlignedChecked fac facexp ediff (Fpac.sub fsrcfrac facfrac) fps
    else sumAlignedChecked fac facexp (Fpac.add fsrcfrac facfrac) fps

def addfp11Checked (fac fsrc : Fpac) (fps : Word) : Option (FpResult Fpac) := do
  let (fac, fsrc) := byMagnitude fac fsrc
  let facexp ← getExpChecked fac.h
  let fsrcexp ← getExpChecked fsrc.h
  if facexp = 0 then pure ⟨if fsrcexp ≠ 0 then fsrc else .zero, false, 0⟩
  else if fsrcexp = 0 then pure ⟨fac, false, 0⟩
  else addOrderedChecked fac fsrc facexp fsrcexp fps

/-- One pass of the multiply; the multiplier is shifted out from the right. -/
def mulStepChecked (mpc : Fpac) (s : BitVec 32 × Fpac) : Option (BitVec 32 × Fpac) := do
  let result ← (if s.1 &&& 1 ≠ 0 then Fpac.add mpc s.2 else s.2).rsh1Checked
  let mpy ← shr s.1 1
  pure (mpy, result)

def mulStepHighChecked (mpc : Fpac) (s : BitVec 32 × Fpac) : Option (BitVec 32 × Fpac) := do
  let result ← (if s.1 &&& 1 ≠ 0 then { s.2 with h := s.2.h + mpc.h } else s.2).rsh1Checked
  let mpy ← shr s.1 1
  pure (mpy, result)

def lowPassChecked (mpc : Fpac) (l : BitVec 32) : Option (BitVec 32 × Fpac) :=
  if l ≠ 0 then countUp 32 (fun _ => mulStepChecked mpc) (l, .zero) else pure (l, .zero)

def fracMulfp11Checked (f1 f2 : Fpac) : Option Fpac := do
  let mpc ← f2.lshKChecked 3
  if f1.l ||| mpc.l = 0 then do
    let s ← countUp 24 (fun _ => mulStepHighChecked mpc) (f1.h, .zero)
    pure s.2
  else do
    let low ← lowPassChecked mpc f1.l
    let s ← countUp 24 (fun _ => mulStepChecked mpc) (f1.h, low.2)
    pure s.2

/-- The last shift of a product or a quotient, when its hidden bit is clear. -/
def normalizeOnceChecked (frac : Fpac) (exp : ℤ) : Option (Fpac × ℤ) := do
  if ← getBitChecked frac.h hiddenBit then pure (frac, exp)
  else do
    let frac ← frac.lsh1Checked
    let exp ← signedOf 32 (exp - 1)
    pure (frac, exp)

def mulFracChecked (fac fsrc : Fpac) (facexp fsrcexp : ℤ) : Option (Fpac × ℤ) := do
  let sum ← signedOf 32 (facexp + fsrcexp)
  let facexp ← signedOf 32 (sum - fpBias)
  let facfrac ← fracMulfp11Checked fac.getFrac fsrc.getFrac
  normalizeOnceChecked facfrac facexp

def mulfp11Checked (fac fsrc : Fpac) (fps : Word) : Option (FpResult Fpac) := do
  let facexp ← getExpChecked fac.h
  let fsrcexp ← getExpChecked fsrc.h
  if facexp = 0 ∨ fsrcexp = 0 then pure ⟨.zero, false, 0⟩
  else do
    let fe ← mulFracChecked fac fsrc facexp fsrcexp
    roundAndPackChecked { fac with h := fac.h ^^^ fsrc.h } fe.2 fe.1 true fps 0

def divLoopChecked (qd : Bool) (divisor : Fpac) : ℕ → Fpac → Fpac → Option (ℕ × Fpac)
  | 0, _, quo => pure (0, quo)
  | i + 1, dividend, quo =>
    if dividend.isZero then pure (i + 1, quo)
    else do
      let quo ← quo.lsh1Checked
      let (dividend, quo) := if !dividend.lt divisor then
          (Fpac.sub divisor dividend,
            if qd then { quo with l := quo.l ||| 1 } else { quo with h := quo.h ||| 1 })
        else (dividend, quo)
      let dividend ← dividend.lsh1Checked
      let _ ← signedOf 32 ((i + 1 : ℕ) - 1)
      divLoopChecked qd divisor i dividend quo

def justifiedChecked (r : ℕ × Fpac) : Option Fpac :=
  if 0 < r.1 then r.2.lshVChecked r.1 else pure r.2

def divfp11Checked (fac fsrc : Fpac) (fps : Word) : Option (FpResult Fpac) := do
  let facexp ← getExpChecked fac.h
  let fsrcexp ← getExpChecked fsrc.h
  if facexp = 0 then pure ⟨.zero, false, 0⟩
  else do
    let facfrac ← fac.getFrac.lshKChecked 3
    let fsrcfrac ← fsrc.getFrac.lshKChecked 3
    let diff ← signedOf 32 (facexp - fsrcexp)
    let biased ← signedOf 32 (diff + fpBias)
    let facexp ← signedOf 32 (biased + 1)
    let qd : Bool := fps &&& fpsD ≠ 0
    let r ← divLoopChecked qd fsrcfrac (23 + 3 + (if qd then 33 else 1)) facfrac .zero
    let quo ← justifiedChecked r
    let fe ← normalizeOnceChecked quo facexp
    roundAndPackChecked { fac with h := fac.h ^^^ fsrc.h } fe.2 fe.1 true fps 0

def modFractionChecked (sign frac : Fpac) (shift : ℤ) (fps : Word) : Option (FpResult Fpac) :=
  if frac.isZero then pure ⟨.zero, false, 0⟩
  else do
    let frac ← frac.lshVChecked shift
    let fe ← normalizedChecked true (frac, fpBias)
    roundAndPackChecked sign fe.2 fe.1 true fps 0

def modfp11Checked (fac fsrc : Fpac) (fps : Word) : Option (FpResult (Fpac × Fpac)) := do
  let facexp ← getExpChecked fac.h
  let fsrcexp ← getExpChecked fsrc.h
  if facexp = 0 ∨ fsrcexp = 0 then pure ⟨(.zero, .zero), false, 0⟩
  else do
    let sign : Fpac := { fac with h := fac.h ^^^ fsrc.h }
    let fe ← mulFracChecked fac fsrc facexp fsrcexp
    if fe.2 ≤ fpBias then do
      let r ← roundAndPackChecked sign fe.2 fe.1 true fps 0
      pure ⟨(.zero, r.val), r.v, r.fec⟩
    else if (if fps &&& fpsD ≠ 0 then fpBias + 56 else fpBias + 24) < fe.2 then do
      let r ← roundAndPackChecked sign fe.2 fe.1 false fps 0
      pure ⟨(r.val, .zero), r.v, r.fec⟩
    else do
      let shift ← signedOf 32 (fe.2 - fpBias)
      let fmask ← Fpac.fmask.rshVChecked shift
      let f ← modFractionChecked sign (fe.1.masked fmask) shift fps
      let r ← roundAndPackChecked sign fe.2 (fe.1.unmasked fmask) false fps f.fec
      pure ⟨(r.val, f.val), r.v, r.fec⟩

end Pdp11
