import Pdp11.Words
import Mathlib.Data.Int.Notation

namespace Pdp11

/-- The 64-bit fraction is held as two 32-bit halves. -/
structure Fpac where
  l : BitVec 32
  h : BitVec 32
  deriving DecidableEq, Repr

abbrev fpsCc : Word := 0o000017
abbrev fpsN : Word := 0o000010
abbrev fpsZ : Word := 0o000004
abbrev fpsV : Word := 0o000002
abbrev fpsC : Word := 0o000001
abbrev fpsT : Word := 0o000040
abbrev fpsL : Word := 0o000100
abbrev fpsD : Word := 0o000200
abbrev fpsIc : Word := 0o000400
abbrev fpsIv : Word := 0o001000
abbrev fpsIu : Word := 0o002000
abbrev fpsIuv : Word := 0o004000
abbrev fpsId : Word := 0o040000
abbrev fpsEr : Word := 0o100000
abbrev fpsRw : Word := 0o147757

abbrev fecDzro : ℕ := 4
abbrev fecIcvt : ℕ := 6
abbrev fecOvflo : ℕ := 8
abbrev fecUnflo : ℕ := 10
abbrev fecUndfv : ℕ := 12

abbrev fpSign : BitVec 32 := 0x80000000
abbrev fpFrach : BitVec 32 := 0x7FFFFF
abbrev fpHb : BitVec 32 := 0x800000
abbrev fpBias : ℤ := 0o200

def getExp (h : BitVec 32) : ℤ := (h.extractLsb' 23 8).toNat
def getSign (h : BitVec 32) : Bool := h.getLsbD 31

/-- The bit above the guarded hidden bit, and the guarded hidden bit itself. -/
abbrev carryBit : ℕ := 27
abbrev hiddenBit : ℕ := 26

def andMask (n : ℕ) : BitVec 32 := (1#32 <<< n) - 1

namespace Fpac

def zero : Fpac := ⟨0, 0⟩
def fround : Fpac := ⟨0x80000000, 0⟩
def froundGuard : Fpac := ⟨0, 4⟩
def droundGuard : Fpac := ⟨4, 0⟩
def fmask : Fpac := ⟨0xFFFFFFFF, 0x7FFFFFF⟩

def isZero (f : Fpac) : Bool := f.h ||| f.l = 0

/-- `F_ADD(s2, s1, ds)`. -/
def add (s2 s1 : Fpac) : Fpac :=
  let l := s1.l + s2.l
  ⟨l, s1.h + s2.h + (if l < s2.l then 1 else 0)⟩

/-- `F_SUB(s2, s1, ds)`: `s1 - s2`. -/
def sub (s2 s1 : Fpac) : Fpac :=
  ⟨s1.l - s2.l, s1.h - s2.h - (if s1.l < s2.l then 1 else 0)⟩

def lt (x y : Fpac) : Bool := x.h < y.h ∨ (x.h = y.h ∧ x.l < y.l)

/-- Magnitude comparison, the sign bits masked off. -/
def ltAp (x y : Fpac) : Bool :=
  x.h &&& ~~~fpSign < y.h &&& ~~~fpSign ∨
    (x.h &&& ~~~fpSign = y.h &&& ~~~fpSign ∧ x.l < y.l)

def getFrac (f : Fpac) : Fpac := ⟨f.l, (f.h &&& fpFrach) ||| fpHb⟩

def rshV (f : Fpac) (n : ℕ) : Fpac :=
  if 32 ≤ n then ⟨(f.h >>> (n - 32)) &&& andMask (64 - n), 0⟩
  else ⟨((f.l >>> n) &&& andMask (32 - n)) ||| (f.h <<< (32 - n)),
    (f.h >>> n) &&& andMask (32 - n)⟩

def lshV (f : Fpac) (n : ℕ) : Fpac :=
  if 32 ≤ n then ⟨0, f.l <<< (n - 32)⟩
  else ⟨f.l <<< n, (f.h <<< n) ||| ((f.l >>> (32 - n)) &&& andMask n)⟩

def lsh1 (f : Fpac) : Fpac := ⟨f.l <<< 1, (f.h <<< 1) ||| ((f.l >>> 31) &&& 1)⟩

def rsh1 (f : Fpac) : Fpac :=
  ⟨((f.l >>> 1) &&& 0x7FFFFFFF) ||| ((f.h &&& 1) <<< 31), (f.h >>> 1) &&& 0x7FFFFFFF⟩

def lshK (f : Fpac) (n : ℕ) : Fpac :=
  ⟨f.l <<< n, (f.h <<< n) ||| ((f.l >>> (32 - n)) &&& andMask n)⟩

def rshK (f : Fpac) (n : ℕ) : Fpac :=
  ⟨((f.l >>> n) &&& andMask (32 - n)) ||| (f.h <<< (32 - n)), (f.h >>> n) &&& andMask (32 - n)⟩

def lshGuard (f : Fpac) : Fpac := f.lshK 3
def rshGuard (f : Fpac) : Fpac := f.rshK 3

end Fpac

/-- Unpack an accumulator; single precision ignores the low 32 bits. -/
def toFac (v : BitVec 64) (fps : Word) : Fpac :=
  ⟨if fps &&& fpsD = 0 then 0 else v.setWidth 32, (v >>> 32).setWidth 32⟩

def fromFac (f : Fpac) : BitVec 64 := (f.h.setWidth 64 <<< 32) ||| f.l.setWidth 64

/-- The interrupt-enable bit that makes a maskable exception code real. -/
def fpTestCode (code : ℕ) : Word :=
  [0, 0, 0, fpsIc, fpsIv, fpsIu, fpsIuv].getD (code / 2) 0

/-- Whether an exception is silently suppressed, and the exception code posted so far. -/
def fpNotrap (fps : Word) (code fec : ℕ) : Bool × ℕ :=
  if fecIcvt ≤ code ∧ code ≤ fecUndfv ∧ fps &&& fpTestCode code = 0 then (true, fec)
  else (false, code)

/-- A value with its overflow condition and the posted exception code. -/
structure FpResult (α : Type) where
  val : α
  v : Bool
  fec : ℕ

/-- Normalize, round and pack; `fac` supplies the sign. -/
def roundAndPack (fac : Fpac) (exp : ℤ) (frac : Fpac) (r : Bool) (fps : Word) (fec : ℕ) :
    FpResult Fpac :=
  let (frac, exp) :=
    if r ∧ fps &&& fpsT = 0 then
      let frac := Fpac.add (if fps &&& fpsD ≠ 0 then .droundGuard else .froundGuard) frac
      if frac.h.getLsbD carryBit then (frac.rsh1, exp + 1) else (frac, exp)
    else (frac, exp)
  let frac := frac.rshGuard
  let fac : Fpac := ⟨frac.l, (fac.h &&& fpSign) |||
    (((BitVec.ofInt 32 exp) &&& 0o377) <<< 23) ||| (frac.h &&& fpFrach)⟩
  if exp > 0o377 then
    let (quiet, fec) := fpNotrap fps fecOvflo fec
    ⟨if quiet then .zero else fac, true, fec⟩
  else if exp ≤ 0 then
    let (quiet, fec) := fpNotrap fps fecUnflo fec
    ⟨if quiet then .zero else fac, false, fec⟩
  else ⟨fac, false, fec⟩

/-- Round a value to single precision. -/
def roundfp11 (f : Fpac) (fps : Word) (fec : ℕ) : FpResult Fpac :=
  let outf := Fpac.add .fround f
  if getSign (outf.h ^^^ f.h) then -- rounding flipped the sign: overflow
    let (quiet, fec) := fpNotrap fps fecOvflo fec
    ⟨if quiet then .zero else { outf with h := outf.h ^^^ fpSign }, true, fec⟩
  else ⟨outf, false, fec⟩

/-- Shift the fraction left by `n` when the bits under `mask` of the high half are clear. -/
def shortcut (mask : BitVec 32) (n : ℕ) (fe : Fpac × ℤ) : Fpac × ℤ :=
  if fe.1.h &&& (mask <<< 3) = 0 then (fe.1.lshK n, fe.2 - n) else fe

/-- The 24, 12 and 6-bit shortcut shifts of a normalization. -/
def shortcuts (fe : Fpac × ℤ) : Fpac × ℤ :=
  shortcut 0x00FC0000 6 (shortcut 0x00FFF000 12 (shortcut 0x00FFFFFF 24 fe))

/-- The single shifts of a normalization, until the hidden bit is set. -/
def normalize : ℕ → Fpac × ℤ → Fpac × ℤ
  | 0, fe => fe
  | fuel + 1, fe =>
    if fe.1.h.getLsbD hiddenBit then fe else normalize fuel (fe.1.lsh1, fe.2 - 1)

/-- A non-zero 64-bit fraction needs fewer single shifts than it has bits. -/
abbrev normalizeFuel : ℕ := 64

/-- `fac + fsrc`. -/
def addfp11 (fac fsrc : Fpac) (fps : Word) : FpResult Fpac :=
  let (fac, fsrc) := if fac.ltAp fsrc then (fsrc, fac) else (fac, fsrc)
  let facexp := getExp fac.h
  let fsrcexp := getExp fsrc.h
  if facexp = 0 then ⟨if fsrcexp ≠ 0 then fsrc else .zero, false, 0⟩
  else if fsrcexp = 0 then ⟨fac, false, 0⟩
  else
    let ediff := facexp - fsrcexp
    if 60 ≤ ediff then ⟨fac, false, 0⟩
    else
      let facfrac := fac.getFrac.lshGuard
      let fsrcfrac := fsrc.getFrac.lshGuard
      let fsrcfrac := if ediff ≠ 0 then fsrcfrac.rshV ediff.toNat else fsrcfrac
      if getSign fac.h ≠ getSign fsrc.h then
        let facfrac := Fpac.sub fsrcfrac facfrac
        if facfrac.isZero then ⟨.zero, false, 0⟩
        else
          let fe := (facfrac, facexp)
          let fe := if ediff ≤ 1 then shortcuts fe else fe
          let fe := normalize normalizeFuel fe
          roundAndPack fac fe.2 fe.1 true fps 0
      else
        let facfrac := Fpac.add fsrcfrac facfrac
        if facfrac.h.getLsbD carryBit then roundAndPack fac (facexp + 1) facfrac.rsh1 true fps 0
        else roundAndPack fac facexp facfrac true fps 0

/-- One pass of the shift-and-add multiply, on the bit of the multiplier shifted out. -/
def mulStep (mpc : Fpac) (bit : Bool) (result : Fpac) : Fpac :=
  (if bit then Fpac.add mpc result else result).rsh1

/-- The high-half-only pass taken when both low halves are zero. -/
def mulStepHigh (mpc : Fpac) (bit : Bool) (result : Fpac) : Fpac :=
  (if bit then { result with h := result.h + mpc.h } else result).rsh1

/-- Fraction multiply: inputs unguarded, output guarded. -/
def fracMulfp11 (f1 f2 : Fpac) : Fpac :=
  let mpc := f2.lshGuard
  if f1.l ||| mpc.l = 0 then
    (List.range 24).foldl (fun result i => mulStepHigh mpc (f1.h.getLsbD i) result) .zero
  else
    let result := if f1.l ≠ 0 then
        (List.range 32).foldl (fun result i => mulStep mpc (f1.l.getLsbD i) result) .zero
      else .zero
    (List.range 24).foldl (fun result i => mulStep mpc (f1.h.getLsbD i) result) result

/-- The product's fraction, normalized, with its exponent. -/
def mulFrac (fac fsrc : Fpac) : Fpac × ℤ :=
  let facexp := getExp fac.h + getExp fsrc.h - fpBias
  let facfrac := fracMulfp11 fac.getFrac fsrc.getFrac
  if facfrac.h.getLsbD hiddenBit then (facfrac, facexp) else (facfrac.lsh1, facexp - 1)

/-- `fac * fsrc`. -/
def mulfp11 (fac fsrc : Fpac) (fps : Word) : FpResult Fpac :=
  if getExp fac.h = 0 ∨ getExp fsrc.h = 0 then ⟨.zero, false, 0⟩
  else
    let fe := mulFrac fac fsrc
    roundAndPack { fac with h := fac.h ^^^ fsrc.h } fe.2 fe.1 true fps 0

/-- The division loop: `i` passes left, the running dividend and the quotient. It leaves early,
with the passes not made, when the dividend reaches zero. -/
def divLoop (qd : Bool) (divisor : Fpac) : ℕ → Fpac → Fpac → ℕ × Fpac
  | 0, _, quo => (0, quo)
  | i + 1, dividend, quo =>
    if dividend.isZero then (i + 1, quo)
    else
      let quo := quo.lsh1
      if !dividend.lt divisor then
        divLoop qd divisor i (Fpac.sub divisor dividend).lsh1
          (if qd then { quo with l := quo.l ||| 1 } else { quo with h := quo.h ||| 1 })
      else divLoop qd divisor i dividend.lsh1 quo

/-- `fac / fsrc`; the caller has checked `fsrc` for zero. -/
def divfp11 (fac fsrc : Fpac) (fps : Word) : FpResult Fpac :=
  if getExp fac.h = 0 then ⟨.zero, false, 0⟩
  else
    let facexp := getExp fac.h - getExp fsrc.h + fpBias + 1
    let qd : Bool := fps &&& fpsD ≠ 0
    let (i, quo) := divLoop qd fsrc.getFrac.lshGuard (23 + 3 + (if qd then 33 else 1))
      fac.getFrac.lshGuard .zero
    let quo := if 0 < i then quo.lshV i else quo
    let (quo, facexp) :=
      if quo.h.getLsbD hiddenBit then (quo, facexp) else (quo.lsh1, facexp - 1)
    roundAndPack { fac with h := fac.h ^^^ fsrc.h } facexp quo true fps 0

/-- The fraction part of a split product, whose bits under `fmask` are `frac`. -/
def modFraction (sign frac : Fpac) (shift : ℕ) (fps : Word) : FpResult Fpac :=
  if frac.isZero then ⟨.zero, false, 0⟩
  else
    let fe := normalize normalizeFuel (shortcuts (frac.lshV shift, fpBias))
    roundAndPack sign fe.2 fe.1 true fps 0

/-- Split `fac * fsrc` into an integer part and a fraction. -/
def modfp11 (fac fsrc : Fpac) (fps : Word) : FpResult (Fpac × Fpac) :=
  if getExp fac.h = 0 ∨ getExp fsrc.h = 0 then ⟨(.zero, .zero), false, 0⟩
  else
    let sign : Fpac := { fac with h := fac.h ^^^ fsrc.h }
    let (facfrac, facexp) := mulFrac fac fsrc
    if facexp ≤ fpBias then -- all fraction
      let r := roundAndPack sign facexp facfrac true fps 0
      ⟨(.zero, r.val), r.v, r.fec⟩
    else if (if fps &&& fpsD ≠ 0 then fpBias + 56 else fpBias + 24) < facexp then -- all integer
      let r := roundAndPack sign facexp facfrac false fps 0
      ⟨(r.val, .zero), r.v, r.fec⟩
    else
      let fmask := Fpac.fmask.rshV (facexp - fpBias).toNat
      let frac : Fpac := ⟨facfrac.l &&& fmask.l, facfrac.h &&& fmask.h⟩
      let f := modFraction sign frac (facexp - fpBias).toNat fps
      let whole : Fpac := ⟨facfrac.l &&& ~~~fmask.l, facfrac.h &&& ~~~fmask.h⟩
      let r := roundAndPack sign facexp whole false fps f.fec
      ⟨(r.val, f.val), r.v, r.fec⟩

def fpAdd (facV fsrcV : BitVec 64) (fps : Word) : FpResult (BitVec 64) :=
  let r := addfp11 (toFac facV fps) (toFac fsrcV fps) fps
  ⟨fromFac r.val, r.v, r.fec⟩

def fpMul (facV fsrcV : BitVec 64) (fps : Word) : FpResult (BitVec 64) :=
  let r := mulfp11 (toFac facV fps) (toFac fsrcV fps) fps
  ⟨fromFac r.val, r.v, r.fec⟩

def fpDiv (facV fsrcV : BitVec 64) (fps : Word) : FpResult (BitVec 64) :=
  let r := divfp11 (toFac facV fps) (toFac fsrcV fps) fps
  ⟨fromFac r.val, r.v, r.fec⟩

/-- The integer part, destined for `FR[ac|1]`, and the fraction, destined for `FR[ac]`. -/
def fpMod (facV fsrcV : BitVec 64) (fps : Word) : FpResult (BitVec 64 × BitVec 64) :=
  let r := modfp11 (toFac facV fps) (toFac fsrcV fps) fps
  ⟨(fromFac r.val.1, fromFac r.val.2), r.v, r.fec⟩

/-- The N and Z bits of a comparison, and whether the accumulator becomes true zero. -/
def fpCmp (facV fsrcV : BitVec 64) (fps : Word) : Word × Bool :=
  let fac := toFac facV fps
  let fsrc := toFac fsrcV fps
  let fsrc := if getExp fsrc.h = 0 then Fpac.zero else fsrc
  let fac := if getExp fac.h = 0 then Fpac.zero else fac
  if fsrc.h = fac.h ∧ fsrc.l = fac.l then (fpsZ, fsrc.isZero)
  else
    let cc := (fsrc.h >>> 28).setWidth 16 &&& fpsN
    if getSign (fsrc.h ^^^ fac.h) = false ∧ fac.h ≠ 0 ∧ fsrc.lt fac then (cc ^^^ fpsN, false)
    else (cc, false)

def fpRound (val : BitVec 64) (fps : Word) : FpResult (BitVec 64) :=
  let r := roundfp11 ⟨val.setWidth 32, (val >>> 32).setWidth 32⟩ fps 0
  ⟨fromFac r.val, r.v, r.fec⟩

/-- Shift left until the sign bit is set, counting; a non-zero half needs at most 31 shifts. -/
def ldcifNormalize : ℕ → BitVec 32 → ℕ → BitVec 32 × ℕ
  | 0, l, i => (l, i)
  | fuel + 1, l, i => if getSign l then (l, i) else ldcifNormalize fuel (l <<< 1) (i + 1)

/-- Integer to float. -/
def fpLdcif (facl : BitVec 32) (fps : Word) : BitVec 64 :=
  if facl = 0 then 0
  else
    let sign := getSign facl
    let l := if sign then (facl ^^^ 0xFFFFFFFF) + 1 else facl
    let (l, i) := ldcifNormalize 32 l 0
    let exp : ℤ := (if fps &&& fpsL ≠ 0 then fpBias + 32 else fpBias + 16) - i
    let fac : Fpac := ⟨l <<< 24, (if sign then fpSign else 0) ||| (BitVec.ofInt 32 exp <<< 23) |||
      ((l >>> 8) &&& fpFrach)⟩
    fromFac (if fps &&& (fpsD ||| fpsT) = 0 then (roundfp11 fac fps 0).val else fac)

/-- The magnitude limit of a float to integer conversion. -/
def stcfiLimit (isLong sign : Bool) : BitVec 32 :=
  if sign then (if isLong then 0x80000001 else 0x80010000) else 0x80000000

/-- Float to integer: the 32-bit result, the C condition and the posted exception code. -/
def fpStcfi (val : BitVec 64) (fps : Word) : BitVec 32 × Bool × ℕ :=
  let frh : BitVec 32 := (val >>> 32).setWidth 32
  let sign := getSign frh
  let exp := getExp frh
  let isLong : Bool := fps &&& fpsL ≠ 0
  let fac : Fpac := ⟨if fps &&& fpsD ≠ 0 then val.setWidth 32 else 0, (frh &&& fpFrach) ||| fpHb⟩
  let limitExp := if isLong then fpBias + 32 else fpBias + 16
  let (dst, c) :=
    if exp ≤ fpBias then (0, false)
    else if limitExp < exp then (0, true)
    else
      let shifted := (fac.rshV (24 + limitExp - exp).toNat).l
      let shifted := if isLong then shifted else shifted &&& ~~~0o177777
      if stcfiLimit isLong sign ≤ shifted then (0, true)
      else (if sign then -shifted else shifted, false)
  (dst, c, if c then (fpNotrap fps fecIcvt 0).2 else 0)

end Pdp11
