import Pdp11.Decode
import Pdp11.FloatingPoint
import Pdp11.Timing

namespace Pdp11

def modifyFp (f : FpRegs → FpRegs) : M Unit := modifyCpu fun s => { s with fp := f s.fp }

def getFp : M FpRegs := do
  let s ← getCpu
  pure s.fp

/-- Post an exception: the status registers, and the trap unless `FPS_ID` inhibits it. -/
def postFpe (fec : ℕ) (entryPc : Word) : M Unit := do
  modifyFp fun p =>
    { p with fps := p.fps ||| fpsEr, fec := BitVec.ofNat 16 fec, fea := entryPc - 2 }
  let p ← getFp
  whenM (p.fps &&& fpsId = 0) (doTrap vecFpe)

def fpExp (v : BitVec 64) : BitVec 8 := v.extractLsb' 55 8

/-- N from the sign and Z from a zero exponent, over `newv`. -/
def fpSetcc (fps : Word) (v : BitVec 64) (newv : Word) : Word :=
  let fps := (fps &&& ~~~fpsCc) ||| newv
  let fps := if v.msb then fps ||| fpsN else fps
  if fpExp v = 0 then fps ||| fpsZ else fps

/-- A resolved floating operand. -/
inductive FpOp
  | reg (r : Field3)
  | imm (value : Word)
  | mem (addr : Word)
  deriving DecidableEq, Repr

/-- An immediate has no address of its own; a store to one goes to location 0. -/
def FpOp.addr : FpOp → Word
  | .reg _ | .imm _ => 0
  | .mem addr => addr

/-- Autoincrement and autodecrement step by the operand length. -/
def decodeFp (spec : BitVec 6) (lenWords : ℕ) : M FpOp :=
  let mode : Field3 := spec.extractLsb' 3 3
  let reg : Field3 := spec.extractLsb' 0 3
  let step : Word := BitVec.ofNat 16 (lenWords * 2)
  if mode = 0 then pure (.reg reg)
  else if mode = 1 then do
    let addr ← getReg reg
    pure (.mem addr)
  else if mode = 2 then
    if reg = regPc then do
      let value ← fetch
      pure (.imm value)
    else do
      let addr ← getReg reg
      addReg reg step
      pure (.mem addr)
  else if mode = 3 then
    if reg = regPc then do
      let addr ← fetch
      pure (.mem addr)
    else do
      let ptr ← getReg reg
      let addr ← cpuReadWord ptr
      addReg reg 2
      pure (.mem addr)
  else if mode = 4 then do
    addReg reg (-step)
    let addr ← getReg reg
    pure (.mem addr)
  else if mode = 5 then do
    addReg reg (-2)
    let ptr ← getReg reg
    let addr ← cpuReadWord ptr
    pure (.mem addr)
  else if mode = 6 then do
    let base ← fetch
    let x ← getReg reg
    pure (.mem (base + x))
  else do
    let base ← fetch
    let x ← getReg reg
    let addr ← cpuReadWord (base + x)
    pure (.mem addr)

/-- Four words in big-endian order, the first highest. -/
def packWords (w0 w1 w2 w3 : Word) : BitVec 64 := w0 ++ w1 ++ w2 ++ w3

def readFp (o : FpOp) (lenWords : ℕ) : M (BitVec 64) :=
  match o with
  | .reg r => do
    let p ← getFp
    pure (if r < 6 then p.fac r else 0)
  | .imm value => pure (packWords value 0 0 0)
  | .mem addr => do
    let w0 ← cpuReadWord addr
    let w1 ← cpuReadWord (addr + 2)
    if lenWords = 4 then do
      let w2 ← cpuReadWord (addr + 4)
      let w3 ← cpuReadWord (addr + 6)
      pure (packWords w0 w1 w2 w3)
    else pure (packWords w0 w1 0 0)

def setFac (r : Field3) (v : BitVec 64) : M Unit :=
  modifyFp fun p => { p with fac := Function.update p.fac r v }

def writeFp (o : FpOp) (lenWords : ℕ) (v : BitVec 64) : M Unit :=
  match o with
  | .reg r => whenM (r < 6) (setFac r v)
  | o => do
    cpuWriteWord o.addr (v.extractLsb' 48 16)
    cpuWriteWord (o.addr + 2) (v.extractLsb' 32 16)
    whenM (lenWords = 4) do
      cpuWriteWord (o.addr + 4) (v.extractLsb' 16 16)
      cpuWriteWord (o.addr + 6) (v.extractLsb' 0 16)

/-- The precision, other precision and integer operand lengths, in words. -/
def fpLen (fps : Word) : ℕ := if fps &&& fpsD ≠ 0 then 4 else 2
def fpOlen (fps : Word) : ℕ := if fps &&& fpsD ≠ 0 then 2 else 4
def fpIlen (fps : Word) : ℕ := if fps &&& fpsL ≠ 0 then 2 else 1

/-- The accumulator field in bits 7-6. -/
def acField (word : Word) : Field3 := (word.extractLsb' 6 2 : BitVec 2).setWidth 3

def setFps (f : Word → Word) : M Unit := modifyFp fun p => { p with fps := f p.fps }

/-- Condition codes written to both the FPS and the PSW. -/
def setBothCc (cc : Word) : M Unit := do
  setFps fun fps => (fps &&& ~~~fpsCc) ||| cc
  modifyCpu fun s => { s with regs.psw := (s.regs.psw &&& ~~~fpsCc) ||| cc }

/-- Store an arithmetic result in an accumulator, set the codes and post its exception. -/
def finishFp (ac : Field3) (r : FpResult (BitVec 64)) (entryPc : Word) : M Unit := do
  setFac ac r.val
  setFps fun fps => fpSetcc fps r.val (if r.v then fpsV else 0)
  whenM (r.fec ≠ 0) (postFpe r.fec entryPc)

/-- CFCC, SETF, SETI, SETD and SETL. -/
def fpSpecial (word : Word) : M Unit :=
  if word = 0o170000 then
    modifyCpu fun s => { s with regs.psw := (s.regs.psw &&& ~~~fpsCc) ||| (s.fp.fps &&& fpsCc) }
  else if word = 0o170001 then setFps fun fps => fps &&& ~~~fpsD
  else if word = 0o170002 then setFps fun fps => fps &&& ~~~fpsL
  else if word = 0o170011 then setFps fun fps => fps ||| fpsD
  else if word = 0o170012 then setFps fun fps => fps ||| fpsL
  else pure ()

def opLdfps (word : Word) : M Unit := do
  let src ← decodeOperand (dstSpec word) false
  let value ← readOperand src false
  setFps fun _ => value &&& fpsRw

def opStfps (word : Word) : M Unit := do
  setFps fun fps => fps &&& fpsRw
  let dst ← decodeOperand (dstSpec word) false
  let p ← getFp
  writeOperand dst false p.fps

def opStst (word : Word) : M Unit := do
  let dst ← decodeOperand (dstSpec word) false
  match dst with
  | .reg r => do
    let p ← getFp
    setReg r p.fec
  | dst => do
    let p ← getFp
    cpuWriteWord dst.addr p.fec
    let p ← getFp
    cpuWriteWord (dst.addr + 2) p.fea

/-- CLRf, TSTf, ABSf and NEGf. -/
def opFpSingle (word : Word) (len : ℕ) : M Unit := do
  let subop : BitVec 2 := word.extractLsb' 6 2
  let o ← decodeFp (dstSpec word) len
  if subop = 0 then do
    writeFp o len 0
    setFps fun fps => (fps &&& ~~~fpsCc) ||| fpsZ
  else do
    let v ← readFp o len
    let v : BitVec 64 := if subop = 2 then (if fpExp v = 0 then 0 else v &&& ~~~(1#64 <<< 63))
      else if subop = 3 then (if fpExp v = 0 then 0 else v ^^^ (1#64 <<< 63)) else v
    whenM (2 ≤ subop) (writeFp o len v)
    setFps fun fps => fpSetcc fps v 0

def opLdf (word : Word) (len : ℕ) : M Unit := do
  let o ← decodeFp (dstSpec word) len
  let v ← readFp o len
  setFac (acField word) v
  setFps fun fps => fpSetcc fps v 0

def opStf (word : Word) (len : ℕ) : M Unit := do
  let o ← decodeFp (dstSpec word) len
  let p ← getFp
  writeFp o len (p.fac (acField word))

/-- MULf, ADDf and SUBf; SUBf negates a non-zero source and adds. -/
def opFpArith (word : Word) (major : BitVec 4) (len : ℕ) (entryPc : Word) : M Unit := do
  let o ← decodeFp (dstSpec word) len
  let fsrc ← readFp o len
  let fsrc := if major = 0o06 ∧ fpExp fsrc ≠ 0 then fsrc ^^^ (1#64 <<< 63) else fsrc
  let p ← getFp
  let fac := p.fac (acField word)
  finishFp (acField word) (if major = 0o02 then fpMul fac fsrc p.fps else fpAdd fac fsrc p.fps)
    entryPc

def opDivf (word : Word) (len : ℕ) (entryPc : Word) : M Unit := do
  let o ← decodeFp (dstSpec word) len
  let fsrc ← readFp o len
  if fpExp fsrc = 0 then postFpe fecDzro entryPc
  else do
    let p ← getFp
    finishFp (acField word) (fpDiv (p.fac (acField word)) fsrc p.fps) entryPc

/-- The integer part goes to `FR[ac|1]`, the fraction to `FR[ac]`. -/
def opModf (word : Word) (len : ℕ) (entryPc : Word) : M Unit := do
  let o ← decodeFp (dstSpec word) len
  let fsrc ← readFp o len
  let p ← getFp
  let r := fpMod (p.fac (acField word)) fsrc p.fps
  setFac (pairReg (acField word)) r.val.1
  finishFp (acField word) ⟨r.val.2, r.v, r.fec⟩ entryPc

def opCmpf (word : Word) (len : ℕ) : M Unit := do
  let o ← decodeFp (dstSpec word) len
  let fsrc ← readFp o len
  let p ← getFp
  let out := fpCmp (p.fac (acField word)) fsrc p.fps
  setFps fun fps => (fps &&& ~~~fpsCc) ||| out.1
  whenM (out.2 = true) (setFac (acField word) 0)

/-- Load, converting from the other precision; only a narrowing load rounds. -/
def opLdcff (word : Word) (olen : ℕ) (entryPc : Word) : M Unit := do
  let o ← decodeFp (dstSpec word) olen
  let v ← readFp o olen
  let v := if fpExp v = 0 then 0 else v
  let p ← getFp
  finishFp (acField word)
    (if p.fps &&& (fpsD ||| fpsT) = 0 then fpRound v p.fps else ⟨v, false, 0⟩) entryPc

/-- Store, converting to the other precision; only a narrowing store rounds. -/
def opStcff (word : Word) (olen : ℕ) (entryPc : Word) : M Unit := do
  let p ← getFp
  let v := p.fac (acField word)
  let v := if p.fps &&& fpsD = 0 then v &&& 0xFFFFFFFF00000000 else v
  let v := if fpExp v = 0 then 0 else v
  let r : FpResult (BitVec 64) :=
    if p.fps &&& (fpsD ||| fpsT) = fpsD then fpRound v p.fps else ⟨v, false, 0⟩
  let o ← decodeFp (dstSpec word) olen
  writeFp o olen r.val
  setFps fun fps => fpSetcc fps r.val (if r.v then fpsV else 0)
  whenM (r.fec ≠ 0) (postFpe r.fec entryPc)

/-- The accumulator LDEXP leaves, with a signed exponent `dst`; out of range it over- or
underflows. -/
def fpLdexp (fac : BitVec 64) (dst fps : Word) : FpResult (BitVec 64) :=
  let h : BitVec 32 := fac.extractLsb' 32 32
  let h := (h &&& ~~~(0o377#32 <<< 23)) ||| (((dst.setWidth 32 + 0o200) &&& 0o377) <<< 23)
  let v : BitVec 64 := h ++ (fac.extractLsb' 0 32 : BitVec 32)
  if 0o177 < dst ∧ dst ≤ 0o177600 then
    if dst < 0o100000 then
      if fps &&& fpsIv = 0 then ⟨0, true, 0⟩ else ⟨v, true, fecOvflo⟩
    else if fps &&& fpsIu = 0 then ⟨0, false, 0⟩
    else ⟨v, false, fecUnflo⟩
  else ⟨v, false, 0⟩

def opLdexp (word : Word) (entryPc : Word) : M Unit := do
  let src ← decodeOperand (dstSpec word) false
  let dst ← readOperand src false
  let p ← getFp
  finishFp (acField word) (fpLdexp (p.fac (acField word)) dst p.fps) entryPc

/-- STEXP sets the codes of both the FP and the CPU, before the store. -/
def opStexp (word : Word) : M Unit := do
  let p ← getFp
  let dst : Word := (fpExp (p.fac (acField word))).setWidth 16 - 0o200
  setBothCc ((if dst.msb then fpsN else 0) ||| (if dst = 0 then fpsZ else 0))
  let op ← decodeOperand (dstSpec word) false
  writeOperand op false dst

/-- The integer an LDCif operand holds, left-aligned; a register source is a word only. -/
def readLdcif (o : FpOp) (ilen : ℕ) : M (BitVec 32) :=
  match o with
  | .reg r => do
    let v ← getReg r
    pure (v ++ (0 : Word))
  | .imm value => pure (value ++ (0 : Word))
  | .mem addr => do
    let hi ← cpuReadWord addr
    if ilen = 2 then do
      let lo ← cpuReadWord (addr + 2)
      pure (hi ++ lo)
    else pure (hi ++ (0 : Word))

def opLdcif (word : Word) (ilen : ℕ) : M Unit := do
  let o ← decodeFp (dstSpec word) ilen
  let ival ← readLdcif o ilen
  let p ← getFp
  let v := fpLdcif ival p.fps
  setFac (acField word) v
  setFps fun fps => fpSetcc fps v 0

/-- The destination of STCfi: one or two words of the integer. -/
def writeStcfi (o : FpOp) (ilen : ℕ) (dst : BitVec 32) : M Unit :=
  match o with
  | .reg r => setReg r (dst.extractLsb' 16 16)
  | o => do
    cpuWriteWord o.addr (dst.extractLsb' 16 16)
    whenM (ilen = 2) (cpuWriteWord (o.addr + 2) (dst.extractLsb' 0 16))

def opStcfi (word : Word) (ilen : ℕ) (entryPc : Word) : M Unit := do
  let p ← getFp
  let out := fpStcfi (p.fac (acField word)) p.fps
  let dst := out.1
  setBothCc ((if dst.msb then fpsN else 0) ||| (if dst = 0 then fpsZ else 0)
    ||| (if out.2.1 then fpsC else 0))
  let o ← decodeFp (dstSpec word) ilen
  writeStcfi o ilen dst
  whenM (out.2.2 ≠ 0) (postFpe out.2.2 entryPc)

/-- FP11-C instructions, top nibble 017. The operand lengths are those in force at entry. -/
def opFp11 (word : Word) : M Unit := do
  let major : BitVec 4 := word.extractLsb' 8 4
  let subop : BitVec 2 := word.extractLsb' 6 2
  let p ← getFp
  setEisExtra (fpExecNs major subop (p.fps &&& fpsD ≠ 0))
  let entryPc ← getReg regPc
  let len := fpLen p.fps
  let olen := fpOlen p.fps
  let ilen := fpIlen p.fps
  if major = 0o00 then
    if subop = 0 then fpSpecial word
    else if subop = 1 then opLdfps word
    else if subop = 2 then opStfps word
    else opStst word
  else if major = 0o01 then opFpSingle word len
  else if major = 0o05 then opLdf word len
  else if major = 0o10 then opStf word len
  else if major = 0o02 ∨ major = 0o04 ∨ major = 0o06 then opFpArith word major len entryPc
  else if major = 0o11 then opDivf word len entryPc
  else if major = 0o03 then opModf word len entryPc
  else if major = 0o07 then opCmpf word len
  else if major = 0o17 then opLdcff word olen entryPc
  else if major = 0o14 then opStcff word olen entryPc
  else if major = 0o15 then opLdexp word entryPc
  else if major = 0o12 then opStexp word
  else if major = 0o16 then opLdcif word ilen
  else opStcfi word ilen entryPc

end Pdp11
