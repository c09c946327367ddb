import Pdp11.Operand

namespace Pdp11

/-- The source and destination fields of an instruction word. -/
def srcSpec (word : Word) : BitVec 6 := word.extractLsb' 6 6
def dstSpec (word : Word) : BitVec 6 := word.extractLsb' 0 6

/-- The register field in bits 8-6. -/
def regField (word : Word) : Field3 := word.extractLsb' 6 3

/-! ## Traps -/

/-- The PSW a vector loads: its previous-mode field records the mode trapped from. -/
def trapPsw (newPsw : Word) (oldMode : Mode) : Word :=
  (newPsw &&& ~~~(0o030000 : Word)) ||| (oldMode.setWidth 16 <<< 12)

/-- Vectors are read in Kernel D-space; the old PSW and PC go to the stack of the new mode. -/
def doTrap (vector : Word) : M Unit := do
  let s ← getCpu
  let oldPsw := s.regs.psw
  let oldPc := s.regs.r regPc
  emit (.dispatch vector oldPsw oldPc)
  let newPc ← cpuReadWordGen vector 0 true
  let newPsw ← cpuReadWordGen (vector + 2) 0 true
  modifyCpu fun s => putPsw s (trapPsw newPsw (curMode oldPsw))
  modifyCpu fun s => { s with ctl.inTrapPush := true }
  pushWord oldPsw
  pushWord oldPc
  modifyCpu fun s => { s with ctl.inTrapPush := false }
  setReg regPc newPc
  modifyCpu fun s => { s with mmu.mmr0 := s.mmu.mmr0 ||| mmr0Ic }
  let s ← getCpu
  whenM (!s.ctl.servicingStackTrap) (checkStackLimit (s.regs.r regSp))

/-- RTI and RTT: pop PC, then PSW. Only RTI arms the trace trap of a restored T bit. -/
def opRti (isRtt : Bool) : M Unit := do
  let pc ← popWord
  setReg regPc pc
  let psw ← popWord
  modifyCpu fun s => putPsw s psw
  modifyCpu fun s => if !isRtt ∧ s.regs.psw &&& pswT ≠ 0 then { s with ctl.tracePending := true }
    else s

/-! ## Double-operand instructions -/

/-- The destination operand, and the source and destination values. -/
structure DoubleOp where
  dst : Operand
  s : Word
  d : Word

/-- Decode source, then destination, reading both. -/
def decodeDouble (word : Word) (bytemode : Bool) : M DoubleOp := do
  let src ← decodeOperand (srcSpec word) bytemode
  let s ← readOperand src bytemode
  let dst ← decodeOperand (dstSpec word) bytemode
  let d ← readOperand dst bytemode
  pure { dst, s, d }

/-- MOVB into a register sign-extends the byte through all 16 bits. -/
def writeMov (dst : Operand) (bytemode : Bool) (value : Word) : M Unit :=
  match dst, bytemode with
  | .reg r, true =>
    setReg r (if value &&& 0o200 ≠ 0 then value ||| 0o177400 else value &&& 0o377)
  | dst, bytemode => writeOperand dst bytemode value

def opMov (word : Word) (bytemode : Bool) : M Unit := do
  let src ← decodeOperand (srcSpec word) bytemode
  let value ← readOperand src bytemode
  let dst ← decodeOperand (dstSpec word) bytemode
  writeMov dst bytemode value
  modifyCpu fun s => setNzV0 s value bytemode

def opCmp (word : Word) (bytemode : Bool) : M Unit := do
  let o ← decodeDouble word bytemode
  modifyCpu fun s => (aluSub s o.s o.d bytemode).2

def opAdd (word : Word) : M Unit := do
  let o ← decodeDouble word false
  let result ← liftCpu fun s => aluAdd s o.d o.s false
  writeOperand o.dst false result

def opSub (word : Word) : M Unit := do
  let o ← decodeDouble word false
  let result ← liftCpu fun s => aluSub s o.d o.s false
  writeOperand o.dst false result

def opBit (word : Word) (bytemode : Bool) : M Unit := do
  let o ← decodeDouble word bytemode
  modifyCpu fun s => setNzV0 s (o.s &&& o.d) bytemode

def opBic (word : Word) (bytemode : Bool) : M Unit := do
  let o ← decodeDouble word bytemode
  let result := o.d &&& ~~~o.s
  writeOperand o.dst bytemode result
  modifyCpu fun s => setNzV0 s result bytemode

def opBis (word : Word) (bytemode : Bool) : M Unit := do
  let o ← decodeDouble word bytemode
  let result := o.d ||| o.s
  writeOperand o.dst bytemode result
  modifyCpu fun s => setNzV0 s result bytemode

/-! ## Single-operand instructions -/

/-- The switch of `single_op`: the result, whether it is stored, and the condition codes. -/
def singleOpAlu (s : Cpu) (base : BitVec 9) (d : Word) (bytemode : Bool) : Word × Bool × Cpu :=
  let mask := widthMask bytemode
  let msb := widthMsb bytemode
  let c := flagSet s pswC
  let carry : Word := if c then 1 else 0
  if base = 0o050 then -- CLR
    let s := setFlag (setFlag s pswN false) pswZ true
    (0, true, setFlag (setFlag s pswV false) pswC false)
  else if base = 0o051 then -- COM
    let result := ~~~d &&& mask
    (result, true, setFlag (setFlag (setNz s result bytemode) pswV false) pswC true)
  else if base = 0o052 then -- INC
    let result := (d + 1) &&& mask
    (result, true, setFlag (setNz s result bytemode) pswV (d &&& mask = msb - 1))
  else if base = 0o053 then -- DEC
    let result := (d - 1) &&& mask
    (result, true, setFlag (setNz s result bytemode) pswV (d &&& mask = msb))
  else if base = 0o054 then -- NEG
    let result := (0 - d) &&& mask
    let s := setFlag (setNz s result bytemode) pswV (result = msb)
    (result, true, setFlag s pswC (result ≠ 0))
  else if base = 0o055 then -- ADC
    let result := (d + carry) &&& mask
    let s := setFlag (setNz s result bytemode) pswV (c ∧ d &&& mask = msb - 1)
    (result, true, setFlag s pswC (c ∧ d &&& mask = mask))
  else if base = 0o056 then -- SBC
    let result := (d - carry) &&& mask
    let s := setFlag (setNz s result bytemode) pswV (c ∧ d &&& mask = msb)
    (result, true, setFlag s pswC (c ∧ d &&& mask = 0))
  else if base = 0o057 then -- TST
    (d, false, setFlag (setFlag (setNz s d bytemode) pswV false) pswC false)
  else if base = 0o060 then -- ROR
    let cin : Word := if c then msb else 0
    let s := setFlag s pswC (d &&& 1 ≠ 0)
    let result := ((d &&& mask) >>> 1) ||| cin
    (result, true, setVFromNc (setNz s result bytemode))
  else if base = 0o061 then -- ROL
    let s := setFlag s pswC (d &&& msb ≠ 0)
    let result := ((d <<< 1) ||| carry) &&& mask
    (result, true, setVFromNc (setNz s result bytemode))
  else if base = 0o062 then -- ASR
    let s := setFlag s pswC (d &&& 1 ≠ 0)
    let result := ((d &&& mask) >>> 1) ||| (d &&& msb)
    (result, true, setVFromNc (setNz s result bytemode))
  else if base = 0o063 then -- ASL
    let s := setFlag s pswC (d &&& msb ≠ 0)
    let result := (d <<< 1) &&& mask
    (result, true, setVFromNc (setNz s result bytemode))
  else if base = 0o003 then -- SWAB; the 11/20 leaves V unchanged
    let result := (d <<< 8) ||| (d >>> 8)
    let s := setFlag s pswN (result &&& 0o200 ≠ 0)
    let s := setFlag s pswZ (result &&& 0o377 = 0)
    let s := if s.cfg.model ≠ .m1120 then setFlag s pswV false else s
    (result, true, setFlag s pswC false)
  else if base = 0o067 then -- SXT
    let result := if flagSet s pswN then mask else 0
    (result, true, setFlag (setFlag s pswZ (!flagSet s pswN)) pswV false)
  else (0, false, s)

/-- The codes are set before the store. -/
def singleOp (word : Word) (base : BitVec 9) (bytemode : Bool) : M Unit := do
  let dst ← decodeOperand (dstSpec word) bytemode
  let d ← readOperand dst bytemode
  let out ← liftCpu fun s =>
    let out := singleOpAlu s base d bytemode
    ((out.1, out.2.1), out.2.2)
  whenM (out.2 = true) (writeOperand dst bytemode out.1)

/-- MARK: PC := R5; R5 := mem[PC + 2n]; SP past that word. -/
def opMark (word : Word) : M Unit := do
  let pc ← getReg regPc
  let i := pc + 2 * (dstSpec word).setWidth 16
  let r5 ← getReg 5
  setReg regPc r5
  let v ← cpuReadWord i
  setReg 5 v
  setReg regSp (i + 2)

/-- A register seen from the previous mode: R6 is that mode's stack pointer. -/
def prevModeReg (pm cm : Mode) (reg : Field3) (s : Cpu) : Word :=
  if reg = regSp ∧ cm ≠ pm then s.regs.stackfile pm else s.regs.r reg

def setPrevModeReg (pm cm : Mode) (reg : Field3) (value : Word) (s : Cpu) : Cpu :=
  if reg = regSp ∧ cm ≠ pm then
    { s with regs.stackfile := Function.update s.regs.stackfile pm value }
  else { s with regs.r := Function.update s.regs.r reg value }

def readPrevMode (pm cm : Mode) (dspace : Bool) : Operand → M Word
  | .reg r => do
    let s ← getCpu
    pure (prevModeReg pm cm r s)
  | op => cpuReadWordGen op.addr pm dspace

def writePrevMode (pm cm : Mode) (dspace : Bool) (value : Word) : Operand → M Unit
  | .reg r => modifyCpu (setPrevModeReg pm cm r value)
  | op => cpuWriteWordMode op.addr pm dspace value

/-- MFPI and MFPD: push an operand of the previous mode on the current stack. -/
def opMfp (word : Word) (dspace : Bool) : M Unit := do
  let s ← getCpu
  let pm := prevMode s.regs.psw
  let cm := s.mode
  let src ← decodeOperand (dstSpec word) false
  let value ← readPrevMode pm cm dspace src
  modifyCpu fun s => setNzV0 s value false
  pushWord value

/-- MTPI and MTPD: pop from the current stack, then store in the previous mode. -/
def opMtp (word : Word) (dspace : Bool) : M Unit := do
  let s ← getCpu
  let pm := prevMode s.regs.psw
  let cm := s.mode
  let value ← popWord
  modifyCpu fun s => setNzV0 s value false
  let dst ← decodeOperand (dstSpec word) false
  writePrevMode pm cm dspace value dst

end Pdp11
