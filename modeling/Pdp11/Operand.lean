import Pdp11.IoPage

namespace Pdp11

def getReg (i : Field3) : M Word := do
  let s ← getCpu
  pure (s.regs.r i)

def setReg (i : Field3) (value : Word) : M Unit :=
  modifyCpu fun s => { s with regs.r := Function.update s.regs.r i value }

/-- Add to a register, modulo 2^16. -/
def addReg (i : Field3) (delta : Word) : M Unit :=
  modifyCpu fun s => { s with regs.r := Function.update s.regs.r i (s.regs.r i + delta) }

/-- Read the word at the PC and advance the PC by two. -/
def fetch : M Word := do
  let pc ← getReg regPc
  let word ← cpuFetchWord pc
  addReg regPc 2
  pure word

/-! ## Operand resolution -/

/-- A resolved operand. An immediate keeps its inline address, which a store writes. -/
inductive Operand
  | reg (r : Field3)
  | imm (value addr : Word)
  | mem (addr : Word)
  deriving DecidableEq, Repr

/-- Byte steps are 1, except on SP and PC. -/
def operandStep (reg : Field3) (bytemode : Bool) : Word :=
  if bytemode ∧ reg < regSp then 1 else 2

/-- One auto-increment or decrement as a byte of MMR1. -/
def mmr1Encode (reg : Field3) (delta : Word) : Word :=
  ((delta &&& 0o37) <<< 3) ||| reg.setWidth 16

/-- Log a register change in MMR1: the first in the low byte, the second in the high byte. -/
def mmr1Track (reg : Field3) (delta : Word) (s : Cpu) : Cpu :=
  if !s.cfg.hasMmu ∨ reg = regPc ∨ s.mmu.mmr0 &&& mmr0Freeze ≠ 0 then s
  else
    let enc := mmr1Encode reg delta
    { s with mmu.mmr1 := if s.mmu.mmr1 ≠ 0 then (enc <<< 8) ||| s.mmu.mmr1 else enc }

/-- The stack limit check of an autodecrement, made on SP only. -/
def checkDecrement (reg : Field3) : M Unit := do
  let v ← getReg reg
  whenM (reg = regSp) (checkStackLimit v)

def decodeOperand (spec : BitVec 6) (bytemode : Bool) : M Operand :=
  let mode : Field3 := spec.extractLsb' 3 3
  let reg : Field3 := spec.extractLsb' 0 3
  let step := operandStep reg bytemode
  if mode = 0 then pure (.reg reg)
  else if mode = 1 then do
    let addr ← getReg reg
    pure (.mem addr)
  else if mode = 2 then
    if reg = regPc then do -- immediate, from I-space
      let addr ← getReg regPc
      let value ← fetch
      pure (.imm value addr)
    else do
      let addr ← getReg reg
      addReg reg step
      modifyCpu (mmr1Track reg step)
      pure (.mem addr)
  else if mode = 3 then
    if reg = regPc then do -- absolute, the address from I-space
      let addr ← fetch
      pure (.mem addr)
    else do
      let ptr ← getReg reg
      let addr ← cpuReadWord ptr
      addReg reg 2
      modifyCpu (mmr1Track reg 2)
      pure (.mem addr)
  else if mode = 4 then do
    addReg reg (-step)
    let addr ← getReg reg
    modifyCpu (mmr1Track reg (-step))
    checkDecrement reg
    pure (.mem addr)
  else if mode = 5 then do
    -- here the log follows the pointer read, unlike mode 4
    addReg reg (-2)
    checkDecrement reg
    let ptr ← getReg reg
    let addr ← cpuReadWord ptr
    modifyCpu (mmr1Track reg (-2))
    pure (.mem addr)
  else if mode = 6 then do
    let base ← fetch
    let x ← getReg reg
    pure (.mem (base + x))
  else do
    let base ← fetch
    let x ← getReg reg
    let addr ← cpuReadWord (base + x)
    pure (.mem addr)

/-- Where a store to a non-register operand goes. -/
def Operand.addr : Operand → Word
  | .reg _ => 0
  | .imm _ addr => addr
  | .mem addr => addr

def readOperand (op : Operand) (bytemode : Bool) : M Word :=
  match op with
  | .reg r => do
    let v ← getReg r
    pure (if bytemode then v &&& 0o377 else v)
  | .imm value _ => pure (if bytemode then value &&& 0o377 else value)
  | .mem addr =>
    if bytemode then do
      let b ← cpuReadByte addr
      pure (b.setWidth 16)
    else cpuReadWord addr

/-- A byte write to a register touches only its low byte. -/
def writeOperand (op : Operand) (bytemode : Bool) (value : Word) : M Unit :=
  match op with
  | .reg r =>
    if bytemode then do
      let old ← getReg r
      setReg r ((old &&& 0o177400) ||| (value &&& 0o377))
    else setReg r value
  | .imm _ addr | .mem addr =>
    if bytemode then cpuWriteByte addr (value.setWidth 8) else cpuWriteWord addr value

/-! ## Condition codes -/

/-- An explicit PSW write of the same instruction already set the codes when they are frozen. -/
def setFlag (s : Cpu) (flag : Word) (on : Bool) : Cpu :=
  if s.ctl.ccFrozen then s
  else { s with regs.psw := if on then s.regs.psw ||| flag else s.regs.psw &&& ~~~flag }

def flagSet (s : Cpu) (flag : Word) : Bool := s.regs.psw &&& flag ≠ 0

def widthMsb (bytemode : Bool) : Word := if bytemode then 0o200 else 0o100000
def widthMask (bytemode : Bool) : Word := if bytemode then 0o377 else 0o177777
def widthCarry (bytemode : Bool) : BitVec 32 := if bytemode then 0o400 else 0o200000

def setNz (s : Cpu) (result : Word) (bytemode : Bool) : Cpu :=
  setFlag (setFlag s pswN (result &&& widthMsb bytemode ≠ 0)) pswZ
    (result &&& widthMask bytemode = 0)

/-- N ^ C, the overflow rule shared by the shifts and rotates. -/
def setVFromNc (s : Cpu) : Cpu := setFlag s pswV (flagSet s pswN != flagSet s pswC)

/-- N and Z from a result, and V clear. -/
def setNzV0 (s : Cpu) (result : Word) (bytemode : Bool) : Cpu :=
  setFlag (setNz s result bytemode) pswV false

/-- `x + y`; C is the carry out of the MSB, V the signed overflow. -/
def aluAdd (s : Cpu) (x y : Word) (bytemode : Bool) : Word × Cpu :=
  let mask := widthMask bytemode
  let sum : BitVec 32 := (x &&& mask).setWidth 32 + (y &&& mask).setWidth 32
  let result : Word := sum.setWidth 16 &&& mask
  let s := setNz s result bytemode
  let s := setFlag s pswV (~~~(x ^^^ y) &&& (x ^^^ result) &&& widthMsb bytemode ≠ 0)
  (result, setFlag s pswC (sum &&& widthCarry bytemode ≠ 0))

/-- `x - y` as `x + ~y + 1`; C is the borrow. -/
def aluSub (s : Cpu) (x y : Word) (bytemode : Bool) : Word × Cpu :=
  let mask := widthMask bytemode
  let sum : BitVec 32 := (x &&& mask).setWidth 32 + (~~~y &&& mask).setWidth 32 + 1
  let result : Word := sum.setWidth 16 &&& mask
  let s := setNz s result bytemode
  let s := setFlag s pswV ((x ^^^ y) &&& (x ^^^ result) &&& widthMsb bytemode ≠ 0)
  (result, setFlag s pswC (sum &&& widthCarry bytemode = 0))

/-! ## Stack -/

/-- A red zone aborts before the write. -/
def pushWord (value : Word) : M Unit := do
  addReg regSp (-2)
  let sp ← getReg regSp
  checkStackLimit sp
  let sp ← getReg regSp
  cpuWriteWord sp value

def popWord : M Word := do
  let sp ← getReg regSp
  let value ← cpuReadWord sp
  addReg regSp 2
  pure value

end Pdp11
