import Pdp11.Eis

namespace Pdp11

/-! ## Branches and control transfer -/

/-- A branch is identified by its high byte; the low byte is a signed word offset. -/
def isBranch (hb : Byte) : Bool := (1 ≤ hb ∧ hb ≤ 7) ∨ (0o200 ≤ hb ∧ hb ≤ 0o207)

def branchTaken (s : Cpu) (hb : Byte) : Bool :=
  let n := flagSet s pswN
  let z := flagSet s pswZ
  let v := flagSet s pswV
  let c := flagSet s pswC
  if hb = 0o001 then true
  else if hb = 0o002 then !z
  else if hb = 0o003 then z
  else if hb = 0o004 then n == v
  else if hb = 0o005 then n != v
  else if hb = 0o006 then !(z || (n != v))
  else if hb = 0o007 then z || (n != v)
  else if hb = 0o200 then !n
  else if hb = 0o201 then n
  else if hb = 0o202 then !c && !z
  else if hb = 0o203 then c || z
  else if hb = 0o204 then !v
  else if hb = 0o205 then v
  else if hb = 0o206 then !c
  else if hb = 0o207 then c
  else false

def highByte (word : Word) : Byte := word.extractLsb' 8 8
def lowByte (word : Word) : Byte := word.extractLsb' 0 8

def opBranch (word : Word) : M Unit := do
  let s ← getCpu
  whenM (branchTaken s (highByte word) = true) (addReg regPc ((lowByte word).signExtend 16 * 2))

/-- On the 11/05 and 11/20 a jump through `(R)+` takes the incremented register. -/
def jumpTarget (s : Cpu) (word : Word) (dst : Operand) : Word :=
  match dst with
  | .imm _ addr => addr
  | dst =>
    if (s.cfg.model = .m1105 ∨ s.cfg.model = .m1120) ∧ word &&& 0o70 = 0o20 then
      s.regs.r (word.extractLsb' 0 3)
    else dst.addr

def opJmp (word : Word) : M Unit := do
  let dst ← decodeOperand (dstSpec word) false
  match dst with
  | .reg _ => doTrap vecReserved
  | dst => do
    let s ← getCpu
    setReg regPc (jumpTarget s word dst)

def opJsr (word : Word) : M Unit := do
  let reg := regField word
  let dst ← decodeOperand (dstSpec word) false
  match dst with
  | .reg _ => doTrap vecReserved
  | dst => do
    let s ← getCpu
    let target := jumpTarget s word dst
    let link ← getReg reg
    pushWord link
    let pc ← getReg regPc
    setReg reg pc
    setReg regPc target

def opRts (word : Word) : M Unit := do
  let reg : Field3 := word.extractLsb' 0 3
  let link ← getReg reg
  setReg regPc link
  let value ← popWord
  setReg reg value

/-- SOB: decrement, and branch back by `offset` words unless zero. -/
def opSob (word : Word) : M Unit := do
  let reg := regField word
  addReg reg (-1)
  let v ← getReg reg
  whenM (v ≠ 0) (addReg regPc (-((dstSpec word).setWidth 16 * 2)))

/-- Bit 4 selects set or clear, the low nibble names the flags. -/
def opCcops (word : Word) : M Unit :=
  let nibble := word &&& 0o17
  modifyCpu fun s => { s with regs.psw :=
    if word &&& 0o20 ≠ 0 then s.regs.psw ||| nibble else s.regs.psw &&& ~~~nibble }

/-- SPL takes effect in Kernel mode only. -/
def opSpl (word : Word) : M Unit :=
  modifyCpu fun s =>
    if s.mode = 0 then
      { s with regs.psw := (s.regs.psw &&& ~~~(0o340 : Word)) ||| ((word &&& 7) <<< 5) }
    else s

/-- RESET: bus INIT clears PIRQ, the device requests and the controllers. -/
def busInit (s : Cpu) : Cpu :=
  { s with
    dev.pirq := 0
    dev.intReq := 0
    dev.clkCsr := kw11lDone
    dev.ttiCsr := 0
    dev.ttoCsr := dl11Done
    dev.ttoBusy := false
    dev.rk.rkcs := 0o200
    dev.rk.rker := 0
    dev.rk.busy := false
    dev.rp.cs1 := 0o200
    dev.rp.er1 := 0
    dev.rp.busy := false
    dev.tm.cmd := 0o200
    dev.tm.sta := 0
    dev.tm.busy := false }

/-! ## Decode -/

/-- An instruction some models lack, reserved on those. -/
def orReserved (cap : Config → Bool) (act : M Unit) : M Unit := do
  let s ← getCpu
  if cap s.cfg then act else doTrap vecReserved

/-- The action of a recognised single-operand instruction. -/
def trySingleOp (word : Word) : Option (M Unit) :=
  let bytemode := word.getLsbD 15
  let base : BitVec 9 := word.extractLsb' 6 9
  if base = 0o003 ∧ !bytemode then some (singleOp word 0o003 false)
  else if base = 0o064 ∧ !bytemode then some (orReserved (·.hasMark) (opMark word))
  else if base = 0o065 then some (opMfp word bytemode)
  else if base = 0o066 then some (opMtp word bytemode)
  else if 0o050 ≤ base ∧ base ≤ 0o063 then some (singleOp word base bytemode)
  else if !bytemode ∧ base = 0o067 then
    some (orReserved (·.hasSxs) (singleOp word 0o067 false))
  else none

/-- MFPT: the processor-type code in R0, reserved where there is none. -/
def opMfpt : M Unit := do
  let s ← getCpu
  if s.cfg.mfptCode ≠ 0 then setReg 0 s.cfg.mfptCode else doTrap vecReserved

/-- Single-operand instructions, branches, control transfer, EIS and the machine operations;
some unassigned encodings fall through as no-ops. -/
def decodeMisc (word : Word) : M Unit :=
  match trySingleOp word with
  | some act => act
  | none =>
    if isBranch (highByte word) then opBranch word
    else if 0o000100 ≤ word ∧ word ≤ 0o000177 then opJmp word
    else if 0o000200 ≤ word ∧ word ≤ 0o000207 then opRts word
    else if 0o000230 ≤ word ∧ word ≤ 0o000237 then orReserved (·.hasSpl) (opSpl word)
    else if 0o000240 ≤ word ∧ word ≤ 0o000277 then opCcops word
    else if word &&& 0o177000 = 0o004000 then opJsr word
    else if word &&& 0o177000 = 0o070000 then orReserved (·.hasEis) (opMul word)
    else if word &&& 0o177000 = 0o071000 then orReserved (·.hasEis) (opDiv word)
    else if word &&& 0o177000 = 0o072000 then orReserved (·.hasEis) (opAsh word)
    else if word &&& 0o177000 = 0o073000 then orReserved (·.hasEis) (opAshc word)
    else if word &&& 0o177000 = 0o074000 then orReserved (·.hasSxs) (opXor word)
    else if word &&& 0o177000 = 0o077000 then orReserved (·.hasSxs) (opSob word)
    else if word &&& 0o177400 = 0o104000 then doTrap vecEmt
    else if word &&& 0o177400 = 0o104400 then doTrap vecTrap
    else if word = 0o000002 then opRti false
    else if word = 0o000006 then orReserved (·.hasRtt) (opRti true)
    else if word = 0o000007 then opMfpt
    else if word = 0o000003 then doTrap vecBpt
    else if word = 0o000004 then doTrap vecIot
    else if word = 0 then modifyCpu fun s => { s with ctl.halted := true }
    else if word = 0o000001 then modifyCpu fun s => { s with ctl.waiting := true }
    else if word = 0o000005 then modifyCpu busInit
    else if word &&& 0o177700 = 0o106400 ∨ word &&& 0o177700 = 0o106700
        ∨ word &&& 0o177000 = 0o075000 ∨ word &&& 0o177000 = 0o076000 then
      doTrap vecReserved
    else pure ()

end Pdp11
