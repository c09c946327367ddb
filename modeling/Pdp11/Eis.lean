import Pdp11.Instructions

namespace Pdp11

/-- `reg | 1`, the low half of a register pair. -/
def pairReg (reg : Field3) : Field3 := reg ||| 1

/-- The data-dependent extra time of the running instruction. -/
def setEisExtra (ns : BitVec 32) : M Unit := modifyCpu fun s => { s with acct.eisExtraNs := ns }

/-- The four condition codes, set one by one. -/
def setNzvc (s : Cpu) (n z v c : Bool) : Cpu :=
  setFlag (setFlag (setFlag (setFlag s pswN n) pswZ z) pswV v) pswC c

def opMul (word : Word) : M Unit := do
  let reg := regField word
  let op ← decodeOperand (dstSpec word) false
  let value ← readOperand op false
  let r ← getReg reg
  let dst : BitVec 32 := r.signExtend 32 * value.signExtend 32
  setReg reg ((dst >>> 16).setWidth 16)
  setReg (pairReg reg) (dst.setWidth 16)
  modifyCpu fun s => setNzvc s (dst.slt 0) (dst = 0) false
    ((32767#32).slt dst ∨ dst.slt (-32768#32))

/-- A zero divisor costs only the base time, a real divide the shortest published extra. -/
def opDiv (word : Word) : M Unit := do
  let reg := regField word
  let op ← decodeOperand (dstSpec word) false
  let divisor ← readOperand op false
  let hi ← getReg reg
  let lo ← getReg (pairReg reg)
  let src : BitVec 32 := hi ++ lo
  if divisor = 0 then modifyCpu fun s => setNzvc s false true true true
  else do
    setEisExtra 6150
    if src = 0o20000000000 ∧ divisor = 0o177777 then
      modifyCpu fun s =>
        setFlag (setFlag (setFlag (setFlag s pswV true) pswN false) pswZ false) pswC false
    else
      let dst := src.sdiv (divisor.signExtend 32)
      if (32767#32).slt dst ∨ dst.slt (-32768#32) then -- the quotient does not fit
        modifyCpu fun s =>
          setFlag (setFlag (setFlag (setFlag s pswN (dst.slt 0)) pswV true) pswZ false) pswC false
      else do
        modifyCpu fun s => setFlag s pswN (dst.slt 0)
        setReg reg (dst.setWidth 16)
        setReg (pairReg reg) ((src - divisor.signExtend 32 * dst).setWidth 16)
        modifyCpu fun s => setFlag (setFlag (setFlag s pswZ (dst = 0)) pswV false) pswC false

/-- A shift's result, overflow and carry. -/
structure Shift where
  dst : BitVec 32
  v : Bool
  c : Bool

/-- The `.15 us` a shift of code `sh` adds for each place. -/
def shiftExtraNs (sh : ℕ) : BitVec 32 := 150 * BitVec.ofNat 32 (if sh ≤ 31 then sh else 64 - sh)

/-- A right shift by 1..31 places, for the codes 33..63. -/
def shiftRight (src : BitVec 32) (sh : ℕ) : Shift :=
  let signs : BitVec 32 := if src.msb then -1 else 0
  { dst := src.sshiftRight (64 - sh) ||| (signs <<< (sh - 32))
    v := false
    c := src.sshiftRight (63 - sh) &&& 1 ≠ 0 }

def ashShift (src : BitVec 32) (sh : ℕ) : Shift :=
  if sh = 0 then ⟨src, false, false⟩
  else if sh ≤ 15 then
    let dst := src <<< sh
    let i := src.sshiftRight (16 - sh) &&& 0o177777
    ⟨dst, i ≠ (if dst &&& 0o100000 ≠ 0 then 0o177777 else 0), i &&& 1 ≠ 0⟩
  else if sh ≤ 31 then ⟨0, src ≠ 0, (src <<< (sh - 16)) &&& 1 ≠ 0⟩
  else if sh = 32 then ⟨if src.msb then -1 else 0, false, src.msb⟩
  else shiftRight src sh

def ashcShift (src : BitVec 32) (sh : ℕ) : Shift :=
  if sh = 0 then ⟨src, false, false⟩
  else if sh ≤ 31 then
    let dst := src <<< sh
    let signs : BitVec 32 := if src.msb then -1 else 0
    let i := src.sshiftRight (32 - sh) ||| (signs <<< sh)
    ⟨dst, i ≠ (if dst.slt 0 then -1 else 0), i &&& 1 ≠ 0⟩
  else if sh = 32 then ⟨if src.msb then -1 else 0, false, src.msb⟩
  else shiftRight src sh

def opAsh (word : Word) : M Unit := do
  let reg := regField word
  let op ← decodeOperand (dstSpec word) false
  let value ← readOperand op false
  let sh := (value &&& 0o77).toNat
  setEisExtra (shiftExtraNs sh)
  let r ← getReg reg
  let out := ashShift (r.signExtend 32) sh
  setReg reg (out.dst.setWidth 16)
  modifyCpu fun s =>
    setFlag (setFlag (setNz s (out.dst.setWidth 16) false) pswV out.v) pswC out.c

def opAshc (word : Word) : M Unit := do
  let reg := regField word
  let op ← decodeOperand (dstSpec word) false
  let value ← readOperand op false
  let sh := (value &&& 0o77).toNat
  setEisExtra (shiftExtraNs sh)
  let hi ← getReg reg
  let lo ← getReg (pairReg reg)
  let out := ashcShift (hi ++ lo) sh
  let hi : Word := (out.dst >>> 16).setWidth 16
  let lo : Word := out.dst.setWidth 16
  setReg reg hi
  setReg (pairReg reg) lo
  modifyCpu fun s => setNzvc s (hi &&& 0o100000 ≠ 0) (hi ||| lo = 0) out.v out.c

def opXor (word : Word) : M Unit := do
  let dst ← decodeOperand (dstSpec word) false
  let d ← readOperand dst false
  let r ← getReg (regField word)
  writeOperand dst false (d ^^^ r)
  modifyCpu fun s => setNzV0 s (d ^^^ r) false

end Pdp11
