import Pdp11.Words

namespace Pdp11

/-- Execution time assuming all cache hits, and the number of read memory cycles. -/
structure Timing where
  ns : BitVec 32
  readCycles : BitVec 32
  deriving DecidableEq, Repr

/-- An entry of a table indexed by addressing mode. -/
def byMode (table : List (BitVec 32)) (mode : Field3) : BitVec 32 := table.getD mode.toNat 0

/-- Source and destination address time; the two tables agree on the 11/70. -/
def addrNs : Field3 → BitVec 32 := byMode [0, 300, 300, 750, 450, 900, 600, 1050]
def addrCyc : Field3 → BitVec 32 := byMode [0, 1, 1, 2, 1, 2, 2, 3]

/-- Instruction classes for the choice of execute/fetch time. -/
inductive TimingClass
  | mov | add | cmp | xor | singleStd | singleNeg | singleTst | singleShift
  deriving DecidableEq, Repr

def movNsReg : Field3 → BitVec 32 := byMode [300, 1200, 1200, 1650, 1350, 1800, 1500, 1950]
def movNsMem : Field3 → BitVec 32 := byMode [450, 1200, 1200, 1650, 1350, 1800, 1650, 2100]
def movCyc : Field3 → BitVec 32 := byMode [1, 1, 1, 2, 1, 2, 2, 3]

/-- Execute/fetch time of a double-operand instruction. -/
def efDouble (cls : TimingClass) (smode sreg dmode dreg : Field3) : Timing :=
  if cls = .mov then
    if dmode = 0 ∧ dreg = 7 then ⟨if smode = 0 then 600 else 750, 1⟩
    else ⟨if smode = 0 then movNsReg dmode else movNsMem dmode, movCyc dmode⟩
  else if dmode = 0 then
    let ns : BitVec 32 := if cls = .xor then 300 else if smode = 0 then 300 else 450
    ⟨if dreg = 7 then ns + 300 else ns, if smode = 0 then 1 else 2⟩
  else
    let ns : BitVec 32 := if cls = .cmp then 450 else 1200
    ⟨if smode = 0 ∧ 1 ≤ sreg ∧ (dreg = 6 ∨ dreg = 7) then ns + 150 else ns, 1⟩

/-- Execute/fetch time of a single-operand instruction. -/
def efSingle (cls : TimingClass) (dmode dreg : Field3) (bytemode : Bool) : Timing :=
  let reg := dmode = 0
  match cls with
  | .singleStd =>
    let ns : BitVec 32 := if reg then 300 else 1200
    ⟨if reg ∧ dreg = 7 then ns + 300 else ns, 1⟩
  | .singleNeg => ⟨if reg then 750 else 1500, 1⟩
  | .singleTst => ⟨if reg then 300 else 450, 1⟩
  | .singleShift =>
    let ns : BitVec 32 := if reg then 300 else 1200
    let ns := if reg ∧ dreg = 7 then ns + 300 else ns
    ⟨if ¬reg ∧ bytemode then ns + 150 else ns, 1⟩
  | _ => ⟨300, 1⟩

/-- The timing class of a double-operand top nibble. -/
def classifyDouble (top : BitVec 4) : TimingClass :=
  if top = 0o01 ∨ top = 0o11 then .mov
  else if top = 0o02 ∨ top = 0o12 ∨ top = 0o03 ∨ top = 0o13 then .cmp
  else .add

def Timing.plus (t u : Timing) : Timing := ⟨t.ns + u.ns, t.readCycles + u.readCycles⟩

def doubleTiming (top : BitVec 4) (smode sreg dmode dreg : Field3) : Timing :=
  let bytemode := 0o11 ≤ top ∧ top ≤ 0o15
  -- MOVB is timed with the ADD class, unlike MOV
  let cls := if top = 0o11 then .add else classifyDouble top
  let t : Timing := ⟨addrNs smode, addrCyc smode⟩
  let t := if top ≠ 0o01 then
      let t := t.plus ⟨addrNs dmode, addrCyc dmode⟩
      if bytemode ∧ dmode ≠ 0 then t.plus ⟨150, 0⟩ else t
    else t
  t.plus (efDouble cls smode sreg dmode dreg)

/-- EIS and XOR, top nibble 7. -/
def eisTiming (op dmode : Field3) : Timing :=
  let ef : BitVec 32 :=
    if op = 0 then 3300
    else if op = 4 then (if dmode = 0 then 300 else 1200)
    else if op = 1 then 900
    else if op = 2 then 750
    else 900
  ⟨addrNs dmode + ef, addrCyc dmode + 1⟩

def singleTiming (base : BitVec 9) (dmode dreg : Field3) (bytemode : Bool) : Timing :=
  let cls : TimingClass :=
    if base = 0o054 then .singleNeg
    else if base = 0o057 then .singleTst
    else if base = 0o060 ∨ base = 0o062 then .singleShift
    else .singleStd
  let t : Timing := ⟨addrNs dmode, addrCyc dmode⟩
  let t := if bytemode ∧ dmode ≠ 0 then t.plus ⟨150, 0⟩ else t
  t.plus (efSingle cls dmode dreg bytemode)

/-- Timing of a decoded instruction word. -/
def instrTiming (word : Word) : Timing :=
  let top : BitVec 4 := word.extractLsb' 12 4
  let smode : Field3 := word.extractLsb' 9 3
  let sreg : Field3 := word.extractLsb' 6 3
  let dmode : Field3 := word.extractLsb' 3 3
  let dreg : Field3 := word.extractLsb' 0 3
  let base : BitVec 9 := word.extractLsb' 6 9
  let bytemode := word.getLsbD 15
  if (0o01 ≤ top ∧ top ≤ 0o06) ∨ (0o11 ≤ top ∧ top ≤ 0o16) then
    doubleTiming top smode sreg dmode dreg
  else if word &&& 0o177700 = 0o000100 then -- JMP
    ⟨byMode [0, 900, 900, 1200, 900, 1350, 1050, 1500] dmode,
      byMode [0, 1, 1, 2, 1, 2, 2, 3] dmode⟩
  else if word &&& 0o177000 = 0o004000 then -- JSR
    ⟨byMode [0, 1950, 1950, 2250, 1950, 2400, 2100, 2550] dmode,
      byMode [0, 1, 1, 2, 1, 2, 2, 3] dmode⟩
  else if top = 0o07 then eisTiming smode dmode
  else if top = 0o17 then ⟨450 + addrNs dmode, 1 + addrCyc dmode⟩
  else if base = 0o065 then -- MFPI, MFPD
    ⟨addrNs dmode + 1500, addrCyc dmode + 1⟩
  else if base = 0o066 then -- MTPI, MTPD
    ⟨byMode [900, 1650, 1650, 2100, 1800, 2250, 2100, 2550] dmode,
      byMode [1, 2, 2, 3, 2, 3, 3, 4] dmode⟩
  else if 0o050 ≤ base ∧ base ≤ 0o067 then singleTiming base dmode dreg bytemode
  else ⟨300, 1⟩

/-- Floating Point execution time per instruction class. -/
def fpExecNs (major : BitVec 4) (subop : BitVec 2) (dbl : Bool) : BitVec 32 :=
  if major = 0o02 then (if dbl then 3060 else 1800)
  else if major = 0o03 then (if dbl then 5990 else 2880)
  else if major = 0o04 then 900
  else if major = 0o05 then 360
  else if major = 0o06 then 900
  else if major = 0o07 then 540
  else if major = 0o10 then 360
  else if major = 0o11 then (if dbl then 3120 else 1920)
  else if major = 0o01 then 180
  else if major = 0o00 then (if subop = 1 then 180 else 0)
  else 540

end Pdp11
