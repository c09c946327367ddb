import Pdp11.Lib.CText
import Pdp11.Words

namespace Pdp11

open CText

/-! The two-pass assembler of the probes. -/

/-! ## Opcode tables -/

inductive TwoOp
  | mov | cmp | bit | bic | bis | add | movb | cmpb | bitb | bicb | bisb | sub
  deriving DecidableEq, Repr

/-- The top nibble of a double-operand instruction. -/
def TwoOp.top : TwoOp → BitVec 4
  | .mov => 0o1 | .cmp => 0o2 | .bit => 0o3 | .bic => 0o4 | .bis => 0o5 | .add => 0o6
  | .movb => 0o11 | .cmpb => 0o12 | .bitb => 0o13 | .bicb => 0o14 | .bisb => 0o15 | .sub => 0o16

inductive OneOp
  | clr | com | inc | dec | neg | adc | sbc | tst | ror | rol | asr | asl | swab | sxt | jmp
  deriving DecidableEq, Repr

/-- Bits 15:6 of a single-operand instruction. -/
def OneOp.code : OneOp → BitVec 10
  | .clr => 0o0050 | .com => 0o0051 | .inc => 0o0052 | .dec => 0o0053 | .neg => 0o0054
  | .adc => 0o0055 | .sbc => 0o0056 | .tst => 0o0057 | .ror => 0o0060 | .rol => 0o0061
  | .asr => 0o0062 | .asl => 0o0063 | .swab => 0o0003 | .sxt => 0o0067 | .jmp => 0o0001

inductive BrOp
  | br | bne | beq | bge | blt | bgt | ble | bpl | bmi | bhi | blos | bvc | bvs | bcc | bcs
  deriving DecidableEq, Repr

/-- The high byte of a branch. -/
def BrOp.hb : BrOp → Byte
  | .br => 0o001 | .bne => 0o002 | .beq => 0o003 | .bge => 0o004 | .blt => 0o005
  | .bgt => 0o006 | .ble => 0o007 | .bpl => 0o200 | .bmi => 0o201 | .bhi => 0o202
  | .blos => 0o203 | .bvc => 0o204 | .bvs => 0o205 | .bcc => 0o206 | .bcs => 0o207

inductive EisOp
  | mul | div | ash | ashc | xor
  deriving DecidableEq, Repr

def EisOp.base : EisOp → Word
  | .mul => 0o070000 | .div => 0o071000 | .ash => 0o072000 | .ashc => 0o073000 | .xor => 0o074000

/-! ## Statements -/

/-- A register, an addressing mode, and the word that follows the instruction, if any. -/
structure AsmOperand where
  reg : Field3
  mode : Field3
  extra : Option ℤ
  deriving DecidableEq, Repr

/-- The 6-bit specification and the extra words of an operand. -/
def ea (o : AsmOperand) : BitVec 6 × List Word := (o.mode ++ o.reg, o.extra.toList.map (.ofInt 16))

/-- The methods of an `Asm` object. -/
inductive AsmStmt
  | label (name : String)
  | org (addr : ℕ)
  | word (w : ℤ)
  | movImm (reg : Field3) (value : ℤ)
  | movLabel (reg : Field3) (target : String)
  | two (op : TwoOp) (src dst : AsmOperand)
  | one (op : OneOp) (dst : AsmOperand)
  | branch (op : BrOp) (target : String)
  | sob (reg : Field3) (target : String)
  | jsr (reg : Field3) (target : String)
  | rts (reg : Field3)
  | pushImm (value : ℤ)
  | pushLabel (target : String)
  | ccop (w : ℤ)
  | eis (op : EisOp) (reg : Field3) (src : AsmOperand)
  | mfps (dst : AsmOperand)
  | halt

abbrev Labels := String → Option ℕ

/-- Code that awaits the labels: its address, its size in words, and the words it becomes, given
the labels and the address after it; none when a label is unknown or out of range. -/
structure AsmItem where
  addr : ℕ
  nwords : ℕ
  fn : Labels → ℕ → Option (List Word)

/-- An instruction word of an opcode and two 6-bit fields. -/
def opWord (op : Word) (reg : Field3) (spec : BitVec 6) : Word :=
  op ||| (reg.setWidth 16 <<< 6) ||| spec.setWidth 16

def twoWord (op : TwoOp) (src dst : BitVec 6) : Word := op.top ++ src ++ dst

def oneWord (op : OneOp) (dst : BitVec 6) : Word := op.code ++ dst

/-- The branch to `target` from in front of `after`; the offset counts words, rounded down. -/
def branchWord (op : BrOp) (target after : ℕ) : Option Word :=
  let off := ((target : ℤ) - after) / 2
  if -128 ≤ off ∧ off ≤ 127 then some (op.hb ++ BitVec.ofInt 8 off) else none

/-- SOB branches backward. -/
def sobWord (reg : Field3) (target after : ℕ) : Option Word :=
  let off := ((after : ℤ) - target) / 2
  if 0 ≤ off ∧ off ≤ 63 then some (opWord 0o077000 reg (BitVec.ofInt 6 off)) else none

/-- JSR to `target`, through a PC-relative word. -/
def jsrWords (reg : Field3) (target after : ℕ) : List Word :=
  [opWord 0o004000 reg 0o67, BitVec.ofInt 16 ((target : ℤ) - after)]

/-- The size and the words of a statement that emits code. -/
def AsmStmt.code : AsmStmt → Option (ℕ × (Labels → ℕ → Option (List Word)))
  | .label _ | .org _ => none
  | .word w => some (1, fun _ _ => some [BitVec.ofInt 16 w])
  | .movImm reg value =>
    some (2, fun _ _ => some [0o012700 ||| reg.setWidth 16, BitVec.ofInt 16 value])
  | .movLabel reg target =>
    some (2, fun labels _ =>
      (labels target).map fun t => [0o012700 ||| reg.setWidth 16, BitVec.ofNat 16 t])
  | .two op src dst =>
    let words := twoWord op (ea src).1 (ea dst).1 :: ((ea src).2 ++ (ea dst).2)
    some (words.length, fun _ _ => some words)
  | .one op dst =>
    let words := oneWord op (ea dst).1 :: (ea dst).2
    some (words.length, fun _ _ => some words)
  | .branch op target =>
    some (1, fun labels after =>
      (labels target).bind fun t => (branchWord op t after).map ([·]))
  | .sob reg target =>
    some (1, fun labels after =>
      (labels target).bind fun t => (sobWord reg t after).map ([·]))
  | .jsr reg target =>
    some (2, fun labels after => (labels target).map fun t => jsrWords reg t after)
  | .rts reg => some (1, fun _ _ => some [0o000200 ||| reg.setWidth 16])
  | .pushImm value => some (2, fun _ _ => some [0o012746, BitVec.ofInt 16 value])
  | .pushLabel target =>
    some (2, fun labels _ => (labels target).map fun t => [0o012746, BitVec.ofNat 16 t])
  | .ccop w => some (1, fun _ _ => some [BitVec.ofInt 16 w])
  | .eis op reg src =>
    let words := opWord op.base reg (ea src).1 :: (ea src).2
    some (words.length, fun _ _ => some words)
  | .mfps dst =>
    let words := (0o106700 ||| (ea dst).1.setWidth 16) :: (ea dst).2
    some (words.length, fun _ _ => some words)
  | .halt => some (1, fun _ _ => some [0])

/-! ## The two passes -/

structure Asm where
  origin : ℕ
  items : List AsmItem
  labels : Labels
  addr : ℕ

def asmInit (org : ℕ) : Asm := { origin := org, items := [], labels := fun _ => none, addr := org }

/-- `_emit` -/
def Asm.emitItem (a : Asm) (nwords : ℕ) (fn : Labels → ℕ → Option (List Word)) : Asm :=
  { a with
    items := a.items ++ [⟨a.addr, nwords, fn⟩]
    addr := a.addr + nwords * 2 }

/-- The first pass, one statement. -/
def Asm.add (a : Asm) (stmt : AsmStmt) : Asm :=
  match stmt with
  | .label name => { a with labels := fun n => if n = name then some a.addr else a.labels n }
  | .org addr => { a with addr := addr }
  | stmt => (stmt.code.map fun c => a.emitItem c.1 c.2).getD a

def assemble (org : ℕ) (prog : List AsmStmt) : Asm := prog.foldl Asm.add (asmInit org)

/-- The words of an item, each with its address. -/
def AsmItem.deposits (labels : Labels) (it : AsmItem) : Option (List (ℕ × Word)) :=
  (it.fn labels (it.addr + it.nwords * 2)).map fun words =>
    words.mapIdx fun i w => (it.addr + i * 2, w)

/-- The second pass: all words in the order they are printed, or none when an item fails. -/
def Asm.deposits (a : Asm) : Option (List (ℕ × Word)) :=
  (a.items.mapM (AsmItem.deposits a.labels)).map List.flatten

/-- The lines `emit` prints for words already resolved. -/
def imageLines (origin : ℕ) (words : List (ℕ × Word)) (run : ℕ) (dumps : List (ℕ × ℕ)) :
    List (List Char) :=
  "# generated by tools/probes/asm.py".toList ::
    ("pc ".toList ++ numeral 8 origin) ::
    words.map (fun w => "w ".toList ++ numeral 8 w.1 ++ ' ' :: numeral 8 w.2.toNat) ++
    ("run ".toList ++ numeral 10 run) ::
    dumps.map fun d => "dump ".toList ++ numeral 8 d.1 ++ ' ' :: numeral 8 d.2

/-- `emit` -/
def Asm.emit (a : Asm) (run : ℕ) (dumps : List (ℕ × ℕ)) : Option (List Char) :=
  a.deposits.map fun words => (imageLines a.origin words run dumps).flatMap (· ++ ['\n'])

end Pdp11
