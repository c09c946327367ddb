import Pdp11.Lib.CText
import Pdp11.Step

namespace Pdp11

open CText

/-! The image mode of the headless frontend. -/

abbrev maxDumpRegions : ℕ := 32

structure DumpRegion where
  addr : BitVec 32
  count : BitVec 32
  deriving DecidableEq, Repr

def parseOctal (s : List Char) : BitVec 32 := (strtoul 8 s).setWidth 32

/-- What the directives of an image have set up, and the lines that were warned about. -/
structure Loader where
  cpu : Cpu
  regions : List DumpRegion
  runLimit : BitVec 64
  warned : List (List Char)

abbrev opW : List Char := ['w']
abbrev opPc : List Char := ['p', 'c']
abbrev opRun : List Char := ['r', 'u', 'n']
abbrev opDump : List Char := ['d', 'u', 'm', 'p']

/-- One directive: an operation and its arguments, as `sscanf` found them in `line`. -/
def loadDirective (st : Loader) (line : List Char) (op : List Char) (args : List (List Char)) :
    Loader :=
  let a := args.getD 0 []
  let b := args.getD 1 []
  if op = opW ∧ args.length = 2 then
    { st with cpu := { st.cpu with
      mem := memWriteWord st.cpu.mem (parseOctal a) ((parseOctal b).setWidth 16) } }
  else if op = opPc ∧ 1 ≤ args.length then
    { st with cpu := { st.cpu with
      regs.r := Function.update st.cpu.regs.r regPc ((parseOctal a).setWidth 16) } }
  else if op = opRun ∧ 1 ≤ args.length then
    { st with runLimit := strtoul 10 a }
  else if op = opDump ∧ args.length = 2 then
    if st.regions.length < maxDumpRegions then
      { st with regions := st.regions ++ [⟨parseOctal a, parseOctal b⟩] }
    else st
  else { st with warned := st.warned ++ [line] }

/-- One line of the image; comments and blank lines are ignored. -/
def loadLine (st : Loader) (line : List Char) : Loader :=
  let words := scanWords [15, 31, 31] (cString line)
  if words = [] ∨ (words.headD []).head? = some '#' then st
  else loadDirective st (cString line) (words.headD []) words.tail

/-- The loop over `fgets` with its 256-byte buffer. -/
def loadImage (cpu : Cpu) (image : List Byte) : Loader :=
  (fgetsAll 256 [] (image.map byteChar)).foldl loadLine ⟨cpu, [], 0, []⟩

/-- Up to `n` steps, while the processor runs. -/
def runSteps (cpu : Cpu) : ℕ → Option Cpu
  | 0 => some cpu
  | n + 1 =>
    if cpu.ctl.halted then some cpu
    else if (cpuStep cpu).escaped then none -- nothing is defined after a jump to a dead frame
    else runSteps (cpuStep cpu).cpu n

/-! ## The state dump -/

/-- `%06o` -/
def octal6 (n : ℕ) : List Char := padded 8 6 n

/-- `R%d %06o` -/
def dumpReg (cpu : Cpu) (i : Field3) : List Char :=
  'R' :: numeral 10 i.toNat ++ ' ' :: octal6 (cpu.regs.r i).toNat

def dumpPsw (cpu : Cpu) : List Char := ['P', 'S', 'W', ' '] ++ octal6 cpu.regs.psw.toNat

/-- `M %06o %06o` -/
def dumpWord (cpu : Cpu) (addr : BitVec 32) : List Char :=
  ['M', ' '] ++ octal6 (addr &&& 0o177777).toNat ++ ' ' :: octal6 (memReadWord cpu.mem addr).toNat

/-- The addresses of a dump region. -/
def DumpRegion.words (r : DumpRegion) : List (BitVec 32) :=
  (List.range r.count.toNat).map fun i => r.addr + BitVec.ofNat 32 i * 2

/-- The lines written to stdout. -/
def dumpLines (cpu : Cpu) (regions : List DumpRegion) : List (List Char) :=
  (List.finRange 8).map (fun i => dumpReg cpu (BitVec.ofFin i)) ++
    dumpPsw cpu :: (regions.flatMap DumpRegion.words).map (dumpWord cpu)

def stateDump (cpu : Cpu) (regions : List DumpRegion) : List Char :=
  (dumpLines cpu regions).flatMap (· ++ ['\n'])

/-- What `main` prints for an image. -/
def runImage (image : List Byte) : Option (List Char) :=
  let st := loadImage cpuCreate image
  (runSteps st.cpu st.runLimit.toNat).map fun cpu => stateDump cpu st.regions

end Pdp11
