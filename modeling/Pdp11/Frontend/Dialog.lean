import Pdp11.Frontend.Session

namespace Pdp11

/-! The boot mode of the headless frontend. -/

abbrev chBackslash : Byte := 0x5c
abbrev chBar : Byte := 0x7c

/-! ## The rolling tail of the console output -/

abbrev tailSize : ℕ := 256

/-- The output since the last match, as far as it fits. -/
structure ConsoleState where
  tail : List Byte
  fits : tail.length ≤ tailSize

def ConsoleState.empty : ConsoleState := ⟨[], Nat.zero_le tailSize⟩

/-- The byte without its parity bit. -/
def asciiByte (ch : Byte) : Byte := ch &&& 0o177

/-- `console_sink`: when the tail is full its first byte goes. -/
def consoleSink (cs : ConsoleState) (ch : Byte) : ConsoleState :=
  if h : cs.tail.length < tailSize then
    ⟨cs.tail ++ [asciiByte ch], by
      rw [List.length_append, List.length_singleton]
      exact h⟩
  else
    ⟨cs.tail.drop 1 ++ [asciiByte ch], by
      have hfits : cs.tail.length ≤ 256 := cs.fits
      rw [List.length_append, List.length_drop, List.length_singleton, tailSize]
      omega⟩

/-- The console output ends with `s`. -/
def tailEndsWith (cs : ConsoleState) (s : List Byte) : Bool :=
  0 < s.length ∧ s.length ≤ cs.tail.length ∧ cs.tail.drop (cs.tail.length - s.length) = s

/-! ## Scripts -/

/-- The byte an escaped character stands for. -/
def escaped (c : Byte) : Byte :=
  if c = 0x72 then 0x0d else if c = 0x6e then 0x0a else if c = 0x74 then 0x09 else c

/-- The loop of `unescape` without its bound; a backslash at the end stands for itself. -/
def unescapeAll : List Byte → List Byte
  | [] => []
  | b :: c :: s => if b = chBackslash then escaped c :: unescapeAll s else b :: unescapeAll (c :: s)
  | [b] => [b]

/-- Every pass of the loop writes one byte, at most `cap`, and none after a NUL. -/
def unescape (cap : ℕ) (s : List Byte) : List Byte := (unescapeAll (cBytes s)).take cap

structure DialogStep where
  expect : List Byte
  send : List Byte
  deriving DecidableEq, Repr

abbrev maxSteps : ℕ := 16

/-- The fields of a specification from inside one that starts with `cur`; none follows a bar at the
end. -/
def fieldsFrom (cur : List Byte) : List Byte → List (List Byte)
  | [] => [cur]
  | b :: p =>
    if b = chBar then cur :: (if p = [] then [] else fieldsFrom [] p) else fieldsFrom (cur ++ [b]) p

def dialogFields (spec : List Byte) : List (List Byte) :=
  if spec = [] then [] else fieldsFrom [] spec

/-- The buffer for one field of a specification. -/
def cutField (field : List Byte) : List Byte := field.take 127

/-- Fields in pairs of a prompt and its reply; a missing reply is empty. -/
def pairFields : List (List Byte) → List DialogStep
  | [] => []
  | [e] => [⟨unescape 63 (cutField e), []⟩]
  | e :: s :: fields =>
    ⟨unescape 63 (cutField e), unescape 128 (cutField s)⟩ :: pairFields fields

def parseDialog (spec : List Byte) : List DialogStep :=
  pairFields ((dialogFields (cBytes spec)).take (2 * maxSteps))

/-! ## The boot loop -/

/-- The standard RK boot ROM. -/
def rkBootRom : List Word :=
  [0o042113, 0o012706, 0o002000, 0o012700, 0o000000, 0o010003, 0o000303, 0o006303, 0o006303,
    0o006303, 0o006303, 0o006303, 0o012701, 0o177412, 0o010311, 0o005041, 0o012741, 0o177000,
    0o012741, 0o000005, 0o005002, 0o005003, 0o012704, 0o002020, 0o005005, 0o105711, 0o100376,
    0o105011, 0o005007]

abbrev bootStart : Word := 0o2000

/-- Words deposited one after the other from `addr` on. -/
def depositRom (mem : Mem) (addr : PhysAddr) (rom : List Word) : Mem :=
  (rom.zipIdx).foldl (fun mem w => memWriteWord mem (addr + BitVec.ofNat 32 w.2 * 2) w.1) mem

/-- The words of a disk file, low byte first; an odd byte at the end is not read. -/
def diskWords : List Byte → List Word
  | lo :: hi :: bytes => (lo.setWidth 16 ||| hi.setWidth 16 <<< 8) :: diskWords bytes
  | _ => []

abbrev rkDriveWords : BitVec 32 := rkNumcy * 2 * rkNumsc * rkNumwd

/-- The number of words in a disk file, in 32 bits. -/
def fileWords (bytes : List Byte) : BitVec 32 := BitVec.ofNat 32 (bytes.length / 2)

/-- The words that are read from a disk file. -/
def bootWords (bytes : List Byte) : List Word := (diskWords bytes).take (fileWords bytes).toNat

/-- The image attached for a disk file, padded to the size of a drive. -/
def bootDisk (bytes : List Byte) : DiskImage := some fun i => (bootWords bytes).getD i.toNat 0

def bootDiskSize (bytes : List Byte) : BitVec 32 :=
  let words := fileWords bytes
  if words < rkDriveWords then rkDriveWords else words

/-- The machine `run_boot` starts. -/
def bootCpu (bytes : List Byte) : Cpu :=
  let cpu := rkAttach { cpuCreate with dev.consoleOut := some [] } (bootDisk bytes)
    (bootDiskSize bytes)
  { cpu with
    mem := depositRom cpu.mem (bootStart.setWidth 32) rkBootRom
    regs.r := Function.update cpu.regs.r regPc (bootStart + 2) }

/-- The pauses before a reply and between its characters, in guest time. -/
structure DialogPace where
  settleNs : Time
  keyNs : Time

/-- The state of the loop: what is left of the script, of the reply and of the dialog. -/
structure BootState where
  cpu : Cpu
  console : ConsoleState
  input : List Byte
  pend : List Byte
  steps : List DialogStep
  nextKeyNs : Time

/-- What follows a step of the processor when the receiver is free. -/
def bootFeed (pace : DialogPace) (st : BootState) : BootState :=
  match st.input, st.pend, st.steps with
  | ch :: input, _, _ => { st with cpu := consoleInput st.cpu ch, input := input }
  | [], ch :: pend, _ =>
    if st.nextKeyNs ≤ st.cpu.acct.timeNs then
      { st with
        cpu := consoleInput st.cpu ch
        pend := pend
        nextKeyNs := st.cpu.acct.timeNs + pace.keyNs }
    else st
  | [], [], d :: steps =>
    if tailEndsWith st.console d.expect then
      { st with
        console := .empty
        pend := d.send
        steps := steps
        nextKeyNs := st.cpu.acct.timeNs + pace.settleNs }
    else st
  | [], [], [] => st

/-- A step of the processor; the sink gets what it sends. -/
def bootAdvance (st : BootState) : BootState :=
  let cpu := (cpuStep st.cpu).cpu
  { st with
    console := (newBytes st.cpu cpu).foldl consoleSink st.console
    cpu := cpu }

/-- One pass of the loop. -/
def bootStep (pace : DialogPace) (st : BootState) : BootState :=
  let st := bootAdvance st
  if st.cpu.dev.ttiCsr &&& dl11Done ≠ 0 then st else bootFeed pace st

/-- Up to `n` passes, while the processor runs. -/
def bootRun (pace : DialogPace) (st : BootState) : ℕ → BootState
  | 0 => st
  | n + 1 => if st.cpu.ctl.halted then st else bootRun pace (bootStep pace st) n

/-- `run_boot` for a disk, an input script and a dialog. -/
def bootInit (bytes script spec : List Byte) : BootState :=
  { cpu := bootCpu bytes
    console := .empty
    input := unescape 512 script
    pend := []
    steps := parseDialog spec
    nextKeyNs := 0 }

end Pdp11
