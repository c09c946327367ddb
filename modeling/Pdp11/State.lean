import Pdp11.Memory

namespace Pdp11

/-- The model range, in the order of the descriptor table. -/
inductive Model
  | m1103 | m1104 | m1105 | m1120 | m1123 | m1123P | m1124 | m1134 | m1140 | m1144
  | m1145 | m1153 | m1160 | m1170 | m1173 | m1173B | m1183 | m1184 | m1193 | m1194
  deriving DecidableEq, Repr

/-- Per-model capability descriptor. -/
structure ModelInfo where
  hasEis : Bool
  hasFpp : Bool
  hasMmu : Bool
  hasUbm : Bool
  hasSxs : Bool
  hasMark : Bool
  hasRtt : Bool
  hasSpl : Bool
  mfptCode : Word
  maxMem : PhysAddr
  pswMask : Word
  mmr0Mask : Word
  mmr3Mask : Word
  parMask : Word
  pdrMask : Word

abbrev mem64K : PhysAddr := 0o0000200000
abbrev mem256K : PhysAddr := 0o0001000000
abbrev mem4M : PhysAddr := 0o0020000000

def modelLookup : Model → ModelInfo
  | .m1103 => ⟨false, false, false, false, true, true, true, false, 0, mem64K, 0o000377, 0, 0, 0, 0⟩
  | .m1104 => ⟨false, false, false, false, false, false, true, false, 0, mem64K, 0o000377, 0, 0, 0, 0⟩
  | .m1105 => ⟨false, false, false, false, false, false, false, false, 0, mem64K, 0o000377, 0, 0, 0, 0⟩
  | .m1120 => ⟨false, false, false, false, false, false, false, false, 0, mem64K, 0o000377, 0, 0, 0, 0⟩
  | .m1123 | .m1123P => ⟨true, true, true, false, true, true, true, false, 3, mem4M, 0o170777,
      0o160157, 0o000060, 0o177777, 0o077516⟩
  | .m1124 => ⟨true, true, true, true, true, true, true, false, 3, mem4M, 0o170777,
      0o160157, 0o000060, 0o177777, 0o077516⟩
  | .m1134 | .m1140 => ⟨true, false, true, false, true, true, true, false, 0, mem256K,
      0o170377, 0o160557, 0, 0o007777, 0o077516⟩
  | .m1160 => ⟨true, true, true, false, true, true, true, false, 0, mem256K,
      0o170377, 0o160557, 0, 0o007777, 0o077516⟩
  | .m1144 => ⟨true, true, true, true, true, true, true, true, 1, mem4M, 0o170777,
      0o160557, 0o000077, 0o177777, 0o177516⟩
  | .m1145 => ⟨true, true, true, false, true, true, true, true, 0, mem256K, 0o174377,
      0o171777, 0o000007, 0o007777, 0o077717⟩
  | .m1170 => ⟨true, true, true, true, true, true, true, true, 0, mem4M, 0o174377,
      0o171777, 0o000067, 0o177777, 0o077717⟩
  | .m1153 | .m1173 | .m1173B | .m1183 | .m1184 | .m1193 | .m1194 =>
      ⟨true, true, true, false, true, true, true, true, 5, mem4M, 0o174777,
      0o160177, 0o000077, 0o177777, 0o177516⟩

/-- The capability flags cached in the CPU at creation, and the installed memory size. -/
structure Config extends ModelInfo where
  model : Model
  hasExpt : Bool
  hasStklr : Bool
  hasStklf : Bool
  memTop : PhysAddr

/-- The general registers, with the inactive register set and the inactive stack pointers. -/
structure RegFile where
  r : Field3 → Word
  psw : Word
  regfile : Field3 → BitVec 1 → Word
  stackfile : Mode → Word

/-- Sequencing flags of the step loop. -/
structure Control where
  halted : Bool
  waiting : Bool
  tracePending : Bool
  stackYellowPending : Bool
  inTrapPush : Bool
  servicingStackTrap : Bool
  ccFrozen : Bool
  abortVec : Word
  abortDepth : ℕ

/-- KT11 memory management; the PAR and PDR files are indexed by mode, space and page. -/
structure Mmu where
  mmr0 : Word
  mmr3 : Word
  mmr1 : Word
  mmr2 : Word
  par : BitVec 6 → Word
  pdr : BitVec 6 → Word

/-- The 11/70 system registers of the I/O page. -/
structure SysRegs where
  sr : Word
  dr : Word
  memerr : Word
  ccr : Word
  hitmiss : Word
  cpuerr : Word
  mbrk : Word
  stklim : Word

/-- FP11-C accumulators (six are used), status and exception registers. -/
structure FpRegs where
  fac : Field3 → BitVec 64
  fps : Word
  fec : Word
  fea : Word

/-- A word-addressed disk image, when one is attached. -/
abbrev DiskImage := Option (BitVec 32 → Word)

/-- A byte-addressed tape or floppy image, when one is attached. -/
abbrev ByteImage := Option (BitVec 32 → Byte)

structure Rk11 where
  rkcs : Word
  rker : Word
  rkwc : Word
  rkba : Word
  rkda : Word
  rkds : Word
  disk : DiskImage
  diskWords : BitVec 32
  busy : Bool
  doneNs : Time

structure Rp11 where
  cs1 : Word
  wc : Word
  ba : Word
  cs2 : Word
  bae : Word
  da : Word
  dc : Word
  cc : Word
  ds : Word
  er1 : Word
  disk : DiskImage
  diskWords : BitVec 32
  busy : Bool
  doneNs : Time

structure Tm11 where
  sta : Word
  cmd : Word
  bc : Word
  ca : Word
  db : Word
  rdl : Word
  tape : ByteImage
  tapeLen : BitVec 32
  pos : BitVec 32
  wrp : Bool
  busy : Bool
  doneNs : Time

structure Rl11 where
  rlcs : Word
  rlba : Word
  rlda : Word
  rlmp : Word
  rlbae : Word
  trk : Word
  disk : DiskImage
  diskWords : BitVec 32
  busy : Bool
  doneNs : Time

/-- The command state machine of the RX11. -/
inductive RxState
  | idle | rwds | rwdt | rwxfr | fill | empty | cmddone
  deriving DecidableEq, Repr

structure Rx11 where
  rxcs : Word
  rxdb : Byte
  rxes : Byte
  ecode : Byte
  track : Byte
  sector : Byte
  state : RxState
  bptr : Byte
  curTrack : Byte
  buf : BitVec 7 → Byte
  disk : ByteImage
  diskBytes : BitVec 32

/-- Everything on the bus: interrupt requests, the clock, the console and the controllers.
`consoleOut` is the output received so far by the sink, when one is registered. -/
structure Devices where
  pirq : Word
  intReq : BitVec 32
  clkCsr : Word
  clkTickNs : BitVec 32
  clkNextNs : Time
  ttiCsr : Word
  ttiBuf : Word
  ttoCsr : Word
  ttoBuf : Word
  ttoBusy : Bool
  ttoDoneNs : Time
  consoleOut : Option (List Byte)
  rk : Rk11
  rp : Rp11
  tm : Tm11
  rl : Rl11
  rx : Rx11
  ubMap : BitVec 5 → BitVec 32

/-- Instruction and time accounting, and the timing-only cache. -/
structure Accounting where
  instrCount : BitVec 64
  timeNs : Time
  eisExtraNs : BitVec 32
  cache : Cache

/-- `pdp11_cpu`. -/
structure Cpu where
  cfg : Config
  regs : RegFile
  ctl : Control
  mmu : Mmu
  sys : SysRegs
  fp : FpRegs
  dev : Devices
  acct : Accounting
  mem : Mem

/-- The CPU's current processor mode. -/
def Cpu.mode (s : Cpu) : Mode := curMode s.regs.psw

/-- Bits of `int_req`, one per interrupting device. -/
inductive IntId
  | clk | tti | tto | rk | rp | tm | rl | rx
  deriving DecidableEq, Repr

def IntId.bit : IntId → ℕ
  | .clk => 0 | .tti => 1 | .tto => 2 | .rk => 3 | .rp => 4 | .tm => 5 | .rl => 6 | .rx => 7

/-- Device interrupt table: the BR level and vector of each device. -/
def IntId.ipl : IntId → ℕ
  | .clk => 6
  | .tti | .tto => 4
  | .rk | .rp | .tm | .rl | .rx => 5

def IntId.vec : IntId → Word
  | .clk => 0o100 | .tti => 0o060 | .tto => 0o064 | .rk => 0o220
  | .rp => 0o254 | .tm => 0o224 | .rl => 0o160 | .rx => 0o264

def IntId.all : List IntId := [.clk, .tti, .tto, .rk, .rp, .tm, .rl, .rx]

def setInt (s : Cpu) (dev : IntId) : Cpu :=
  { s with dev.intReq := s.dev.intReq ||| (1#32 <<< dev.bit) }

def clrInt (s : Cpu) (dev : IntId) : Cpu :=
  { s with dev.intReq := s.dev.intReq &&& ~~~(1#32 <<< dev.bit) }

/-- The pending device with the highest BR level, ties to the lowest id, and that level. -/
def highestInt (intReq : BitVec 32) : Option IntId × ℕ :=
  IntId.all.foldl (fun best d =>
    if intReq.getLsbD d.bit ∧ best.2 < d.ipl then (some d, d.ipl) else best) (none, 0)

/-- Highest program-interrupt-request level pending (7..1), or 0 if none. -/
def highestPirLevel (pirq : Word) : ℕ :=
  ([7, 6, 5, 4, 3, 2, 1].find? fun level => pirq &&& (1#16 <<< (level + 8)) ≠ 0).getD 0

/-- PIRQ write: keep the request bits and echo the highest pending level. -/
def putPirq (s : Cpu) (value : Word) : Cpu :=
  let req := value &&& 0o177000
  let level := highestPirLevel req
  let encoded : Word := if level ≠ 0 then BitVec.ofNat 16 ((level <<< 5) ||| (level <<< 1)) else 0
  { s with dev.pirq := req ||| encoded }

/-- Relocate an 18-bit Unibus DMA byte address to physical. -/
def unibusMap (s : Cpu) (uba : BitVec 32) : PhysAddr :=
  if !s.cfg.hasUbm ∨ s.mmu.mmr3 &&& mmr3Bme = 0 then
    uba &&& 0o777777
  else
    let pg : BitVec 5 := uba.extractLsb' 13 5
    let off := uba &&& 0o17777
    if pg = 0o37 then (iopageTop + off) &&& pamask22
    else (s.dev.ubMap pg + off) &&& pamask22

/-- Load a new PSW, banking the general registers and the stack pointer if the register set
or the current mode changed. -/
def putPsw (s : Cpu) (newPsw : Word) : Cpu :=
  let newPsw := newPsw &&& s.cfg.pswMask
  let oldRs := regSet s.regs.psw
  let newRs := regSet newPsw
  let s := if newRs ≠ oldRs then
      { s with
        regs.regfile := fun i b => if i < 6 ∧ b = oldRs then s.regs.r i else s.regs.regfile i b
        regs.r := fun i => if i < 6 then s.regs.regfile i newRs else s.regs.r i }
    else s
  let oldCm := curMode s.regs.psw
  let newCm := curMode newPsw
  let s := if newCm ≠ oldCm then
      { s with
        regs.stackfile := Function.update s.regs.stackfile oldCm (s.regs.r regSp)
        regs.r := Function.update s.regs.r regSp (s.regs.stackfile newCm) }
    else s
  { s with regs.psw := newPsw }

end Pdp11
