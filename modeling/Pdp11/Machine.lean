import Pdp11.State

namespace Pdp11

/-- What a call of the step does that its caller cannot read back from the CPU. -/
inductive Event
  | setjmp
  | fault (vector : Word)
  | dispatch (vector psw pc : Word)
  | ioWrite (addr value : Word)
  deriving DecidableEq, Repr

/-- The CPU, and the events of the running call, oldest first. -/
structure Machine where
  cpu : Cpu
  events : List Event

/-- C code over the CPU, where a `longjmp` leaves the CPU as it stands. -/
abbrev M := EStateM Unit Machine

def getCpu : M Cpu := fun m => .ok m.cpu m

def modifyCpu (f : Cpu → Cpu) : M Unit := fun m => .ok () { m with cpu := f m.cpu }

/-- Run a function that returns a value and changes the CPU. -/
def liftCpu {α : Type} (f : Cpu → α × Cpu) : M α :=
  fun m => .ok (f m.cpu).1 { m with cpu := (f m.cpu).2 }

def emit (e : Event) : M Unit := fun m => .ok () { m with events := m.events ++ [e] }

def whenM (c : Prop) [Decidable c] (act : M Unit) : M Unit := if c then act else pure ()

/-- Raise a fault: record the vector and unwind to the `setjmp` of the step. -/
def cpuBusFault {α : Type} (vector : Word) : M α := do
  modifyCpu fun s => { s with ctl.abortVec := vector }
  emit (.fault vector)
  throw ()

abbrev stklYel : Word := 0o400
abbrev stklRed : Word := 0o340

/-- Whether `check_stack_limit` looks at the stack pointer at all. -/
def stackExempt (s : Cpu) : Bool := s.ctl.inTrapPush ∨ s.mode ≠ 0

/-- The red zone: kernel SP is reset and the abort's own pushes are exempted. -/
def stackRed (s : Cpu) : Cpu :=
  { s with
    sys.cpuerr := s.sys.cpuerr ||| cpuerrRed
    regs.r := Function.update s.regs.r regSp 4
    regs.stackfile := Function.update s.regs.stackfile 0 4
    ctl.servicingStackTrap := true
    ctl.inTrapPush := false }

def stackYellow (s : Cpu) : Cpu :=
  { s with
    sys.cpuerr := s.sys.cpuerr ||| cpuerrYel
    ctl.stackYellowPending := true }

/-- Kernel stack limit, checked on a stack pointer just lowered to `sp`. -/
def checkStackLimit (sp : Word) : M Unit := do
  let s ← getCpu
  if stackExempt s then pure ()
  else if s.sys.stklim + stklYel ≤ sp then pure ()
  else if s.cfg.hasStklf then modifyCpu stackYellow
  else if s.cfg.hasStklr then
    if s.sys.stklim + stklRed ≤ sp then modifyCpu stackYellow
    else do
      modifyCpu stackRed
      cpuBusFault vecBus
  else pure ()

/-! ## KT11 memory management -/

/-- The MMR0 error bit an access-control field raises for a direction. -/
def acfViolation (acf : Word) (isWrite : Bool) : Word :=
  if isWrite then
    if acf = 4 ∨ acf = 5 ∨ acf = 6 then 0 else if acf = 2 then mmr0Ro else mmr0Nr
  else if acf = 1 ∨ acf = 2 ∨ acf = 4 ∨ acf = 5 ∨ acf = 6 then 0 else mmr0Nr

/-- Per-mode MMR3 D-space enable bits. -/
def dsmask (mode : Mode) : Word :=
  if mode = 0 then mmr3Kds else if mode = 1 then mmr3Sds else if mode = 3 then mmr3Uds else 0

/-- The page register a reference uses. -/
def mmuIndex (mmu : Mmu) (va : Word) (mode : Mode) (dspace : Bool) : BitVec 6 :=
  let ds : BitVec 1 := if dspace ∧ mmu.mmr3 &&& dsmask mode ≠ 0 then 1 else 0
  mode ++ ds ++ va.extractLsb' 13 3

def pageLengthError (pdr va : Word) : Bool :=
  let dbn := va &&& 0o17700
  let plf := (pdr &&& pdrPlf) >>> 2
  if pdr &&& pdrEd ≠ 0 then dbn < plf else plf < dbn

/-- All error bits a reference raises on a page. -/
def mmuError (pdr va : Word) (isWrite : Bool) : Word :=
  acfViolation (pdr &&& pdrAcf) isWrite ||| (if pageLengthError pdr va then mmr0Pl else 0)

/-- The physical address of a reference through page register `idx`. -/
def mmuPhysical (mmu : Mmu) (idx : BitVec 6) (va : Word) : PhysAddr :=
  let pa := ((va &&& 0o17777).setWidth 32 + ((mmu.par idx).setWidth 32 <<< 6)) &&& pamask22
  if mmu.mmr3 &&& mmr3M22e = 0 then -- 18-bit relocation
    let pa := pa &&& 0o777777
    if 0o760000 ≤ pa then 0o17000000 ||| pa else pa
  else pa

/-- With management off the top 8 KB fold onto the I/O page. -/
def unmappedPhysical (va : Word) : PhysAddr :=
  let pa := va.setWidth 32
  if 0o160000 ≤ pa then 0o17600000 ||| pa else pa

/-- Record the page and the error in MMR0, once. -/
def captureMmu (idx : BitVec 6) (err : Word) (s : Cpu) : Cpu :=
  if s.mmu.mmr0 &&& mmr0Freeze = 0 then
    { s with mmu.mmr0 := ((s.mmu.mmr0 &&& ~~~mmr0Page) ||| (idx.setWidth 16 <<< 1)) ||| err }
  else s

/-- Set the accessed flag, and on a write the written flag, of a page. -/
def markAccess (idx : BitVec 6) (isWrite : Bool) (s : Cpu) : Cpu :=
  let pdr := s.mmu.pdr idx ||| pdrA
  { s with mmu.pdr := Function.update s.mmu.pdr idx (if isWrite then pdr ||| pdrW else pdr) }

/-- Relocate a virtual address in a given mode and space, or abort through vector 0250. -/
def mmuRelocate (va : Word) (isWrite : Bool) (mode : Mode) (dspace : Bool) : M PhysAddr := do
  let s ← getCpu
  if s.mmu.mmr0 &&& mmr0Mme ≠ 0 then
    let idx := mmuIndex s.mmu va mode dspace
    let err := mmuError (s.mmu.pdr idx) va isWrite
    if err ≠ 0 then do
      modifyCpu (captureMmu idx err)
      cpuBusFault vecMme
    else do
      modifyCpu (markAccess idx isWrite)
      pure (mmuPhysical s.mmu idx va)
  else pure (unmappedPhysical va)

def isIopage (pa : PhysAddr) : Bool := iopageTop ≤ pa

/-- A physical reference at or above installed memory aborts through vector 4. -/
def checkNxm (pa : PhysAddr) : M Unit := do
  let s ← getCpu
  whenM (s.cfg.memTop ≤ pa) (cpuBusFault vecBus)

end Pdp11
