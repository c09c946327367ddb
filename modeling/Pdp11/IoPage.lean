import Pdp11.Machine
import Pdp11.Devices.Console
import Pdp11.Devices.Rp11
import Pdp11.Devices.Rl11
import Pdp11.Devices.Rx11

namespace Pdp11

abbrev iopagePsw : Word := 0o177776
abbrev iopagePirq : Word := 0o177772
abbrev iopageMmr0 : Word := 0o177572
abbrev iopageMmr1 : Word := 0o177574
abbrev iopageMmr2 : Word := 0o177576
abbrev iopageMmr3 : Word := 0o172516
abbrev kw11lLks : Word := 0o177546

abbrev ubmBase : Word := 0o170200
abbrev ubmEnd : Word := 0o170377

def isUbm (s : Cpu) (a : Word) : Bool := s.cfg.hasUbm ∧ ubmBase ≤ a ∧ a ≤ ubmEnd

def ubmRead (s : Cpu) (a : Word) : Word :=
  let off := a - ubmBase
  let reg := s.dev.ubMap (off.extractLsb' 2 5)
  if off &&& 2 ≠ 0 then (reg >>> 16).setWidth 16 &&& 0o77 else reg.setWidth 16 &&& 0o177776

/-- Each register is a double-word holding a 22-bit even base. -/
def ubmWrite (s : Cpu) (a value : Word) : Cpu :=
  let off := a - ubmBase
  let pg : BitVec 5 := off.extractLsb' 2 5
  let reg := s.dev.ubMap pg
  let reg := if off &&& 2 ≠ 0 then
      (reg &&& 0o177777) ||| ((value.setWidth 32 &&& 0o77) <<< 16)
    else (reg &&& ~~~0o177777) ||| (value.setWidth 32 &&& 0o177776)
  { s with dev.ubMap := Function.update s.dev.ubMap pg (reg &&& 0o17777776) }

/-- The PAR and PDR blocks: base address, whether PARs, first page index. -/
def aprBlocks : List (Word × Bool × BitVec 6) :=
  [(0o172300, false, 0), (0o172320, false, 8), (0o172340, true, 0), (0o172360, true, 8),
    (0o172200, false, 16), (0o172220, false, 24), (0o172240, true, 16), (0o172260, true, 24),
    (0o177600, false, 48), (0o177620, false, 56), (0o177640, true, 48), (0o177660, true, 56)]

/-- The PAR (`true`) or PDR slot of an I/O-page address, if it is one. -/
def aprIndex (a : Word) : Option (Bool × BitVec 6) :=
  (aprBlocks.find? fun b => decide (b.1 ≤ a ∧ a ≤ b.1 + 0o16)).map fun b =>
    (b.2.1, b.2.2 + ((a - b.1) >>> 1).setWidth 6)

abbrev sysregSr : Word := 0o177570
abbrev sysregBase : Word := 0o177740
abbrev sysregTop : Word := 0o177774
abbrev sysid1170 : Word := 0o011064

/-- The 11/70 system registers; `none` where the address is no register of this model. -/
def sysregRead (s : Cpu) (a : Word) : Option Word :=
  if s.cfg.model ≠ .m1170 then none
  else if a = sysregSr then some s.sys.sr
  else if sysregBase ≤ a ∧ a ≤ sysregTop then
    match ((a >>> 1) &&& 0o17).toNat with
    | 0 | 1 => some 0
    | 2 => some s.sys.memerr
    | 3 => some s.sys.ccr
    | 4 => some 0
    | 5 => some s.sys.hitmiss
    | 8 => some ((s.cfg.memTop >>> 6) - 1 |>.setWidth 16)
    | 9 => some 0
    | 10 => some sysid1170
    | 11 => some (s.sys.cpuerr &&& 0o374)
    | 12 => some s.sys.mbrk
    | 14 => some (s.sys.stklim &&& 0o177400)
    | _ => none
  else none

def sysregWrite (s : Cpu) (a value : Word) : Option Cpu :=
  if s.cfg.model ≠ .m1170 then none
  else if a = sysregSr then some { s with sys.dr := value }
  else if sysregBase ≤ a ∧ a ≤ sysregTop then
    match ((a >>> 1) &&& 0o17).toNat with
    | 0 | 1 => some s
    | 2 => some { s with sys.memerr := s.sys.memerr &&& ~~~value }
    | 3 => some { s with sys.ccr := value }
    | 4 | 5 => some s
    | 8 | 9 | 10 => some s
    | 11 => some { s with sys.cpuerr := 0 }
    | 12 => some { s with sys.mbrk := value &&& 0o377 }
    | 14 => some { s with sys.stklim := value &&& 0o177400 }
    | _ => none
  else none

def isDl11 (a : Word) : Bool := a ∈ [dl11Rcsr, dl11Rbuf, dl11Xcsr, dl11Xbuf]

def isRk11 (a : Word) : Bool :=
  a ∈ [(0o177400 : Word), 0o177402, 0o177404, 0o177406, 0o177410, 0o177412, 0o177414, 0o177416]

def isTm11 (a : Word) : Bool :=
  a ∈ [(0o172520 : Word), 0o172522, 0o172524, 0o172526, 0o172530, 0o172532]

def isRl11 (a : Word) : Bool := a ∈ [(0o174400 : Word), 0o174402, 0o174404, 0o174406]

def isRx11 (a : Word) : Bool := a ∈ [(0o177170 : Word), 0o177172]

def isRp11 (a : Word) : Bool := rpCsr ≤ a ∧ a ≤ rpEnd

/-- A read of an I/O-page register and its side effects; `none` where no register answers. -/
def ioReadReg (s : Cpu) (a : Word) : Option (Word × Cpu) :=
  if isUbm s a then some (ubmRead s a, s)
  else if a = iopagePsw then some (s.regs.psw, s)
  else if a = iopagePirq then some (s.dev.pirq, s)
  else if a = iopageMmr0 then some (s.mmu.mmr0, s)
  else if a = iopageMmr1 then some (s.mmu.mmr1, s)
  else if a = iopageMmr2 then some (s.mmu.mmr2, s)
  else if a = iopageMmr3 then some (s.mmu.mmr3, s)
  else if a = kw11lLks then some (clkRead s, s)
  else if isDl11 a then some (consoleRead s a)
  else if isRk11 a then some (rkRead s a, s)
  else if isTm11 a then some (tmRead s a)
  else if isRl11 a then some (rlRead s a)
  else if isRx11 a then some (rxRead s a)
  else if isRp11 a then some (rpRead s a, s)
  else
    match aprIndex a with
    | some (true, idx) => some (s.mmu.par idx, s)
    | some (false, idx) => some (s.mmu.pdr idx, s)
    | none => (sysregRead s a).map fun v => (v, s)

/-- An explicit store to the PSW; without EXPT it cannot change the T bit. -/
def pswWrite (s : Cpu) (value : Word) : Cpu :=
  let value := if s.cfg.hasExpt then value
    else (value &&& ~~~pswT) ||| (s.regs.psw &&& pswT)
  { putPsw s value with ctl.ccFrozen := true }

/-- A program write to a page register; the accessed and written flags of a PDR are cleared. -/
def aprWrite (s : Cpu) (isPar : Bool) (idx : BitVec 6) (value : Word) : Cpu :=
  if isPar then { s with mmu.par := Function.update s.mmu.par idx (value &&& s.cfg.parMask) }
  else
    let pdr := value &&& s.cfg.pdrMask &&& ~~~(pdrA ||| pdrW)
    { s with mmu.pdr := Function.update s.mmu.pdr idx pdr }

/-- A write of an I/O-page register; `none` where no register answers. -/
def ioWriteReg (s : Cpu) (a value : Word) : Option Cpu :=
  if isUbm s a then some (ubmWrite s a value)
  else if a = iopagePsw then some (pswWrite s value)
  else if a = iopagePirq then some (putPirq s value)
  else if a = iopageMmr0 then some { s with mmu.mmr0 := value &&& s.cfg.mmr0Mask }
  else if a = iopageMmr3 then some { s with mmu.mmr3 := value &&& s.cfg.mmr3Mask }
  else if a = kw11lLks then some (clkWrite s value)
  else if isDl11 a then some (consoleWrite s a value)
  else if isRk11 a then some (rkWrite s a value)
  else if isTm11 a then some (tmWrite s a value)
  else if isRl11 a then some (rlWrite s a value)
  else if isRx11 a then some (rxWrite s a value)
  else if isRp11 a then some (rpWrite s a value)
  else
    match aprIndex a with
    | some (isPar, idx) => some (aprWrite s isPar idx value)
    | none => sysregWrite s a value

def ioRead (a : Word) : M Word := do
  let s ← getCpu
  match ioReadReg s a with
  | some (v, s') => do
    modifyCpu fun _ => s'
    pure v
  | none => cpuBusFault vecBus

def ioWrite (a value : Word) : M Unit := do
  emit (.ioWrite a value)
  let s ← getCpu
  match ioWriteReg s a value with
  | some s' => modifyCpu fun _ => s'
  | none => cpuBusFault vecBus

/-! ## Memory access through the MMU -/

def cacheReadCpu (pa : PhysAddr) (s : Cpu) : Cpu :=
  { s with acct.cache := (cacheRead s.acct.cache pa).2 }

/-- Word access in an explicit mode and space. -/
def cpuReadWordGen (va : Word) (mode : Mode) (dspace : Bool) : M Word := do
  whenM (va &&& 1 ≠ 0) (cpuBusFault vecBus)
  let pa ← mmuRelocate va false mode dspace
  if isIopage pa then ioRead (pa.setWidth 16)
  else do
    checkNxm pa
    modifyCpu (cacheReadCpu pa)
    let s ← getCpu
    pure (memReadWord s.mem pa)

def cpuWriteWordMode (va : Word) (mode : Mode) (dspace : Bool) (value : Word) : M Unit := do
  whenM (va &&& 1 ≠ 0) (cpuBusFault vecBus)
  let pa ← mmuRelocate va true mode dspace
  if isIopage pa then ioWrite (pa.setWidth 16) value
  else do
    checkNxm pa
    modifyCpu fun s => { s with mem := memWriteWord s.mem pa value }

/-- Instruction space of the current mode. -/
def cpuFetchWord (va : Word) : M Word := do
  let s ← getCpu
  cpuReadWordGen va s.mode false

/-- Data space of the current mode. -/
def cpuReadWord (va : Word) : M Word := do
  let s ← getCpu
  cpuReadWordGen va s.mode true

def cpuWriteWord (va value : Word) : M Unit := do
  let s ← getCpu
  cpuWriteWordMode va s.mode true value

def cpuReadByte (va : Word) : M Byte := do
  let s ← getCpu
  let pa ← mmuRelocate va false s.mode true
  if isIopage pa then do
    let w ← ioRead (pa.setWidth 16 &&& 0o177776)
    pure (if pa &&& 1 ≠ 0 then (w >>> 8).setWidth 8 else (w &&& 0o377).setWidth 8)
  else do
    checkNxm pa
    modifyCpu (cacheReadCpu pa)
    let s ← getCpu
    pure (memReadByte s.mem pa)

def cpuWriteByte (va : Word) (value : Byte) : M Unit := do
  let s ← getCpu
  let pa ← mmuRelocate va true s.mode true
  if isIopage pa then do
    let reg := pa.setWidth 16 &&& 0o177776
    let w ← ioRead reg
    ioWrite reg (if pa &&& 1 ≠ 0 then (w &&& 0o377) ||| (value.setWidth 16 <<< 8)
      else (w &&& 0o177400) ||| value.setWidth 16)
  else do
    checkNxm pa
    modifyCpu fun s => { s with mem := memWriteByte s.mem pa value }

end Pdp11
