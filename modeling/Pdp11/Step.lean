import Pdp11.FloatInstructions

namespace Pdp11

/-! ## Scheduled events -/

/-- Service every subsystem whose completion is due; the clock ticks at most once a call. -/
def serviceClock (s : Cpu) : Cpu :=
  if s.dev.clkTickNs ≠ 0 ∧ s.dev.clkNextNs ≤ s.acct.timeNs then
    let s := clkTick s
    { s with dev.clkNextNs := s.dev.clkNextNs + s.dev.clkTickNs.setWidth 64 }
  else s

def serviceDueEvents (s : Cpu) : Cpu :=
  let s := serviceClock s
  let s := if s.dev.ttoBusy then consoleTxPoll s else s
  let s := if s.dev.rk.busy then rkPoll s else s
  let s := if s.dev.rp.busy then rpPoll s else s
  let s := if s.dev.tm.busy then tmPoll s else s
  if s.dev.rl.busy then rlPoll s else s

/-- `UINT64_MAX`: nothing is scheduled. -/
abbrev noEventNs : Time := 0xFFFFFFFFFFFFFFFF

/-- One line of the minimum: a deadline counts while its subsystem is active. -/
def earlier (active : Bool) (deadline t : Time) : Time :=
  if active ∧ deadline < t then deadline else t

/-- The earliest emulated time at which a scheduled subsystem event is due. -/
def nextEventNs (s : Cpu) : Time :=
  let t := earlier (s.dev.clkTickNs ≠ 0) s.dev.clkNextNs noEventNs
  let t := earlier s.dev.ttoBusy s.dev.ttoDoneNs t
  let t := earlier s.dev.rk.busy s.dev.rk.doneNs t
  let t := earlier s.dev.rp.busy s.dev.rp.doneNs t
  let t := earlier s.dev.tm.busy s.dev.tm.doneNs t
  earlier s.dev.rl.busy s.dev.rl.doneNs t

/-- A waiting processor jumps to the earliest scheduled event, if there is one. -/
def idleSkip (s : Cpu) : Cpu :=
  let next := nextEventNs s
  if next ≠ noEventNs then
    serviceDueEvents (if s.acct.timeNs < next then { s with acct.timeNs := next } else s)
  else s

/-! ## The dispatches at the top of the step -/

/-- A trap or interrupt due before the next instruction. -/
inductive Pending
  | trace
  | yellow
  | device (d : IntId)
  | pirq
  deriving DecidableEq, Repr

/-- Program requests above the processor priority. -/
def pendingPirq (s : Cpu) : Option Pending :=
  if (priority s.regs.psw).toNat < highestPirLevel s.dev.pirq then some .pirq else none

/-- Traps outrank interrupts; a device request wins a tie with a program request. -/
def pendingDispatch (s : Cpu) : Option Pending :=
  if s.ctl.tracePending then some .trace
  else if s.ctl.stackYellowPending then some .yellow
  else
    match highestInt s.dev.intReq with
    | (some d, level) =>
      if (priority s.regs.psw).toNat < level ∧ highestPirLevel s.dev.pirq ≤ level then
        some (.device d)
      else pendingPirq s
    | (none, _) => pendingPirq s

def Pending.vec : Pending → Word
  | .trace => vecBpt
  | .yellow => vecBus
  | .device d => d.vec
  | .pirq => vecPirq

/-- What a dispatch changes before `do_trap`; a grant drops the device's request. -/
def acknowledge (p : Pending) (s : Cpu) : Cpu :=
  match p with
  | .trace => { s with ctl.tracePending := false }
  | .yellow => { s with ctl.stackYellowPending := false, ctl.servicingStackTrap := true }
  | .device d =>
    let keep : BitVec 32 := (~~~(1#16 <<< d.bit)).setWidth 32
    { s with ctl.waiting := false, dev.intReq := s.dev.intReq &&& keep }
  | .pirq => { s with ctl.waiting := false }

def countInstr (s : Cpu) : Cpu := { s with acct.instrCount := s.acct.instrCount + 1 }

/-- What a dispatch changes after `do_trap`; only interrupts are counted. -/
def dispatched (p : Pending) (s : Cpu) : Cpu :=
  match p with
  | .trace => s
  | .yellow => { s with ctl.servicingStackTrap := false }
  | .device _ | .pirq => countInstr s

def dispatchPending (p : Pending) : M Unit := do
  modifyCpu (acknowledge p)
  doTrap p.vec
  modifyCpu (dispatched p)

/-! ## One instruction -/

/-- Arm a trace trap to fire after this instruction if T is set going in. -/
def armTrace (s : Cpu) : Cpu :=
  if s.regs.psw &&& pswT ≠ 0 then { s with ctl.tracePending := true } else s

/-- Fresh per-instruction state. MMR1 and MMR2 are left alone while MMR0 holds a fault. -/
def beginInstr (s : Cpu) : Cpu :=
  let s := { s with ctl.abortDepth := 0, ctl.ccFrozen := false, acct.eisExtraNs := 0 }
  if s.cfg.hasMmu ∧ s.mmu.mmr0 &&& mmr0Freeze = 0 then
    { s with mmu.mmr1 := 0, mmu.mmr2 := s.regs.r regPc }
  else s

def execute (word : Word) : M Unit :=
  let top : BitVec 4 := word.extractLsb' 12 4
  if top = 0o01 then opMov word false
  else if top = 0o02 then opCmp word false
  else if top = 0o03 then opBit word false
  else if top = 0o04 then opBic word false
  else if top = 0o05 then opBis word false
  else if top = 0o06 then opAdd word
  else if top = 0o11 then opMov word true
  else if top = 0o12 then opCmp word true
  else if top = 0o13 then opBit word true
  else if top = 0o14 then opBic word true
  else if top = 0o15 then opBis word true
  else if top = 0o16 then opSub word
  else if top = 0o17 then orReserved (·.hasFpp) (opFp11 word)
  else decodeMisc word

/-- Base time of the executed word: branches and SOB depend on whether they were taken. -/
def instrNs (s : Cpu) (word : Word) : BitVec 32 :=
  if isBranch (highByte word) then if branchTaken s (highByte word) then 600 else 300
  else if word &&& 0o177000 = 0o077000 then if s.regs.r (regField word) ≠ 0 then 600 else 750
  else (instrTiming word).ns

def accountTime (word : Word) (s : Cpu) : Cpu :=
  let ns := instrNs s word + s.acct.eisExtraNs
  { s with acct.timeNs := s.acct.timeNs + ns.setWidth 64 }

def finishInstr (word : Word) (s : Cpu) : Cpu := serviceDueEvents (countInstr (accountTime word s))

def runInstr : M Unit := do
  modifyCpu beginInstr
  let word ← fetch
  execute word
  modifyCpu (finishInstr word)

/-- Run `act` after a `setjmp`: a fault enters the handler with the CPU as it stands. -/
def catchFault (act handler : M Unit) : M Unit := fun m =>
  match act m with
  | .ok a m => .ok a m
  | .error _ m => handler m

/-- The trap through the recorded vector. -/
def abortTrap : M Unit := do
  let s ← getCpu
  doTrap s.ctl.abortVec
  modifyCpu fun s => countInstr { s with ctl.servicingStackTrap := false }

/-- The return of `setjmp` after a fault. A trap that faults again returns here again, until
`abort_depth` passes 8 and the machine halts; nine entries are enough for that. -/
def abortHandler : ℕ → M Unit
  | 0 => pure ()
  | fuel + 1 => do
    modifyCpu fun s => { s with ctl.abortDepth := s.ctl.abortDepth + 1 }
    let s ← getCpu
    if 8 < s.ctl.abortDepth then modifyCpu fun s => { s with ctl.halted := true }
    else catchFault abortTrap (abortHandler fuel)

def stepInstr : M Unit := do
  modifyCpu armTrace
  emit .setjmp
  catchFault runInstr (abortHandler 9)

def step : M Unit := do
  let s ← getCpu
  if s.ctl.halted then pure ()
  else
    match pendingDispatch s with
    | some p => dispatchPending p
    | none => if s.ctl.waiting then modifyCpu idleSkip else stepInstr

/-- A call of the step as its caller sees it; `escaped` when a fault found no `setjmp` of this
call to return to. -/
structure StepResult where
  cpu : Cpu
  events : List Event
  escaped : Bool

def stepResult : EStateM.Result Unit Machine Unit → StepResult
  | .ok _ m => ⟨m.cpu, m.events, false⟩
  | .error _ m => ⟨m.cpu, m.events, true⟩

/-- `pdp11_cpu_step`. -/
def cpuStep (s : Cpu) : StepResult := stepResult (step ⟨s, []⟩)

/-- The CPU after `n` calls of the step. -/
def cpuRun (s : Cpu) : ℕ → Cpu
  | 0 => s
  | n + 1 => (cpuStep (cpuRun s n)).cpu

/-! ## Reset and creation -/

def resetRegs : RegFile :=
  { r := fun _ => 0, psw := 0, regfile := fun _ _ => 0, stackfile := fun _ => 0 }

/-- The 60 Hz line frequency. -/
abbrev clkPeriodNs : BitVec 32 := 1000000000 / 60

/-- Runtime state only: memory, attached media and the configuration are left alone. -/
def cpuReset (s : Cpu) : Cpu :=
  let rxAtt := s.dev.rx.disk.isSome
  let rxes : Byte := if rxAtt then 0o204 else 0
  { s with
    regs := resetRegs
    ctl.halted := false
    ctl.waiting := false
    ctl.tracePending := false
    ctl.stackYellowPending := false
    ctl.inTrapPush := false
    ctl.servicingStackTrap := false
    ctl.abortDepth := 0
    mmu := ⟨0, 0, 0, 0, fun _ => 0, fun _ => 0⟩
    sys := ⟨0, 0, 0, 0, 0, 0, 0, 0⟩
    fp := ⟨fun _ => 0, 0, 0, 0⟩
    dev.pirq := 0
    dev.intReq := 0
    dev.clkCsr := kw11lDone
    dev.clkTickNs := clkPeriodNs
    dev.clkNextNs := clkPeriodNs.setWidth 64
    dev.ttiCsr := 0
    dev.ttiBuf := 0
    dev.ttoCsr := dl11Done
    dev.ttoBuf := 0
    dev.ttoBusy := false
    dev.rk := { s.dev.rk with
      rkcs := 0o200, rker := 0, rkwc := 0, rkba := 0, rkda := 0, rkds := 0, busy := false }
    dev.rp := { s.dev.rp with
      cs1 := 0o200, wc := 0, ba := 0, cs2 := 0, bae := 0, da := 0, dc := 0, cc := 0, ds := 0
      er1 := 0, busy := false }
    dev.tm := { s.dev.tm with
      cmd := 0o200, sta := 0, bc := 0, ca := 0, db := 0, rdl := 0, busy := false }
    dev.rl := { s.dev.rl with
      rlcs := 0o200, rlba := 0, rlda := 0, rlmp := 0, rlbae := 0, trk := 0, busy := false }
    dev.rx := { s.dev.rx with
      rxes := rxes
      ecode := if rxAtt then 0 else 0o010
      rxcs := 0o040 ||| (if rxAtt then 0 else 0o100000)
      rxdb := rxes
      track := 0, sector := 0, state := .idle, bptr := 0, curTrack := 0 }
    dev.ubMap := fun _ => 0
    acct.instrCount := 0
    acct.timeNs := 0
    acct.cache := cacheReset }

/-- The all-zero state `calloc` returns, with the model's capabilities. -/
def cpuAlloc (model : Model) : Cpu :=
  let info := modelLookup model
  let stklr : Bool := model = .m1145 ∨ model = .m1160 ∨ model = .m1170
  { cfg :=
      { info with
        model := model
        hasExpt := model = .m1104 ∨ model = .m1105 ∨ model = .m1120
        hasStklr := stklr
        hasStklf := !stklr ∧ model ≠ .m1103
        memTop := if info.maxMem < 0o1000000 then info.maxMem else 0o1000000 }
    regs := resetRegs
    ctl := ⟨false, false, false, false, false, false, false, 0, 0⟩
    mmu := ⟨0, 0, 0, 0, fun _ => 0, fun _ => 0⟩
    sys := ⟨0, 0, 0, 0, 0, 0, 0, 0⟩
    fp := ⟨fun _ => 0, 0, 0, 0⟩
    dev :=
      { pirq := 0, intReq := 0, clkCsr := 0, clkTickNs := 0, clkNextNs := 0
        ttiCsr := 0, ttiBuf := 0, ttoCsr := 0, ttoBuf := 0, ttoBusy := false, ttoDoneNs := 0
        consoleOut := none
        rk := ⟨0, 0, 0, 0, 0, 0, none, 0, false, 0⟩
        rp := ⟨0, 0, 0, 0, 0, 0, 0, 0, 0, 0, none, 0, false, 0⟩
        tm := ⟨0, 0, 0, 0, 0, 0, none, 0, 0, false, false, 0⟩
        rl := ⟨0, 0, 0, 0, 0, 0, none, 0, false, 0⟩
        rx := ⟨0, 0, 0, 0, 0, 0, .idle, 0, 0, fun _ => 0, none, 0⟩
        ubMap := fun _ => 0 }
    acct := ⟨0, 0, 0, ⟨fun _ _ => 0, fun _ _ => false, fun _ => 0, 0⟩⟩
    mem := fun _ => 0 }

def cpuCreateModel (model : Model) : Cpu := cpuReset (cpuAlloc model)

def cpuCreate : Cpu := cpuCreateModel .m1170

end Pdp11
