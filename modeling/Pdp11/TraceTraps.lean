import Pdp11.NestedFaults

namespace Pdp11

open FaultState

/-! The T bit single-steps a program. -/

/-! ## The flags after an instruction -/

theorem quiet_of_due {s : Cpu} (h : pendingDispatch s = none) :
    s.ctl.tracePending = false ∧ s.ctl.stackYellowPending = false := by
  unfold pendingDispatch at h
  cases ht : s.ctl.tracePending with
  | true =>
    rw [ht] at h
    cases h
  | false =>
    cases hy : s.ctl.stackYellowPending with
    | true =>
      rw [ht, hy] at h
      cases h
    | false => exact ⟨rfl, rfl⟩

/-- What is dispatched is pending, or it is an interrupt. -/
theorem due_cases {s : Cpu} {p : Pending} (h : pendingDispatch s = some p) :
    (p = .trace ∧ s.ctl.tracePending = true) ∨ (p = .yellow ∧ s.ctl.stackYellowPending = true) ∨
      (∃ d, p = .device d) ∨ p = .pirq := by
  cases ht : s.ctl.tracePending with
  | true =>
    unfold pendingDispatch at h
    rw [ht] at h
    cases h
    exact .inl ⟨rfl, rfl⟩
  | false =>
    cases hy : s.ctl.stackYellowPending with
    | true =>
      unfold pendingDispatch at h
      rw [ht, hy] at h
      cases h
      exact .inr (.inl ⟨rfl, rfl⟩)
    | false =>
      obtain ⟨-, hp⟩ | ⟨-, -, d, -, hp⟩ | ⟨-, -, hp⟩ := pendingDispatch_eq ht hy <;>
        rw [hp] at h <;> cases h
      · exact .inr (.inr (.inl ⟨d, rfl⟩))
      · exact .inr (.inr (.inr rfl))

theorem traced_of_due {s : Cpu} (h : pendingDispatch s = some .trace) :
    s.ctl.tracePending = true := by
  obtain ⟨-, ht⟩ | ⟨hp, -⟩ | ⟨d, hp⟩ | hp := due_cases h
  · exact ht
  · cases hp
  · cases hp
  · cases hp

/-- The fault handler changes neither the wait nor the trace trap. -/
theorem abortHandler_kept (fuel : ℕ) (m : Machine) :
    (final (abortHandler fuel m)).cpu.ctl.waiting = m.cpu.ctl.waiting ∧
      (final (abortHandler fuel m)).cpu.ctl.tracePending = m.cpu.ctl.tracePending := by
  have hstep (fuel : ℕ) (m : Machine) : abortHandler (fuel + 1) m =
      (if 8 < m.cpu.ctl.abortDepth + 1 then modifyCpu fun s => { s with ctl.halted := true }
      else catchFault abortTrap (abortHandler fuel)) (deeper m) := rfl
  have hact (m : Machine) : abortTrap (deeper m) = faultAttempt m := rfl
  induction fuel generalizing m with
  | zero => exact ⟨rfl, rfl⟩
  | succ fuel ih =>
    rw [hstep]
    split
    · exact ⟨rfl, rfl⟩
    · rw [catchFault, hact]
      cases ht : faultAttempt m with
      | ok a m1 =>
        obtain ⟨m2, htrap, rfl⟩ := faultAttempt_ok ht
        have hk := (keepsFlags_doTrap m.cpu.ctl.abortVec).of_ok htrap
        exact ⟨hk.waiting, hk.trace⟩
      | error e m1 =>
        obtain ⟨-, hwaiting, htrace, -⟩ := faultAttempt_flags ht
        obtain ⟨hw, htr⟩ := ih m1
        exact ⟨hw.trans hwaiting, htr.trans htrace⟩

section
variable {s : Cpu} {word : Word} {m m' : Machine}

/-- The trace trap an instruction begins with. -/
theorem Executed.armed (h : Executed s word m m') :
    m.cpu.ctl.tracePending = if s.regs.psw &&& pswT ≠ 0 then true else false := by
  obtain ⟨htrace, -⟩ := quiet_of_due h.due
  obtain ⟨-, -, hbegin, -⟩ := begin_flags s
  rw [(keepsFlags_fetch.of_ok h.fetched).trace, hbegin, htrace]

/-- The flags a completed instruction leaves, trap and wait among them. -/
theorem Executed.flags (h : Executed s word m m') : FlagsAfter word m.cpu (Pdp11.cpuStep s).cpu := by
  have hf := execute_ok h.executed
  obtain ⟨hregs, hctl⟩ := finishInstr_kept word m'.cpu
  rw [h.cpuStep]
  constructor <;> rw [hctl]
  · exact hf.halted
  · exact hf.waiting
  · rw [hregs]
    exact hf.armed
  · rw [hregs]
    exact hf.trace
  · exact hf.depth

/-- A completed instruction other than HALT leaves the processor running. -/
theorem Executed.runs_on (h : Executed s word m m') (h0 : word ≠ 0) :
    (Pdp11.cpuStep s).cpu.ctl.halted = false := by
  obtain ⟨hbegin, -, -, -⟩ := begin_flags s
  rw [h.flags.halted h0, (keepsFlags_fetch.of_ok h.fetched).halted, hbegin, h.running]

theorem Executed.awake (h : Executed s word m m') (h1 : word ≠ 1) :
    (Pdp11.cpuStep s).cpu.ctl.waiting = false := by
  obtain ⟨-, hbegin, -, -⟩ := begin_flags s
  rw [h.flags.waiting h1, (keepsFlags_fetch.of_ok h.fetched).waiting, hbegin, h.active]

/-- An instruction that faults leaves the trace trap it began with. -/
theorem fault_flags (hrun : s.ctl.halted = false) (hdue : pendingDispatch s = none)
    (hactive : s.ctl.waiting = false) (hx : fetchExecute (instrStart s) = .error () m) :
    (cpuStep s).cpu.ctl.waiting = false ∧
      (cpuStep s).cpu.ctl.tracePending = if s.regs.psw &&& pswT ≠ 0 then true else false := by
  obtain ⟨htrace, -⟩ := quiet_of_due hdue
  obtain ⟨-, hwaiting, harmed, -⟩ := begin_flags s
  have hk := fetchExecute_error hx
  have hhandler := abortHandler_kept 9 m
  have hfinal (r : EStateM.Result Unit Machine Unit) : (stepResult r).cpu = (final r).cpu := by
    cases r <;> rfl
  rw [cpuStep_instr hrun hdue hactive, stepInstr_abort hx, hfinal, hhandler.1, hhandler.2]
  exact ⟨hk.waiting.trans (hwaiting.trans hactive), by rw [hk.trace, harmed, htrace]⟩

end

/-! ## The trace trap -/

/-- The next step is the trace trap: no instruction runs in it, it pushes `psw` and `pc` as they are,
and on a stack in memory they are found there. -/
structure TracesNext (s : Cpu) (psw pc : Word) : Prop where
  step : cpuStep s = stepResult
    ((trapEntry vecBpt >>= trapPush psw pc) ⟨{ s with ctl.tracePending := false }, []⟩)
  vectors : vectorsOf (cpuStep s).events = [vecBpt]
  taken : (cpuStep s).escaped = false → TakenFrom vecBpt ⟨{ s with ctl.tracePending := false }, []⟩
    ⟨(cpuStep s).cpu, (cpuStep s).events⟩
  pushed : (cpuStep s).escaped = false → ∀ newPc entry,
    trapEntry vecBpt ⟨{ s with ctl.tracePending := false }, []⟩ = .ok newPc entry →
    StackRoom entry.cpu → (cpuStep s).cpu.regs.r regSp = pushAddr entry.cpu - 2 ∧
      memReadWord (cpuStep s).cpu.mem
        (refPhysical entry.cpu (pushAddr entry.cpu) entry.cpu.mode true) = psw ∧
      memReadWord (cpuStep s).cpu.mem
        (refPhysical entry.cpu (pushAddr entry.cpu - 2) entry.cpu.mode true) = pc

theorem tracesNext {s : Cpu} (hrun : s.ctl.halted = false) (htrace : s.ctl.tracePending = true) :
    TracesNext s s.regs.psw (s.regs.r regPc) := by
  let m : Machine := ⟨{ s with ctl.tracePending := false }, []⟩
  have hdue : pendingDispatch s = some .trace := by
    unfold pendingDispatch
    rw [if_pos htrace]
  have hdispatch : dispatchPending .trace ⟨s, []⟩ = doTrap vecBpt m := by
    have hbind : dispatchPending .trace ⟨s, []⟩ =
        (doTrap vecBpt >>= fun _ => modifyCpu (dispatched .trace)) m := rfl
    rw [hbind, bind_apply]
    cases doTrap vecBpt m <;> rfl
  have hstep : cpuStep s = stepResult (doTrap vecBpt m) := by
    rw [cpuStep_dispatch hrun hdue, hdispatch]
  -- a trap that does not escape has returned
  have hreturn (h : (cpuStep s).escaped = false) :
      doTrap vecBpt m = .ok () ⟨(cpuStep s).cpu, (cpuStep s).events⟩ := by
    rw [hstep] at h ⊢
    cases hx : doTrap vecBpt m with
    | ok u m' => rfl
    | error e m' =>
      rw [hx] at h
      cases h
  refine ⟨hstep.trans (congrArg stepResult (doTrap_split vecBpt m)), ?_, ?_, ?_⟩
  · have hu := (doTrap_undisturbed vecBpt m).vectors
    have hfinal (r : EStateM.Result Unit Machine Unit) :
        (stepResult r).events = (final r).events := by
      cases r <;> rfl
    rw [hstep, hfinal, hu]
    rfl
  · exact fun h => doTrap_takenFrom (hreturn h)
  · intro h newPc entry hentry hroom
    obtain ⟨-, -, -, hexempt⟩ := trapEntry_kept hentry
    have htrap := hreturn h
    rw [doTrap_split, bind_ok hentry] at htrap
    have hframe := trapPush_frame hexempt hroom htrap
    obtain ⟨hpsw, hpc⟩ := readBack entry.cpu.mem hroom.distinct s.regs.psw (s.regs.r regPc)
    refine ⟨hframe.sp, ?_, ?_⟩ <;> rw [hframe.mem]
    · exact hpsw
    · exact hpc

/-! ## Return instructions -/

/-- A fetch moves PC; a warning of the stack stays as it is. -/
theorem fetch_yellow {word : Word} {m m' : Machine} (h : fetch m = .ok word m') :
    m'.cpu.ctl.stackYellowPending = m.cpu.ctl.stackYellowPending := by
  have hfetch : fetch m = (cpuReadWordGen (m.cpu.regs.r regPc) m.cpu.mode false >>= fun word => do
      addReg regPc 2
      pure word : M Word) m := rfl
  rw [hfetch] at h
  obtain ⟨v, m1, hread, h⟩ := bind_eq_ok.1 h
  cases h
  have hk := (read_kept (read_cpuReadWordGen _ _ _)).of_ok hread
  show m1.cpu.ctl.stackYellowPending = _
  rw [hk.rest]

theorem popWord_ok {v : Word} {m m' : Machine} (h : popWord m = .ok v m') :
    ∃ m₁, ReadKept m.cpu m₁.cpu ∧ m' = withReg regSp (m₁.cpu.regs.r regSp + 2) m₁ := by
  rw [popWord_apply] at h
  cases hread : cpuReadWordGen (m.cpu.regs.r regSp) m.cpu.mode true m with
  | ok w m1 =>
    rw [hread] at h
    cases h
    exact ⟨m1, (read_kept (read_cpuReadWordGen _ _ _)).of_ok hread, rfl⟩
  | error e m1 =>
    rw [hread] at h
    cases h

/-- RTI and RTT load the words they pop. -/
theorem rtiLoad_ok {m m' : Machine} (h : rtiLoad m = .ok () m') :
    ∃ pc psw m₁ m₂, popWord m = .ok pc m₁ ∧ popWord (withReg regPc pc m₁) = .ok psw m₂ ∧
      m'.cpu.regs.psw = psw &&& m.cpu.cfg.pswMask ∧ m'.cpu.regs.r regPc = pc ∧
      m'.cpu.ctl.stackYellowPending = m.cpu.ctl.stackYellowPending := by
  obtain ⟨pc, m1, hpop1, h⟩ := bind_eq_ok.1 h
  obtain ⟨⟨⟩, m2, hset, h⟩ := bind_eq_ok.1 h
  cases hset
  obtain ⟨psw, m3, hpop2, h⟩ := bind_eq_ok.1 h
  cases h
  obtain ⟨ma, hka, rfl⟩ := popWord_ok hpop1
  obtain ⟨mb, hkb, rfl⟩ := popWord_ok hpop2
  have hne : regPc ≠ regSp := by decide
  have hpc : mb.cpu.regs.r regPc = pc := by
    rw [hkb.rest]
    exact Function.update_self regPc pc ma.cpu.regs.r
  refine ⟨pc, psw, _, _, hpop1, hpop2, ?_, ?_, ?_⟩
  · show psw &&& mb.cpu.cfg.pswMask = _
    rw [hkb.rest]
    show psw &&& ma.cpu.cfg.pswMask = _
    rw [hka.rest]
  · rw [putPsw_pc]
    exact (Function.update_of_ne hne (mb.cpu.regs.r regSp + 2) mb.cpu.regs.r).trans hpc
  · show (putPsw (withReg regSp (mb.cpu.regs.r regSp + 2) mb).cpu psw).ctl.stackYellowPending = _
    rw [putPsw_eq]
    show mb.cpu.ctl.stackYellowPending = _
    rw [hkb.rest]
    show ma.cpu.ctl.stackYellowPending = _
    rw [hka.rest]

/-- The words a return instruction restores. -/
structure Restores (s : Cpu) (m : Machine) (psw pc : Word) : Prop where
  popped : ∃ psw' m₁ m₂, popWord m = .ok pc m₁ ∧ popWord (withReg regPc pc m₁) = .ok psw' m₂ ∧
    psw = psw' &&& s.cfg.pswMask
  psw : (cpuStep s).cpu.regs.psw = psw
  pc : (cpuStep s).cpu.regs.r regPc = pc

theorem Executed.restores {s : Cpu} {word : Word} {isRtt : Bool} {m m' : Machine}
    (h : Executed s word m m') (hrti : opRti isRtt m = .ok () m') :
    ∃ psw pc, Restores s m psw pc ∧ m'.cpu.ctl.stackYellowPending = false := by
  obtain ⟨m1, hload, -, hm'⟩ := opRti_ok _ hrti
  obtain ⟨pc, psw, ma, mb, hpop1, hpop2, hpsw, hpc, hyellow⟩ := rtiLoad_ok hload
  obtain ⟨-, -, hcfg⟩ := h.start
  obtain ⟨-, hquiet⟩ := quiet_of_due h.due
  have hregs : (Pdp11.cpuStep s).cpu.regs = m1.cpu.regs := by
    rw [h.regs, hm', rtiTrace_rest]
  have hbegin : (beginInstr (armTrace s)).ctl.stackYellowPending = s.ctl.stackYellowPending := by
    rw [beginInstr_ctl]
    unfold armTrace
    split <;> rfl
  refine ⟨psw &&& m.cpu.cfg.pswMask, pc, ⟨⟨psw, ma, mb, hpop1, hpop2, by rw [hcfg]⟩, ?_, ?_⟩, ?_⟩
  · rw [hregs, hpsw]
  · rw [hregs, hpc]
  · have htrace : (rtiTrace isRtt m1.cpu).ctl.stackYellowPending =
        m1.cpu.ctl.stackYellowPending := by
      unfold rtiTrace
      split <;> rfl
    rw [hm', htrace, hyellow, fetch_yellow h.fetched, hbegin, hquiet]

/-! ## Single steps -/

/-- No device and no program request exceeds the processor priority. -/
def NoGrant (s : Cpu) : Prop :=
  max (deviceLevel s.dev) (programLevel s.dev.pirq) ≤ (priority s.regs.psw).toNat

theorem NoGrant.due {s : Cpu} (h : NoGrant s) (htrace : s.ctl.tracePending = false)
    (hyellow : s.ctl.stackYellowPending = false) : pendingDispatch s = none := by
  unfold NoGrant at h
  obtain ⟨-, hp⟩ | ⟨hlt, -, -⟩ | ⟨hlt, -, -⟩ := pendingDispatch_eq htrace hyellow
  · exact hp
  · omega
  · omega

/-- The next step executes one instruction or dispatches its fault, and the step after it is the
trace trap, unless the instruction was HALT or no trap of the fault completed. -/
def TracesAfterOne (s : Cpu) : Prop :=
  (∃ word m m', Executed s word m m' ∧ (word ≠ 0 →
    TracesNext (cpuStep s).cpu (cpuStep s).cpu.regs.psw ((cpuStep s).cpu.regs.r regPc))) ∨
  ∃ m, fetchExecute (instrStart s) = .error () m ∧ FaultHandled m (cpuStep s) ∧
    ((¬∃ m₈, Retry.Failed faultAttempt 8 m m₈) →
      TracesNext (cpuStep s).cpu (cpuStep s).cpu.regs.psw ((cpuStep s).cpu.regs.r regPc))

theorem tracesAfterOne {s : Cpu} (hrun : s.ctl.halted = false) (hdue : pendingDispatch s = none)
    (hactive : s.ctl.waiting = false) (ht : s.regs.psw &&& pswT ≠ 0) : TracesAfterOne s := by
  cases hx : fetchExecute (instrStart s) with
  | ok word m' =>
    obtain ⟨m, hfetch, hexecute⟩ := fetchExecute_ok hx
    have h : Executed s word m m' := ⟨hrun, hdue, hactive, hfetch, hexecute⟩
    refine .inl ⟨word, m, m', h, fun h0 => tracesNext (h.runs_on h0) ?_⟩
    have harmed : m.cpu.ctl.tracePending = true := by rw [h.armed, if_pos ht]
    -- the trap stays armed, or RTI arms it again
    by_cases hrti : word = 2 ∧ (cpuStep s).cpu.regs.psw &&& pswT ≠ 0
    · exact h.flags.armed hrti.1 hrti.2
    · rw [h.flags.trace hrti, harmed]
  | error e m =>
    have hkept := fault_flags hrun hdue hactive hx
    have hhandled : FaultHandled m (cpuStep s) := by
      have hflags := fetchExecute_error hx
      obtain ⟨hhalted, -, -, hdepth⟩ := begin_flags s
      rw [cpuStep_instr hrun hdue hactive, stepInstr_abort hx]
      exact abortHandler_handled (hflags.halted.trans (hhalted.trans hrun))
        (hflags.depth.trans hdepth)
    refine .inr ⟨m, hx, hhandled, fun hsome => tracesNext ?_ ?_⟩
    · exact Bool.eq_false_iff.2 (mt hhandled.halts.1 hsome)
    · rw [hkept.2, if_pos ht]

/-- The T bit single-steps: after RTI restores it the next step traces the restored PC and PSW; after
RTT restores it one instruction goes first; with T clear no trap follows an instruction that is not
such an RTI. -/
theorem trace_single_steps (s : Cpu) :
    (∀ m m', Executed s 2 m m' → (cpuStep s).cpu.regs.psw &&& pswT ≠ 0 →
      ∃ psw pc, Restores s m psw pc ∧ TracesNext (cpuStep s).cpu psw pc) ∧
    (∀ m m', Executed s 6 m m' → s.cfg.hasRtt = true → s.regs.psw &&& pswT = 0 →
      (cpuStep s).cpu.regs.psw &&& pswT ≠ 0 → NoGrant (cpuStep s).cpu →
      TracesAfterOne (cpuStep s).cpu) ∧
    (s.ctl.halted = false → pendingDispatch s = none → s.ctl.waiting = false →
      s.regs.psw &&& pswT = 0 →
      (¬∃ m m', Executed s 2 m m' ∧ (cpuStep s).cpu.regs.psw &&& pswT ≠ 0) →
      pendingDispatch (cpuStep s).cpu ≠ some .trace) := by
  refine ⟨?_, ?_, ?_⟩
  · -- RTI arms the trace itself
    intro m m' h ht
    have hrti : opRti false m = .ok () m' := h.executed
    obtain ⟨psw, pc, hrestores, -⟩ := h.restores hrti
    have htraces := tracesNext (h.runs_on (by decide)) (h.flags.armed rfl ht)
    rw [hrestores.psw, hrestores.pc] at htraces
    exact ⟨psw, pc, hrestores, htraces⟩
  · -- after RTT the next instruction arms it
    intro m m' h hrtt hclear ht hnone
    have hrti : opRti true m = .ok () m' := by
      obtain ⟨-, -, hcfg⟩ := h.start
      have hexecute := h.executed
      rw [execute_rtt, hcfg, if_pos hrtt] at hexecute
      exact hexecute
    obtain ⟨psw, pc, -, hyellow⟩ := h.restores hrti
    have htrace : (cpuStep s).cpu.ctl.tracePending = false := by
      rw [h.flags.trace fun hc => absurd hc.1 (by decide), h.armed, if_neg (not_not.2 hclear)]
    have hquiet : (cpuStep s).cpu.ctl.stackYellowPending = false := by
      rw [h.cpuStep, (finishInstr_kept 6 m'.cpu).2, hyellow]
    exact tracesAfterOne (h.runs_on (by decide)) (hnone.due htrace hquiet) (h.awake (by decide)) ht
  · intro hrun hdue hactive hclear hno hp
    have htrace : (cpuStep s).cpu.ctl.tracePending = false := by
      cases hx : fetchExecute (instrStart s) with
      | ok word m' =>
        obtain ⟨m, hfetch, hexecute⟩ := fetchExecute_ok hx
        have h : Executed s word m m' := ⟨hrun, hdue, hactive, hfetch, hexecute⟩
        rw [h.flags.trace, h.armed, if_neg (not_not.2 hclear)]
        rintro ⟨rfl, ht⟩
        exact hno ⟨m, m', h, ht⟩
      | error e m =>
        rw [(fault_flags hrun hdue hactive hx).2, if_neg (not_not.2 hclear)]
    rw [traced_of_due hp] at htrace
    cases htrace

/-- An RTI at 0 with PC 02000 and a traced PSW on its stack. -/
def tracing : Cpu :=
  { cpuCreate with
    regs := { resetRegs with r := fun i => if i = regSp then 0o1000 else 0 }
    mem := fun i => if i = 0 then 2 else if i = 0o400 then 0o2000 else if i = 0o401 then 0o20 else 0 }

theorem tracing_next : TracesNext (cpuStep tracing).cpu 0o20 0o2000 := by
  let begun : Machine := ⟨beginInstr (armTrace tracing), [.setjmp]⟩
  have hfetch := eq_ok_of_value (r := fetch begun) (a := 2) (by decide +kernel)
  obtain ⟨⟨⟩, hexecute⟩ := eq_ok_final (r := execute 2 (final (fetch begun))) (by decide +kernel)
  obtain ⟨hrti, -, -⟩ := trace_single_steps tracing
  obtain ⟨psw, pc, hrestores, htraces⟩ :=
    hrti _ _ ⟨rfl, rfl, rfl, hfetch, hexecute⟩ (by decide +kernel)
  have hpsw : (cpuStep tracing).cpu.regs.psw = 0o20 := by decide +kernel
  have hpc : (cpuStep tracing).cpu.regs.r regPc = 0o2000 := by decide +kernel
  rw [hrestores.psw] at hpsw
  rw [hrestores.pc] at hpc
  rwa [hpsw, hpc] at htraces

end Pdp11
