import Pdp11.TraceTraps

namespace Pdp11

open FaultState GuardedRun

/-! Dispatches end the wait, unless WAIT is executed under the T bit. -/

/-- A waiting processor has neither a trace trap nor a stack warning pending. -/
def WaitQuiet (s : Cpu) : Prop :=
  s.ctl.waiting = true → s.ctl.tracePending = false ∧ s.ctl.stackYellowPending = false

theorem WaitQuiet.of_awake {s : Cpu} (h : s.ctl.waiting = false) : WaitQuiet s :=
  fun hw => absurd (hw.symm.trans h) (by decide)

theorem WaitQuiet.of_ctl {s t : Cpu} (hw : t.ctl.waiting = s.ctl.waiting)
    (ht : t.ctl.tracePending = s.ctl.tracePending)
    (hy : t.ctl.stackYellowPending = s.ctl.stackYellowPending) (h : WaitQuiet s) : WaitQuiet t := by
  unfold WaitQuiet
  rw [hw, ht, hy]
  exact h

/-- A step that executes WAIT with T set. -/
def TracedWait (op : BusOp) (s : Cpu) : Prop :=
  op = .step ∧ s.regs.psw &&& pswT ≠ 0 ∧ ∃ m m', Executed s 1 m m'

/-! ## One step -/

section
variable {s : Cpu}

theorem stepResult_cpu (r : EStateM.Result Unit Machine Unit) :
    (stepResult r).cpu = (final r).cpu := by
  cases r <;> rfl

/-- A dispatch keeps the flags of the state it starts from. -/
theorem dispatch_flags (hrun : s.ctl.halted = false) {p : Pending} (hp : pendingDispatch s = some p) :
    FlagsKept (acknowledge p s) (cpuStep s).cpu := by
  have hdispatched : KeepsFlags (modifyCpu (dispatched p)) :=
    keepsFlags_modify fun t => by cases p <;> exact ⟨rfl, rfl, rfl, rfl⟩
  have hkept := (keepsFlags_doTrap p.vec).bind fun _ => hdispatched
  have hbind : dispatchPending p ⟨s, []⟩ =
      (doTrap p.vec >>= fun _ => modifyCpu (dispatched p)) ⟨acknowledge p s, []⟩ := rfl
  rw [cpuStep_dispatch hrun hp, stepResult_cpu, hbind]
  exact hkept ⟨acknowledge p s, []⟩

theorem dispatch_awake (hrun : s.ctl.halted = false) {p : Pending} (hp : pendingDispatch s = some p)
    (h : WaitQuiet s) : (cpuStep s).cpu.ctl.waiting = false := by
  have hawake (hdue : s.ctl.tracePending = true ∨ s.ctl.stackYellowPending = true) :
      s.ctl.waiting = false := by
    cases hw : s.ctl.waiting with
    | false => rfl
    | true =>
      obtain ⟨ht, hy⟩ := h hw
      rw [ht, hy] at hdue
      exact absurd hdue (by decide)
  have hack : (acknowledge p s).ctl.waiting = false := by
    obtain ⟨rfl, ht⟩ | ⟨rfl, hy⟩ | ⟨d, rfl⟩ | rfl := due_cases hp
    · exact hawake (.inl ht)
    · exact hawake (.inr hy)
    · rfl
    · rfl
  exact (dispatch_flags hrun hp).waiting.trans hack

theorem idleSkip_ctl (s : Cpu) : (idleSkip s).ctl = s.ctl := by
  unfold idleSkip
  dsimp only
  split
  · rw [serviceDueEvents_rest]
    split <;> rfl
  · rfl

/-- WAIT dispatches nothing, and leaves the trap its T bit armed. -/
theorem wait_executed {m m' : Machine} (h : Executed s 1 m m') :
    vectorsOf (cpuStep s).events = [] ∧
      (cpuStep s).cpu.ctl.stackYellowPending = false ∧
      (cpuStep s).cpu.ctl.tracePending = if s.regs.psw &&& pswT ≠ 0 then true else false := by
  obtain ⟨-, hquiet⟩ := quiet_of_due h.due
  have hexecute := h.executed
  rw [execute_wait] at hexecute
  cases hexecute
  have hfetch : vectorsOf m.events = vectorsOf [.setjmp] :=
    ((Undisturbed.basic basic_fetch).of_ok h.fetched).vectors
  refine ⟨?_, ?_, ?_⟩
  · rw [h.step]
    exact hfetch
  · rw [h.cpuStep, (finishInstr_kept _ _).2]
    show m.cpu.ctl.stackYellowPending = false
    have hbegin : (beginInstr (armTrace s)).ctl.stackYellowPending = s.ctl.stackYellowPending := by
      rw [beginInstr_ctl]
      unfold armTrace
      split <;> rfl
    rw [fetch_yellow h.fetched, hbegin, hquiet]
  · rw [h.flags.trace fun hc => absurd hc.1 (by decide), h.armed]

/-- A step from a quiet state ends the wait if it dispatches, and leaves a quiet state. -/
theorem step_waits (h : WaitQuiet s) :
    (vectorsOf (cpuStep s).events ≠ [] → (cpuStep s).cpu.ctl.waiting = false) ∧
      (¬TracedWait .step s → WaitQuiet (cpuStep s).cpu) := by
  cases hrun : s.ctl.halted with
  | true =>
    rw [cpuStep_halted hrun]
    exact ⟨fun hv => absurd rfl hv, fun _ => h⟩
  | false =>
    cases hdue : pendingDispatch s with
    | some p =>
      have hawake := dispatch_awake hrun hdue h
      exact ⟨fun _ => hawake, fun _ => .of_awake hawake⟩
    | none =>
      cases hwait : s.ctl.waiting with
      | true =>
        rw [cpuStep_idle hrun hdue hwait]
        refine ⟨fun hv => absurd rfl hv, fun _ => h.of_ctl ?_ ?_ ?_⟩ <;> rw [idleSkip_ctl]
      | false =>
        cases hx : fetchExecute (instrStart s) with
        | error e m =>
          obtain ⟨hawake, -⟩ := fault_flags hrun hdue hwait hx
          exact ⟨fun _ => hawake, fun _ => .of_awake hawake⟩
        | ok word m' =>
          obtain ⟨m, hfetch, hexecute⟩ := fetchExecute_ok hx
          have hex : Executed s word m m' := ⟨hrun, hdue, hwait, hfetch, hexecute⟩
          by_cases h1 : word = 1
          · subst h1
            obtain ⟨hvectors, hyellow, htrace⟩ := wait_executed hex
            refine ⟨fun hv => absurd hvectors hv, fun hguard _ => ⟨?_, hyellow⟩⟩
            rw [htrace, if_neg fun ht => hguard ⟨rfl, ht, m, m', hex⟩]
          · have hawake := hex.awake h1
            exact ⟨fun _ => hawake, fun _ => .of_awake hawake⟩

end

/-! ## Runs -/

/-- Nothing but WAIT under T lets a waiting processor have a trap pending. -/
theorem BusOp.waitQuiet (op : BusOp) {s : Cpu} (hguard : ¬TracedWait op s) (h : WaitQuiet s) :
    WaitQuiet (op.apply s) := by
  have hctl {t : Cpu} (ht : t.ctl = s.ctl) : WaitQuiet t := by
    refine h.of_ctl ?_ ?_ ?_ <;> rw [ht]
  have hr := DeviceStep.refl s
  have hdevice {t : Cpu} (hd : DeviceStep s t) : WaitQuiet t := hctl (by rw [hd.rest])
  cases op with
  | step => exact (step_waits h).2 hguard
  | reset => exact .of_awake rfl
  | init => exact hctl rfl
  | read a =>
    show WaitQuiet (((ioReadReg s a).map Prod.snd).getD s)
    cases hp : ioReadReg s a with
    | none => exact h
    | some p => exact hdevice (ioReadReg_step s a p hp).1
  | write a value =>
    show WaitQuiet ((ioWriteReg s a value).getD s)
    cases ht : ioWriteReg s a value with
    | none => exact h
    | some t =>
      have hstep := (ioWriteReg_step s a value t ht).1.ctl
      refine h.of_ctl ?_ ?_ ?_ <;> rw [Option.getD_some, hstep]
  | tick => exact hdevice (clkTick_step hr)
  | input ch => exact hdevice (consoleInput_step hr ch)
  | txPoll => exact hdevice (consoleTxPoll_step hr)
  | rkPoll => exact hdevice (rkPoll_step hr)
  | rpPoll => exact hdevice (rpPoll_step hr)
  | tmPoll => exact hdevice (tmPoll_step hr)
  | rlPoll => exact hdevice (rlPoll_step hr)
  | acknowledge d => exact .of_awake rfl
  | setHalted halted => exact h.of_ctl rfl rfl rfl
  | _ => exact hctl rfl

theorem waitQuiet_of_run {model : Model} {s : Cpu}
    (h : BusRun (fun op s => ¬TracedWait op s) (cpuCreateModel model) s) : WaitQuiet s :=
  Run.invariant (fun op _ hguard hs => op.waitQuiet hguard hs) h (.of_awake rfl)

/-- In every run in which no step executes WAIT with T set, a step that dispatches a trap, a fault or
an interrupt ends the wait, and the next step executes an instruction unless a trap or an interrupt
is due. -/
theorem dispatch_ends_wait {model : Model} {s : Cpu}
    (h : BusRun (fun op s => ¬TracedWait op s) (cpuCreateModel model) s)
    (hdispatch : vectorsOf (cpuStep s).events ≠ []) :
    (cpuStep s).cpu.ctl.waiting = false ∧
      ((cpuStep s).cpu.ctl.halted = false → pendingDispatch (cpuStep s).cpu = none →
        cpuStep (cpuStep s).cpu = stepResult (stepInstr ⟨(cpuStep s).cpu, []⟩)) := by
  have hawake := (step_waits (waitQuiet_of_run h)).1 hdispatch
  exact ⟨hawake, fun hrun hdue => cpuStep_instr hrun hdue hawake⟩

/-- An 11/70 at a BPT. -/
def trapped : Cpu :=
  (BusOp.load (fun i => if i = regSp then 0o1000 else 0) fun _ => 3).apply cpuCreate

theorem trapped_awake : (cpuStep trapped).cpu.ctl.waiting = false :=
  (@dispatch_ends_wait .m1170 trapped
    ((BusRun.start _ cpuCreate).next (.load (fun i => if i = regSp then 0o1000 else 0) fun _ => 3)
      fun h => nomatch h.1) (by decide +kernel : vectorsOf (cpuStep trapped).events ≠ [])).1

/-- After WAIT under T the trace trap is dispatched, and the processor waits on. -/
theorem tracedWait_waits {s : Cpu} (h : TracedWait .step s) :
    vectorsOf (cpuStep (cpuStep s).cpu).events = [vecBpt] ∧
      (cpuStep (cpuStep s).cpu).cpu.ctl.waiting = true := by
  obtain ⟨-, ht, m, m', hex⟩ := h
  obtain ⟨-, -, htrace⟩ := wait_executed hex
  rw [if_pos ht] at htrace
  have hrun := hex.runs_on (by decide)
  have hwaiting : (cpuStep s).cpu.ctl.waiting = true := by
    have hexecute := hex.executed
    rw [execute_wait] at hexecute
    cases hexecute
    rw [hex.cpuStep, (finishInstr_kept _ _).2]
  have hdue : pendingDispatch (cpuStep s).cpu = some .trace := by
    unfold pendingDispatch
    rw [if_pos htrace]
  exact ⟨(tracesNext hrun htrace).vectors, (dispatch_flags hrun hdue).waiting.trans hwaiting⟩

/-- An 11/05 at a WAIT, with T stored to its PSW. -/
def tracedWaiter : Cpu :=
  (BusOp.load (fun _ => 0) fun _ => 1).apply
    ((BusOp.write 0o177776 0o20).apply (cpuCreateModel .m1105))

theorem tracedWaiter_executed : TracedWait .step tracedWaiter := by
  let begun : Machine := ⟨beginInstr (armTrace tracedWaiter), [.setjmp]⟩
  have hfetch := eq_ok_of_value (r := fetch begun) (a := 1) (by decide +kernel)
  exact ⟨rfl, by decide +kernel, _, _, rfl, by decide +kernel, rfl, hfetch, rfl⟩

theorem dispatch_keeps_wait :
    ¬∀ (model : Model) (s : Cpu), Reached model s → vectorsOf (cpuStep s).events ≠ [] →
      (cpuStep s).cpu.ctl.waiting = false := by
  intro h
  have hreached : Reached .m1105 (cpuStep tracedWaiter).cpu :=
    (((Reached.create .m1105).next (.write 0o177776 0o20)).next
      (.load (fun _ => 0) fun _ => 1)).next .step
  obtain ⟨hvectors, hwaiting⟩ := tracedWait_waits tracedWaiter_executed
  have hawake := h .m1105 _ hreached (by rw [hvectors]; exact List.cons_ne_nil _ _)
  exact absurd (hwaiting.symm.trans hawake) (by decide)

end Pdp11
