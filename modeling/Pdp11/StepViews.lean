import Pdp11.FloatViews

namespace Pdp11

open FaultState Lockstep

/-! Calls of the step from states that are seen alike. -/

/-! ## Views of a running instruction -/

/-- The view of a running instruction, which has cleared its extra time. -/
abbrev View.running (w : View) : View := { w with extra := id }

section
variable {w : View} {m m' : Machine}

theorem SameView.of_faulted (h : SameView w.faulted m m') : SameView w m m' :=
  ⟨congrArg (fun s : Cpu => { s with ctl.abortVec := w.vec s.ctl.abortVec }) h.cpu, h.events⟩

theorem SameView.of_running (h : SameView w.running m m') : SameView w m m' :=
  ⟨congrArg (fun s : Cpu => { s with acct.eisExtraNs := w.extra s.acct.eisExtraNs }) h.cpu, h.events⟩

theorem armTrace_view (s : Cpu) : armTrace (view w s) = view w (armTrace s) := view_ite rfl rfl

theorem beginInstr_view (s : Cpu) : beginInstr (view w s) = view w.running (beginInstr s) :=
  view_ite rfl rfl

theorem finishInstr_view (word : Word) (s : Cpu) :
    finishInstr word (view w.running s) = view w.running (finishInstr word s) := by
  have haccount : accountTime word (view w.running s) = view w.running (accountTime word s) := rfl
  refine serviceDueEvents_view ?_
  rw [haccount]
  rfl

/-! ## Faults -/

theorem agree_catchFault {R S F : Machine → Machine → Prop} {act handler : M Unit}
    (ha : Agree S R (act m) (act m')) (hh : Locked R S F handler) :
    Agree S F (catchFault act handler m) (catchFault act handler m') := by
  simp only [catchFault]
  generalize act m = r at ha ⊢
  generalize act m' = r' at ha ⊢
  cases ha with
  | ok a h => exact .ok a h
  | error e h => exact hh _ _ h

/-- The handler reads the vector the fault has left. -/
theorem locked_abortTrap :
    Locked (SameView w.faulted) (SameView w.faulted) (SameView w.faulted) abortTrap :=
  locked_get (fun _ => rfl) fun _ => (blind_doTrap _ _).bind fun _ => locked_modify fun _ => rfl

theorem locked_abortHandler (fuel : ℕ) :
    Locked (SameView w.faulted) (SameView w.faulted) (SameView w.faulted) (abortHandler fuel) := by
  induction fuel with
  | zero => exact locked_pure ()
  | succ fuel ih =>
    have hdeepen := blind_modify (f := fun s =>
      { s with ctl.abortDepth := s.ctl.abortDepth + 1 }) (fun _ _ => rfl) w.faulted
    refine hdeepen.bind fun _ => locked_get (fun _ => rfl) fun _ => ?_
    exact .ite (locked_modify fun _ => rfl) fun m m' h =>
      agree_catchFault (locked_abortTrap m m' h) ih

end

/-! ## A call of the step -/

section
variable {w : View} {s t : Cpu}

/-- An instruction, when what it executes is seen alike. -/
theorem agree_stepInstr (h : view w s = view w t)
    (hexecute : ∀ word m m', fetch ⟨beginInstr (armTrace s), [.setjmp]⟩ = .ok word m →
      SameView w.running m m' → Agree (SameView w.running) (SameView w.running.faulted)
        (execute word m) (execute word m')) :
    Agree (SameView w) (SameView w) (stepInstr ⟨s, []⟩) (stepInstr ⟨t, []⟩) := by
  have hstep (u : Cpu) :
      stepInstr ⟨u, []⟩ = catchFault runInstr (abortHandler 9) (instrStart u) := rfl
  have hrun (u : Cpu) : runInstr (instrStart u) = (fetch >>= fun word => execute word >>= fun _ =>
      modifyCpu (finishInstr word)) ⟨beginInstr (armTrace u), [.setjmp]⟩ := rfl
  have hbegin : SameView w.running ⟨beginInstr (armTrace s), [.setjmp]⟩
      ⟨beginInstr (armTrace t), [.setjmp]⟩ := by
    refine ⟨?_, rfl⟩
    rw [← beginInstr_view, ← armTrace_view, h, armTrace_view, beginInstr_view]
  have hagree : Agree (SameView w.running) (SameView w.running.faulted)
      (runInstr (instrStart s)) (runInstr (instrStart t)) := by
    rw [hrun, hrun]
    refine (blind_fetch _ _ _ hbegin).bind fun word m m' hfetch hm => ?_
    refine (hexecute word m m' hfetch hm).bind fun _ m₁ m₁' _ hm₁ => ?_
    exact locked_modify (finishInstr_view word) m₁ m₁' hm₁
  rw [hstep, hstep]
  refine agree_catchFault (R := SameView w.running.faulted) (hagree.mono (fun _ _ => .of_running)
    fun _ _ hm => hm) ?_
  exact (locked_abortHandler 9).mono (fun _ _ hm => hm.of_faulted.of_running)
    fun _ _ hm => hm.of_faulted.of_running

theorem stepResult_view {r r' : EStateM.Result Unit Machine Unit}
    (h : Agree (SameView w) (SameView w) r r') :
    SameView w ⟨(stepResult r).cpu, (stepResult r).events⟩
      ⟨(stepResult r').cpu, (stepResult r').events⟩ ∧
    (stepResult r).escaped = (stepResult r').escaped := by
  cases h with
  | ok _ h => exact ⟨h, rfl⟩
  | error _ h => exact ⟨h, rfl⟩

theorem locked_dispatchPending (p : Pending) :
    Locked (SameView w) (SameView w) (SameView w) (dispatchPending p) := by
  have hack (u : Cpu) : acknowledge p (view w u) = view w (acknowledge p u) := by cases p <;> rfl
  have hdone (u : Cpu) : dispatched p (view w u) = view w (dispatched p u) := by cases p <;> rfl
  have htrap : Locked (SameView w) (SameView w) (SameView w) (doTrap p.vec) :=
    (blind_doTrap p.vec w).mono (fun _ _ hm => hm) fun _ _ => .of_faulted
  exact (locked_modify hack).bind fun _ => htrap.bind fun _ => locked_modify hdone

/-- Two calls are seen alike when the instruction they execute, if they execute one, is. -/
theorem cpuStep_view (h : view w s = view w t) (hexecute : ∀ word m m', Fetches s word m →
      SameView w.running m m' → Agree (SameView w.running) (SameView w.running.faulted)
        (execute word m) (execute word m')) :
    SameView w ⟨(cpuStep s).cpu, (cpuStep s).events⟩ ⟨(cpuStep t).cpu, (cpuStep t).events⟩ ∧
      (cpuStep s).escaped = (cpuStep t).escaped := by
  -- both calls take the branch that the control state of `s` names
  have hctl := congrArg (fun u : Cpu => (u.ctl.halted, u.ctl.waiting)) h.symm
  have hhalt : t.ctl.halted = s.ctl.halted := congrArg Prod.fst hctl
  have hwait : t.ctl.waiting = s.ctl.waiting := congrArg Prod.snd hctl
  have hpending (u : Cpu) : pendingDispatch (view w u) = pendingDispatch u := rfl
  have hpend : pendingDispatch t = pendingDispatch s := by
    rw [← hpending, ← h, hpending]
  cases hhalted : s.ctl.halted with
  | true =>
    rw [cpuStep_halted hhalted, cpuStep_halted (hhalt.trans hhalted)]
    exact ⟨⟨h, rfl⟩, rfl⟩
  | false =>
  cases hdue : pendingDispatch s with
  | some p =>
    rw [cpuStep_dispatch hhalted hdue, cpuStep_dispatch (hhalt.trans hhalted) (hpend.trans hdue)]
    exact stepResult_view (locked_dispatchPending p _ _ ⟨h, rfl⟩)
  | none =>
  cases hwaiting : s.ctl.waiting with
  | true =>
    rw [cpuStep_idle hhalted hdue hwaiting,
      cpuStep_idle (hhalt.trans hhalted) (hpend.trans hdue) (hwait.trans hwaiting)]
    have hidle (u : Cpu) : idleSkip (view w u) = view w (idleSkip u) := idleSkip_view rfl
    have hskipped : view w (idleSkip s) = view w (idleSkip t) := by
      rw [← hidle, h, hidle]
    exact ⟨⟨hskipped, rfl⟩, rfl⟩
  | false =>
    rw [cpuStep_instr hhalted hdue hwaiting,
      cpuStep_instr (hhalt.trans hhalted) (hpend.trans hdue) (hwait.trans hwaiting)]
    exact stepResult_view (agree_stepInstr h fun word m m' hfetch =>
      hexecute word m m' ⟨hhalted, hdue, hwaiting, hfetch⟩)

end

/-! ## Scratch variables -/

/-- Nothing live: a state as it stands between two calls. -/
abbrev Live.none : Live := ⟨false, false⟩

/-- Two states that differ in scratch variables alone step alike. -/
theorem cpuStep_trim {s t : Cpu} (h : trim .none s = trim .none t) :
    trim .none (cpuStep s).cpu = trim .none (cpuStep t).cpu := by
  refine (cpuStep_view (w := Live.none.view) h fun word m m' _ hm => ?_).1.cpu
  exact agree_execute (.inl rfl) ⟨hm, rfl⟩ (.inl rfl)

end Pdp11
