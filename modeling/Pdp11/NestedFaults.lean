import Pdp11.ControlFlags
import Pdp11.Completion
import Pdp11.Lib.Retry

namespace Pdp11

open FaultState

/-! Faults of a fault's own trap: at most eight attempts, then the processor halts. -/

/-! ## The handler as bounded attempts -/

/-- One return of `setjmp` short of the limit: deeper by one, a trap through the recorded vector. -/
def faultAttempt : M Unit := do
  modifyCpu fun s => { s with ctl.abortDepth := s.ctl.abortDepth + 1 }
  abortTrap

/-- The return of `setjmp` that passes the limit. -/
def guardHalt : M Unit :=
  modifyCpu fun s => { s with ctl.abortDepth := s.ctl.abortDepth + 1, ctl.halted := true }

/-- The machine one return of `setjmp` deeper. -/
def deeper (m : Machine) : Machine :=
  { m with cpu := { m.cpu with ctl.abortDepth := m.cpu.ctl.abortDepth + 1 } }

theorem faultAttempt_apply (m : Machine) :
    faultAttempt m = (do
      doTrap m.cpu.ctl.abortVec
      modifyCpu fun s => countInstr { s with ctl.servicingStackTrap := false } : M Unit)
      (deeper m) := rfl

theorem faultAttempt_error {m m' : Machine} {e : Unit} (h : faultAttempt m = .error e m') :
    doTrap m.cpu.ctl.abortVec (deeper m) = .error () m' := by
  rw [faultAttempt_apply, bind_eq_error] at h
  obtain h | ⟨_, m1, -, h⟩ := h
  · exact h
  · cases h

theorem faultAttempt_ok {m m' : Machine} (h : faultAttempt m = .ok () m') :
    ∃ m₁, doTrap m.cpu.ctl.abortVec (deeper m) = .ok () m₁ ∧
      m' = { m₁ with cpu := countInstr { m₁.cpu with ctl.servicingStackTrap := false } } := by
  rw [faultAttempt_apply] at h
  obtain ⟨⟨⟩, m1, htrap, h⟩ := bind_eq_ok.1 h
  cases h
  exact ⟨m1, htrap, rfl⟩

/-- An attempt that fails leaves the processor running, one deeper. -/
theorem faultAttempt_flags {m m' : Machine} {e : Unit} (h : faultAttempt m = .error e m') :
    m'.cpu.ctl.halted = m.cpu.ctl.halted ∧ m'.cpu.ctl.waiting = m.cpu.ctl.waiting ∧
      m'.cpu.ctl.tracePending = m.cpu.ctl.tracePending ∧
      m'.cpu.ctl.abortDepth = m.cpu.ctl.abortDepth + 1 := by
  have hk := (keepsFlags_doTrap m.cpu.ctl.abortVec).of_error (faultAttempt_error h)
  exact ⟨hk.halted, hk.waiting, hk.trace, hk.depth⟩

/-- The handler entered with `n` attempts left. -/
theorem abortHandler_eq (n : ℕ) (m : Machine) (h : m.cpu.ctl.abortDepth + n = 8) :
    abortHandler (n + 1) m = Retry.attempt faultAttempt guardHalt n m := by
  have hstep (n : ℕ) (m : Machine) : abortHandler (n + 1) m =
      (if 8 < m.cpu.ctl.abortDepth + 1 then modifyCpu fun s => { s with ctl.halted := true }
      else catchFault abortTrap (abortHandler n)) (deeper m) := rfl
  induction n generalizing m with
  | zero =>
    rw [hstep, if_pos (by omega)]
    rfl
  | succ n ih =>
    rw [hstep, if_neg (by omega)]
    have hact : abortTrap (deeper m) = faultAttempt m := rfl
    rw [catchFault, hact]
    cases ht : faultAttempt m with
    | ok a m1 => exact (Retry.attempt_ok ht).symm
    | error e m1 =>
      rw [Retry.attempt_error ht]
      obtain ⟨-, -, -, hdepth⟩ := faultAttempt_flags ht
      exact ih m1 (by omega)

/-! ## The trap of an attempt -/

/-- A store to the PSW among the events. -/
def PswStored (es : List Event) : Prop := ∃ value, Event.ioWrite iopagePsw value ∈ es

/-- The program status stays, or a store to it is logged. -/
def PswLogged (m m' : Machine) : Prop :=
  ∃ es, m'.events = m.events ++ es ∧ (m'.cpu.regs.psw = m.cpu.regs.psw ∨ PswStored es)

namespace PswLogged

variable {m m' m'' : Machine}

theorem refl (m : Machine) : PswLogged m m := ⟨[], (List.append_nil _).symm, .inl rfl⟩

theorem of_kept (hevents : m'.events = m.events) (hpsw : m'.cpu.regs.psw = m.cpu.regs.psw) :
    PswLogged m m' := ⟨[], by rw [hevents, List.append_nil], .inl hpsw⟩

theorem trans (h : PswLogged m m') (h' : PswLogged m' m'') : PswLogged m m'' := by
  obtain ⟨es, hes, hpsw⟩ := h
  obtain ⟨es', hes', hpsw'⟩ := h'
  refine ⟨es ++ es', by rw [hes', hes, List.append_assoc], ?_⟩
  obtain ⟨v, hv⟩ | hpsw' := hpsw'.symm
  · exact .inr ⟨v, List.mem_append_right es hv⟩
  · obtain ⟨v, hv⟩ | hpsw := hpsw.symm
    · exact .inr ⟨v, List.mem_append_left es' hv⟩
    · exact .inl (hpsw'.trans hpsw)

end PswLogged

theorem pswLogged_fault {α : Type} (vector : Word) : Respects PswLogged (cpuBusFault vector : M α) :=
  fun _ => ⟨[.fault vector], rfl, .inl rfl⟩

theorem pswLogged_refOp {α : Type} {x : M α} (hx : RefOp α x) : Respects PswLogged x := by
  cases hx with
  | read h =>
    cases h with
    | get => exact .refl
    | fault vector => exact pswLogged_fault vector
    | capture idx err _ =>
      refine fun m => .of_kept rfl ?_
      show (captureMmu idx err m.cpu).regs.psw = _
      unfold captureMmu
      split <;> rfl
    | mark idx isWrite => exact fun m => .of_kept rfl rfl
    | ioRead a =>
      intro m
      rw [ioRead_apply]
      cases hp : ioReadReg m.cpu a with
      | none => exact pswLogged_fault (α := Word) vecBus m
      | some p =>
        refine .of_kept rfl ?_
        rw [final_ok, (ioReadReg_step m.cpu a p hp).1.rest]
    | cache pa => exact fun m => .of_kept rfl rfl
  | ioWrite a value =>
    intro m
    have hlog : PswLogged m ⟨m.cpu, m.events ++ [.ioWrite a value]⟩ := ⟨[_], rfl, .inl rfl⟩
    rw [ioWrite_apply]
    cases hs : ioWriteReg m.cpu a value with
    | none => exact hlog.trans (pswLogged_fault (α := Unit) vecBus _)
    | some t =>
      obtain ⟨rfl, -⟩ | ⟨hregs, -⟩ := ioWriteReg_psw hs
      · exact ⟨[_], rfl, .inr ⟨value, List.mem_singleton_self _⟩⟩
      · exact ⟨[_], rfl, .inl (by rw [final_ok, hregs])⟩
  | mem f => exact fun m => .of_kept rfl rfl

theorem pswLogged_ref {α : Type} {x : M α} (hx : RefBuilt x) : Respects PswLogged x :=
  hx.respects .refl (fun _ _ _ h h' => h.trans h') fun h => pswLogged_refOp h

theorem pswLogged_push (value : Word) : Respects PswLogged (pushWord value) := by
  intro m
  have hwrite (m' : Machine) (hevents : m'.events = m.events)
      (hpsw : m'.cpu.regs.psw = m.cpu.regs.psw) : PswLogged m
        (final (cpuWriteWordMode (pushAddr m.cpu) m.cpu.mode true value m')) :=
    (PswLogged.of_kept hevents hpsw).trans (pswLogged_ref (ref_cpuWriteWordMode _ _ _ _) m')
  rw [pushWord_apply]
  cases stackZone (withReg regSp (pushAddr m.cpu) m).cpu (pushAddr m.cpu) with
  | fine => exact hwrite _ rfl rfl
  | yellow => exact hwrite _ rfl rfl
  | red => exact ⟨[_], rfl, .inl rfl⟩

theorem pswLogged_trapEnd (newPc : Word) : Respects PswLogged (trapEnd newPc) := by
  intro m
  rw [trapEnd_apply]
  unfold whenM
  split
  · rw [checkStackLimit_apply]
    cases stackZone (trapEnded newPc m.cpu) _ with
    | fine => exact .of_kept rfl rfl
    | yellow => exact .of_kept rfl rfl
    | red => exact ⟨[_], rfl, .inl rfl⟩
  · exact .of_kept rfl rfl

/-- A trap through `vector` from machine `m` to `m'`: PC is the first word there, and the PSW is the
second, with the old mode in its previous-mode field and cut to the bits of the model, unless a push
of the trap stores to the PSW itself. -/
def TakenFrom (vector : Word) (m m' : Machine) : Prop :=
  ∃ newPc newPsw m₁ m₂, cpuReadWordGen vector 0 true (dispatching vector m) = .ok newPc m₁ ∧
    cpuReadWordGen (vector + 2) 0 true m₁ = .ok newPsw m₂ ∧
    m'.cpu.regs.r regPc = newPc ∧
    (m'.cpu.regs.psw = trapPsw newPsw m.cpu.mode &&& m.cpu.cfg.pswMask ∨
      PswStored (m'.events.drop m.events.length))

theorem modifyCpu_modifyCpu_bind (f g : Cpu → Cpu) (x : M Unit) (m : Machine) :
    (do
      modifyCpu f
      modifyCpu g
      x : M Unit) m = x { m with cpu := g (f m.cpu) } := rfl

theorem doTrap_takenFrom {vector : Word} {m m' : Machine} (h : doTrap vector m = .ok () m') :
    TakenFrom vector m m' := by
  rw [doTrap_apply] at h
  obtain ⟨newPc, m1, h1, h⟩ := bind_eq_ok.1 h
  obtain ⟨newPsw, m2, h2, h⟩ := bind_eq_ok.1 h
  let entry : Machine := { m2 with cpu :=
    { putPsw m2.cpu (trapPsw newPsw (curMode m.cpu.regs.psw)) with ctl.inTrapPush := true } }
  have hpush : trapPush m.cpu.regs.psw (m.cpu.regs.r regPc) newPc entry = .ok () m' :=
    (modifyCpu_modifyCpu_bind _ _ _ m2).symm.trans h
  obtain ⟨⟨⟩, m3, h3, hpush⟩ := bind_eq_ok.1 hpush
  obtain ⟨⟨⟩, m4, h4, hend⟩ := bind_eq_ok.1 hpush
  obtain ⟨hregs, -, -, -⟩ := trapEnd_ok hend
  have hread : PswLogged (dispatching vector m) m2 :=
    ((pswLogged_ref (ofRead (read_cpuReadWordGen vector 0 true))).of_ok h1).trans
      ((pswLogged_ref (ofRead (read_cpuReadWordGen (vector + 2) 0 true))).of_ok h2)
  have hcfg : m2.cpu.cfg = m.cpu.cfg := by
    have hk : ReadKept m.cpu m2.cpu :=
      ((read_kept (read_cpuReadWordGen vector 0 true)).of_ok h1).trans
        ((read_kept (read_cpuReadWordGen (vector + 2) 0 true)).of_ok h2)
    rw [hk.rest]
  -- the pushes may store to the PSW, which the events then show
  obtain ⟨es, hes, -⟩ := hread
  obtain ⟨es', hes', hpsw⟩ := (((pswLogged_push _).of_ok h3).trans
    ((pswLogged_push _).of_ok h4)).trans ((pswLogged_trapEnd newPc).of_ok hend)
  refine ⟨newPc, newPsw, m1, m2, h1, h2, ?_, ?_⟩
  · rw [hregs]
    exact Function.update_self regPc newPc m4.cpu.regs.r
  · have hdrop : m'.events.drop m.events.length = .dispatch vector m.cpu.regs.psw
        (m.cpu.regs.r regPc) :: (es ++ es') := by
      have hevents : m'.events = (m.events ++ [.dispatch vector m.cpu.regs.psw
          (m.cpu.regs.r regPc)] ++ es) ++ es' := hes'.trans (congrArg (· ++ es') hes)
      rw [hevents, List.append_assoc, List.append_assoc, List.drop_left]
      rfl
    rw [hdrop]
    obtain hpsw | ⟨value, hv⟩ := hpsw
    · left
      rw [hpsw]
      show trapPsw newPsw (curMode m.cpu.regs.psw) &&& m2.cpu.cfg.pswMask = _
      rw [hcfg]
      rfl
    · exact .inr ⟨value, List.mem_cons_of_mem _ (List.mem_append_right es hv)⟩

/-! ## The step -/

/-- An attempt dispatches once. -/
theorem faultAttempt_vectors {m m' : Machine} {e : Unit} (h : faultAttempt m = .error e m') :
    (vectorsOf m'.events).length = (vectorsOf m.events).length + 1 := by
  have hu := doTrap_undisturbed m.cpu.ctl.abortVec (deeper m)
  rw [faultAttempt_error h] at hu
  have happ (e : Event) : vectorsOf (m.events ++ [e]) = vectorsOf m.events ++ vectorsOf [e] :=
    List.filterMap_append
  rw [show vectorsOf m'.events = _ from hu.vectors]
  exact (congrArg List.length (happ _)).trans List.length_append

/-- A step that faulted, with machine `m` as the fault left it, returns after at most eight traps of
its handler. If all eight fault, the processor halts; if one does not, the processor goes on from
the vector of the last fault. -/
structure FaultHandled (m : Machine) (r : StepResult) : Prop where
  returns : r.escaped = false
  attempts : (vectorsOf r.events).length ≤ (vectorsOf m.events).length + 8
  halts : r.cpu.ctl.halted = true ↔ ∃ m₈, Retry.Failed faultAttempt 8 m m₈
  taken : ∀ k < 8, ∀ m₁ m₂, Retry.Failed faultAttempt k m m₁ → faultAttempt m₁ = .ok () m₂ →
    r = ⟨m₂.cpu, m₂.events, false⟩ ∧ r.cpu.ctl.halted = false ∧
      TakenFrom m₁.cpu.ctl.abortVec (deeper m₁) m₂

theorem attempt_taken {m m₁ m₂ : Machine} {k : ℕ} (hm : m.cpu.ctl.halted = false)
    (hfailed : Retry.Failed faultAttempt k m m₁) (hok : faultAttempt m₁ = .ok () m₂) :
    m₂.cpu.ctl.halted = false ∧ TakenFrom m₁.cpu.ctl.abortVec (deeper m₁) m₂ ∧
      (vectorsOf m₂.events).length = (vectorsOf m.events).length + k + 1 := by
  obtain ⟨m3, htrap, rfl⟩ := faultAttempt_ok hok
  have hrunning : m₁.cpu.ctl.halted = m.cpu.ctl.halted :=
    hfailed.kept (R := fun a b => b.cpu.ctl.halted = a.cpu.ctl.halted) (fun _ => rfl)
      (fun a b c (h : b.cpu.ctl.halted = _) (h' : c.cpu.ctl.halted = _) => h'.trans h)
      fun _ _ _ he => (faultAttempt_flags he).1
  have hcount : (vectorsOf m₁.events).length = (vectorsOf m.events).length + k :=
    hfailed.count (f := fun a => (vectorsOf a.events).length) fun _ _ _ he => faultAttempt_vectors he
  have hflags := (keepsFlags_doTrap m₁.cpu.ctl.abortVec).of_ok htrap
  have hu := doTrap_undisturbed m₁.cpu.ctl.abortVec (deeper m₁)
  rw [htrap] at hu
  have happ (e : Event) : vectorsOf (m₁.events ++ [e]) = vectorsOf m₁.events ++ vectorsOf [e] :=
    List.filterMap_append
  have htaken : TakenFrom m₁.cpu.ctl.abortVec (deeper m₁) m3 := doTrap_takenFrom htrap
  refine ⟨hflags.halted.trans (hrunning.trans hm), htaken, ?_⟩
  show (vectorsOf m3.events).length = _
  rw [show vectorsOf m3.events = _ from hu.vectors, ← hcount]
  exact (congrArg List.length (happ _)).trans List.length_append

/-- The handler from the fault of an instruction on. -/
theorem abortHandler_handled {m : Machine} (hm : m.cpu.ctl.halted = false)
    (hdepth : m.cpu.ctl.abortDepth = 0) :
    FaultHandled m (stepResult (abortHandler 9 m)) := by
  have hrun := abortHandler_eq 8 m (by omega)
  have htaken (k : ℕ) (hk : k < 8) (m₁ m₂ : Machine) (hfailed : Retry.Failed faultAttempt k m m₁)
      (hok : faultAttempt m₁ = .ok () m₂) :
      stepResult (abortHandler 9 m) = ⟨m₂.cpu, m₂.events, false⟩ := by
    rw [hrun, hfailed.ends hok hk]
    rfl
  have hfails (m₈ : Machine) (hfailed : Retry.Failed faultAttempt 8 m m₈) :
      stepResult (abortHandler 9 m) = stepResult (guardHalt m₈) := by
    rw [hrun, hfailed.gives_up]
  have hcases := Retry.attempt_cases faultAttempt guardHalt 8 m
  obtain ⟨m₈, hall, -⟩ | ⟨k, hk, m₁, m₂, hfailed, hok, -⟩ := hcases
  · -- eight faults in a row, and the guard halts
    have hstep := hfails m₈ hall
    have hcount : (vectorsOf m₈.events).length = (vectorsOf m.events).length + 8 :=
      hall.count (f := fun a => (vectorsOf a.events).length) fun _ _ _ he => faultAttempt_vectors he
    have hhalted : (stepResult (abortHandler 9 m)).cpu.ctl.halted = true := by
      rw [hstep]
      rfl
    refine ⟨by rw [hstep]; rfl, ?_, iff_of_true hhalted ⟨m₈, hall⟩, ?_⟩
    · rw [hstep]
      exact hcount.le
    · intro k hk m₁ m₂ hfailed hok
      have hrun' := htaken k hk m₁ m₂ hfailed hok
      obtain ⟨hnot, -, -⟩ := attempt_taken hm hfailed hok
      rw [hrun'] at hhalted
      exact absurd (hhalted.symm.trans hnot) (by decide)
  · -- a trap that is taken after `k` faults
    have hstep := htaken k hk m₁ m₂ hfailed hok
    obtain ⟨hnot, -, hcount⟩ := attempt_taken hm hfailed hok
    have hrunning : (stepResult (abortHandler 9 m)).cpu.ctl.halted = false := by
      rw [hstep]
      exact hnot
    refine ⟨by rw [hstep], ?_, iff_of_false (by rw [hrunning]; decide) ?_, ?_⟩
    · rw [hstep]
      show (vectorsOf m₂.events).length ≤ _
      omega
    · rintro ⟨m₈, hall⟩
      rw [hfails m₈ hall] at hrunning
      cases hrunning
    · intro k' hk' m₁' m₂' hfailed' hok'
      exact ⟨htaken k' hk' m₁' m₂' hfailed' hok', hrunning, (attempt_taken hm hfailed' hok').2.1⟩

/-- From every state in which the step reaches its `setjmp`, the instruction completes without its
handler, or its fault is handled. -/
theorem nested_faults_terminate {s : Cpu} (hrun : s.ctl.halted = false)
    (hdue : pendingDispatch s = none) (hactive : s.ctl.waiting = false) :
    (∃ word m, fetchExecute (instrStart s) = .ok word m ∧
      cpuStep s = ⟨finishInstr word m.cpu, m.events, false⟩) ∨
    ∃ m, fetchExecute (instrStart s) = .error () m ∧ FaultHandled m (cpuStep s) := by
  rw [cpuStep_instr hrun hdue hactive]
  cases hx : fetchExecute (instrStart s) with
  | ok word m =>
    refine .inl ⟨word, m, rfl, ?_⟩
    rw [stepInstr_complete hx]
    rfl
  | error e m =>
    refine .inr ⟨m, rfl, ?_⟩
    have hflags := fetchExecute_error hx
    obtain ⟨hhalted, -, -, hdepth⟩ := begin_flags s
    rw [stepInstr_abort hx]
    exact abortHandler_handled (hflags.halted.trans (hhalted.trans hrun)) (hflags.depth.trans hdepth)

/-- A program at an odd PC whose stack pointer is 0, so that its trap pushes to the PSW first. -/
def wrappedStack : Cpu :=
  { cpuCreate with
    regs := { resetRegs with r := fun i => if i = regPc then 1 else 0 }
    mem := fun i => if i = 3 then 0o340 else 0 }

theorem wrappedStack_handled : ∃ m, fetchExecute (instrStart wrappedStack) = .error () m ∧
    FaultHandled m (cpuStep wrappedStack) := by
  obtain ⟨word, m, hx, -⟩ | hfault := nested_faults_terminate (s := wrappedStack) rfl rfl rfl
  · have hno : isOk (fetchExecute (instrStart wrappedStack)) = false := by decide +kernel
    rw [hx] at hno
    cases hno
  · exact hfault

/-- The PSW of the vector is lost to the push of the old one. -/
theorem psw_not_from_vector :
    ¬∀ (s : Cpu), s.ctl.halted = false → pendingDispatch s = none → s.ctl.waiting = false →
      ∀ m, fetchExecute (instrStart s) = .error () m →
      ∀ k < 8, ∀ m₁ m₂, Retry.Failed faultAttempt k m m₁ → faultAttempt m₁ = .ok () m₂ →
      ∃ newPc newPsw m₃ m₄,
        cpuReadWordGen m₁.cpu.ctl.abortVec 0 true (deeper m₁) = .ok newPc m₃ ∧
        cpuReadWordGen (m₁.cpu.ctl.abortVec + 2) 0 true m₃ = .ok newPsw m₄ ∧
        m₂.cpu.regs.r regPc = newPc ∧
        m₂.cpu.regs.psw = trapPsw newPsw m₁.cpu.mode &&& m₁.cpu.cfg.pswMask := by
  intro h
  let x := fetchExecute (instrStart wrappedStack)
  obtain ⟨⟨⟩, hx⟩ := eq_error_final (r := x) (by decide +kernel)
  obtain ⟨⟨⟩, hok⟩ := eq_ok_final (r := faultAttempt (final x)) (by decide +kernel)
  obtain ⟨newPc, newPsw, m3, m4, h1, h2, -, hpsw⟩ :=
    h wrappedStack rfl rfl rfl (final x) hx 0 (by decide) (final x) _ (.none _) hok
  -- the word behind the vector, and the PSW the push of the old one left
  have hword : value? ((cpuReadWordGen (final x).cpu.ctl.abortVec 0 true >>= fun _ =>
      cpuReadWordGen ((final x).cpu.ctl.abortVec + 2) 0 true) (deeper (final x))) =
        some (0o340 : Word) := by decide +kernel
  rw [bind_ok h1, h2] at hword
  obtain rfl : newPsw = 0o340 := Option.some.inj hword
  have hleft : (final (faultAttempt (final x))).cpu.regs.psw ≠
      trapPsw 0o340 (final x).cpu.mode &&& (final x).cpu.cfg.pswMask := by decide +kernel
  exact hleft hpsw

end Pdp11
