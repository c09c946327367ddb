import Pdp11.InstructionEffects
import Pdp11.DeviceEffects

namespace Pdp11

open FaultState

/-! ## Memory references -/

theorem core_checkStackLimit (sp : Word) : CoreBuilt (checkStackLimit sp) :=
  (Built.op .get).bind fun _ => .ite (.pure _) <| .ite (.pure _) <| .ite (.op .yellow) <|
    .ite (.ite (.op .yellow) ((Built.op .red).bind fun _ => .op (.fault _))) (.pure _)

abbrev ReadBuilt {α : Type} (x : M α) : Prop := Built ReadOp α x

abbrev RefBuilt {α : Type} (x : M α) : Prop := Built RefOp α x

theorem ofRead {α : Type} {x : M α} (h : ReadBuilt x) : RefBuilt x := h.subst fun hx => .op (.read hx)

/-- A reference raises error bits of MMR0 only. -/
theorem mmuError_bits (pdr va : Word) (isWrite : Bool) :
    mmuError pdr va isWrite &&& ~~~mmr0Freeze = 0 := by
  unfold mmuError acfViolation
  split_ifs <;> decide

theorem read_mmuRelocate (va : Word) (isWrite : Bool) (mode : Mode) (dspace : Bool) :
    ReadBuilt (mmuRelocate va isWrite mode dspace) := by
  refine (Built.op .get).bind fun s => .ite (.ite ?_ ?_) (.pure _)
  · exact (Built.op (.capture _ _ (mmuError_bits _ _ _))).bind fun _ => .op (.fault _)
  · exact (Built.op (.mark _ _)).bind fun _ => .pure _

theorem read_checkNxm (pa : PhysAddr) : ReadBuilt (checkNxm pa) :=
  (Built.op .get).bind fun _ => built_whenM (.op (.fault _))

theorem read_cpuReadWordGen (va : Word) (mode : Mode) (dspace : Bool) :
    ReadBuilt (cpuReadWordGen va mode dspace) := by
  refine (built_whenM (.op (.fault _))).bind fun _ => (read_mmuRelocate _ _ _ _).bind fun pa => ?_
  refine .ite (.op (.ioRead _)) ?_
  exact (read_checkNxm _).bind fun _ => (Built.op (.cache _)).bind fun _ =>
    (Built.op .get).bind fun _ => .pure _

theorem read_cpuReadWord (va : Word) : ReadBuilt (cpuReadWord va) :=
  (Built.op .get).bind fun _ => read_cpuReadWordGen _ _ _

theorem read_cpuReadByte (va : Word) : ReadBuilt (cpuReadByte va) := by
  refine (Built.op .get).bind fun _ => (read_mmuRelocate _ _ _ _).bind fun pa => .ite ?_ ?_
  · exact (Built.op (.ioRead _)).bind fun _ => .pure _
  · exact (read_checkNxm _).bind fun _ => (Built.op (.cache _)).bind fun _ =>
      (Built.op .get).bind fun _ => .pure _

theorem ref_cpuWriteWordMode (va : Word) (mode : Mode) (dspace : Bool) (value : Word) :
    RefBuilt (cpuWriteWordMode va mode dspace value) := by
  refine (ofRead (built_whenM (.op (.fault _)))).bind fun _ =>
    (ofRead (read_mmuRelocate _ _ _ _)).bind fun pa => .ite (.op (.ioWrite _ _)) ?_
  exact (ofRead (read_checkNxm _)).bind fun _ => .op (.mem fun m => memWriteWord m pa value)

theorem ref_cpuWriteWord (va value : Word) : RefBuilt (cpuWriteWord va value) :=
  (ofRead (Built.op .get)).bind fun _ => ref_cpuWriteWordMode _ _ _ _

theorem ref_cpuWriteByte (va : Word) (value : Byte) : RefBuilt (cpuWriteByte va value) := by
  refine (ofRead (Built.op .get)).bind fun _ => (ofRead (read_mmuRelocate _ _ _ _)).bind fun pa =>
    .ite ?_ ?_
  · exact (ofRead (Built.op (.ioRead _))).bind fun _ => .op (.ioWrite _ _)
  · exact (ofRead (read_checkNxm _)).bind fun _ => .op (.mem fun m => memWriteByte m pa value)

theorem core_of_refOp {α : Type} {x : M α} (h : RefOp α x) : CoreBuilt x := by
  cases h with
  | read h =>
    cases h with
    | get => exact .op .get
    | fault vector => exact .op (.fault vector)
    | capture idx err _ => exact .op (.capture idx err)
    | mark idx isWrite => exact .op (.mark idx isWrite)
    | ioRead a => exact .op (.ioRead a)
    | cache pa => exact .op (.cache pa)
  | ioWrite a value => exact .op (.ioWrite a value)
  | mem f => exact .op (.mem f)

theorem core_of_ref {α : Type} {x : M α} (h : RefBuilt x) : CoreBuilt x := h.subst core_of_refOp

theorem core_cpuReadWordGen (va : Word) (mode : Mode) (dspace : Bool) :
    CoreBuilt (cpuReadWordGen va mode dspace) :=
  core_of_ref (ofRead (read_cpuReadWordGen va mode dspace))

theorem core_cpuWriteWordMode (va : Word) (mode : Mode) (dspace : Bool) (value : Word) :
    CoreBuilt (cpuWriteWordMode va mode dspace value) :=
  core_of_ref (ref_cpuWriteWordMode va mode dspace value)

/-! ## Machine equations of the primitive effects -/

theorem ioRead_apply (a : Word) (m : Machine) :
    ioRead a m = match ioReadReg m.cpu a with
      | some p => .ok p.1 { m with cpu := p.2 }
      | none => (cpuBusFault vecBus : M Word) m := by
  unfold ioRead
  refine (bind_ok (x := getCpu) rfl).trans ?_
  cases ioReadReg m.cpu a <;> rfl

theorem ioWrite_apply (a value : Word) (m : Machine) :
    ioWrite a value m = match ioWriteReg m.cpu a value with
      | some s' => .ok () ⟨s', m.events ++ [Event.ioWrite a value]⟩
      | none => (cpuBusFault vecBus : M Unit) ⟨m.cpu, m.events ++ [Event.ioWrite a value]⟩ := by
  have h : ioWrite a value m = (match ioWriteReg m.cpu a value with
      | some s' => modifyCpu fun _ => s'
      | none => cpuBusFault vecBus) ⟨m.cpu, m.events ++ [Event.ioWrite a value]⟩ := rfl
  rw [h]
  cases ioWriteReg m.cpu a value <;> rfl

/-! ## Instructions -/

theorem core_codes {f : Cpu → Cpu} (h : ∀ s, CodesOnly s (f s)) : CoreBuilt (modifyCpu f) := by
  have hf : f = fun s => { s with regs := (f s).regs } := by
    funext s
    obtain ⟨psw, hs, -⟩ := h s
    rw [hs]
  rw [hf]
  exact .op (.regs fun s => (f s).regs)

theorem core_of_basicOp {α : Type} {x : M α} (h : BasicOp α x) : CoreBuilt x := by
  cases h with
  | get => exact .op .get
  | regs f => exact .op (.regs fun s => { s.regs with r := f s })
  | codes f hf => exact core_codes hf
  | track reg delta => exact .op (.track reg delta)
  | fp f => exact .op (.fp f)
  | extra ns h => exact .op (.extra ns h)
  | stackLimit sp => exact core_checkStackLimit sp
  | fetchWord va => exact (Built.op .get).bind fun _ => core_cpuReadWordGen _ _ _
  | readWord va => exact core_of_ref (ofRead (read_cpuReadWord va))
  | writeWord va value => exact core_of_ref (ref_cpuWriteWord va value)
  | readByte va => exact core_of_ref (ofRead (read_cpuReadByte va))
  | writeByte va value => exact core_of_ref (ref_cpuWriteByte va value)

theorem core_of_basic {α : Type} {x : M α} (h : BasicBuilt x) : CoreBuilt x :=
  h.subst core_of_basicOp

theorem core_putPsw (psw : Cpu → Word) : CoreBuilt (modifyCpu fun s => putPsw s (psw s)) := by
  have hf : (fun s => putPsw s (psw s)) = fun s => { s with regs := (putPsw s (psw s)).regs } := by
    funext s
    simp only [putPsw]
    split_ifs <;> rfl
  rw [hf]
  exact .op (.regs _)

theorem core_doTrap (vector : Word) : CoreBuilt (doTrap vector) := by
  refine (Built.op .get).bind fun _ => (Built.op (.dispatch _ _ _)).bind fun _ =>
    (core_cpuReadWordGen _ _ _).bind fun _ => (core_cpuReadWordGen _ _ _).bind fun _ =>
    (core_putPsw fun _ => _).bind fun _ => ?_
  refine (Built.op (.ctl fun s => { s.ctl with inTrapPush := true })).bind fun _ =>
    (core_of_basic (basic_pushWord _)).bind fun _ =>
    (core_of_basic (basic_pushWord _)).bind fun _ => ?_
  exact (Built.op (.ctl fun s => { s.ctl with inTrapPush := false })).bind fun _ =>
    (core_of_basic (basic_setReg _ _)).bind fun _ => (Built.op .complete).bind fun _ =>
    (Built.op .get).bind fun _ => built_whenM (core_checkStackLimit _)

theorem core_opRti (isRtt : Bool) : CoreBuilt (opRti isRtt) := by
  refine (core_of_basic basic_popWord).bind fun pc => (core_of_basic (basic_setReg _ _)).bind
    fun _ => (core_of_basic basic_popWord).bind fun psw => (core_putPsw fun _ => psw).bind fun _ => ?_
  have hf : (fun s : Cpu => if !isRtt ∧ s.regs.psw &&& pswT ≠ 0 then
      { s with ctl.tracePending := true } else s) = fun s => { s with
        ctl := if !isRtt ∧ s.regs.psw &&& pswT ≠ 0 then { s.ctl with tracePending := true }
          else s.ctl } := by
    funext s
    split <;> rfl
  rw [hf]
  exact .op (.ctl _)

theorem core_setPrevModeReg (pm cm : Mode) (reg : Field3) (value : Word) :
    CoreBuilt (modifyCpu (setPrevModeReg pm cm reg value)) := by
  have hf : setPrevModeReg pm cm reg value =
      fun s => { s with regs := (setPrevModeReg pm cm reg value s).regs } := by
    funext s
    simp only [setPrevModeReg]
    split <;> rfl
  rw [hf]
  exact .op (.regs _)

theorem core_readPrevMode (pm cm : Mode) (dspace : Bool) (src : Operand) :
    CoreBuilt (readPrevMode pm cm dspace src) := by
  cases src with
  | reg r => exact (Built.op .get).bind fun _ => .pure _
  | imm _ _ => exact core_cpuReadWordGen _ _ _
  | mem _ => exact core_cpuReadWordGen _ _ _

theorem core_writePrevMode (pm cm : Mode) (dspace : Bool) (value : Word) (dst : Operand) :
    CoreBuilt (writePrevMode pm cm dspace value dst) := by
  cases dst with
  | reg r => exact core_setPrevModeReg _ _ _ _
  | imm _ _ => exact core_cpuWriteWordMode _ _ _ _
  | mem _ => exact core_cpuWriteWordMode _ _ _ _

theorem core_opMfp (word : Word) (dspace : Bool) : CoreBuilt (opMfp word dspace) :=
  (Built.op .get).bind fun _ => (core_of_basic (basic_decodeOperand _ _)).bind fun _ =>
    (core_readPrevMode _ _ _ _).bind fun _ => (core_of_basic (basic_setNzV0 _ _)).bind fun _ =>
    core_of_basic (basic_pushWord _)

theorem core_opMtp (word : Word) (dspace : Bool) : CoreBuilt (opMtp word dspace) :=
  (Built.op .get).bind fun _ => (core_of_basic basic_popWord).bind fun _ =>
    (core_of_basic (basic_setNzV0 _ _)).bind fun _ =>
    (core_of_basic (basic_decodeOperand _ _)).bind fun _ => core_writePrevMode _ _ _ _ _

theorem core_opSpl (word : Word) : CoreBuilt (opSpl word) := by
  have hf : (fun s : Cpu => if s.mode = 0 then
      { s with regs.psw := (s.regs.psw &&& ~~~(0o340 : Word)) ||| ((word &&& 7) <<< 5) } else s) =
      fun s => { s with regs := if s.mode = 0 then
        { s.regs with psw := (s.regs.psw &&& ~~~(0o340 : Word)) ||| ((word &&& 7) <<< 5) }
        else s.regs } := by
    funext s
    split <;> rfl
  unfold opSpl
  rw [hf]
  exact .op (.regs _)

theorem core_of_userOp {α : Type} {x : M α} (h : UserOp α x) : CoreBuilt x := by
  cases h with
  | basic h => exact core_of_basicOp h
  | wait => exact .op (.ctl fun s => { s.ctl with waiting := true })
  | spl word => exact core_opSpl word
  | mfp word dspace => exact core_opMfp word dspace
  | mtp word dspace => exact core_opMtp word dspace
  | trap vector => exact core_doTrap vector

/-- Every instruction is a program over the primitive effects. -/
theorem core_execute (word : Word) : CoreBuilt (execute word) := by
  by_cases h : IsMachineWord word
  · obtain rfl | rfl | rfl | rfl := h
    · exact .op (.ctl fun s => { s.ctl with halted := true })
    · exact core_opRti false
    · exact .op .init
    · exact (Built.op .get).bind fun _ => .ite (core_opRti true) (core_doTrap _)
  · exact (user_execute h).subst core_of_userOp

/-! ## Steps -/

/-- The effects of a call of the step up to the accounting of a completed instruction. -/
inductive StepOp : (α : Type) → M α → Prop
  | core {α : Type} {x : M α} : CoreOp α x → StepOp α x
  | acknowledge (p : Pending) : StepOp Unit (modifyCpu (acknowledge p))
  | count : StepOp Unit (modifyCpu countInstr)
  | begin : StepOp Unit (modifyCpu beginInstr)
  | setjmp : StepOp Unit (emit .setjmp)

abbrev StepBuilt {α : Type} (x : M α) : Prop := Built StepOp α x

theorem ofCore {α : Type} {x : M α} (h : CoreBuilt x) : StepBuilt x :=
  h.subst fun hx => .op (.core hx)

theorem step_ctl (f : Cpu → Control) :
    StepBuilt (modifyCpu fun s => { s with ctl := f s }) := .op (.core (.ctl f))

theorem step_dispatched (p : Pending) : StepBuilt (modifyCpu (dispatched p)) := by
  cases p with
  | trace => exact step_ctl fun s => s.ctl
  | yellow => exact step_ctl fun s => { s.ctl with servicingStackTrap := false }
  | device d => exact .op .count
  | pirq => exact .op .count

theorem step_dispatchPending (p : Pending) : StepBuilt (dispatchPending p) :=
  (Built.op (.acknowledge p)).bind fun _ => (ofCore (core_doTrap _)).bind fun _ =>
    step_dispatched p

theorem step_armTrace : StepBuilt (modifyCpu armTrace) := by
  have hf : armTrace = fun s => { s with
      ctl := if s.regs.psw &&& pswT ≠ 0 then { s.ctl with tracePending := true } else s.ctl } := by
    funext s
    simp only [armTrace]
    split <;> rfl
  rw [hf]
  exact step_ctl _

theorem step_abortTrap : StepBuilt abortTrap := by
  refine (Built.op (.core .get)).bind fun _ => (ofCore (core_doTrap _)).bind fun _ => ?_
  exact (step_ctl fun s => { s.ctl with servicingStackTrap := false }).bind fun _ => .op .count

/-- An instruction up to its accounting. -/
def fetchExecute : M Word := do
  modifyCpu beginInstr
  let word ← fetch
  execute word
  pure word

theorem step_fetchExecute : StepBuilt fetchExecute :=
  (Built.op .begin).bind fun _ => (ofCore (core_of_basic basic_fetch)).bind fun _ =>
    (ofCore (core_execute _)).bind fun _ => .pure _

theorem runInstr_eq :
    runInstr = (do
      let word ← fetchExecute
      modifyCpu (finishInstr word)) := by
  simp only [runInstr, fetchExecute, bind_assoc_eq]
  rfl

/-! ## The cases of a step -/

/-- The step of a state is an instruction `word`, fetched in `m`. -/
structure Fetches (s : Cpu) (word : Word) (m : Machine) : Prop where
  running : s.ctl.halted = false
  due : pendingDispatch s = none
  active : s.ctl.waiting = false
  fetched : fetch ⟨beginInstr (armTrace s), [.setjmp]⟩ = .ok word m

section Cases

variable {s : Cpu}

theorem cpuStep_halted (h : s.ctl.halted = true) : cpuStep s = ⟨s, [], false⟩ := by
  obtain ⟨running, hs⟩ : ∃ running : M Unit,
      step ⟨s, []⟩ = (if s.ctl.halted = true then pure () else running) ⟨s, []⟩ := ⟨_, rfl⟩
  rw [cpuStep, hs, if_pos h]
  rfl

theorem step_running (h : s.ctl.halted = false) :
    step ⟨s, []⟩ = (match pendingDispatch s with
      | some p => dispatchPending p
      | none => if s.ctl.waiting = true then modifyCpu idleSkip else stepInstr) ⟨s, []⟩ := by
  have hs : step ⟨s, []⟩ = (if s.ctl.halted = true then pure () else
      match pendingDispatch s with
      | some p => dispatchPending p
      | none => if s.ctl.waiting = true then modifyCpu idleSkip else stepInstr) ⟨s, []⟩ := rfl
  rw [hs, h, if_neg Bool.false_ne_true]

theorem cpuStep_dispatch {p : Pending} (h : s.ctl.halted = false)
    (hp : pendingDispatch s = some p) : cpuStep s = stepResult (dispatchPending p ⟨s, []⟩) := by
  rw [cpuStep, step_running h, hp]

theorem cpuStep_idle (h : s.ctl.halted = false) (hp : pendingDispatch s = none)
    (hw : s.ctl.waiting = true) : cpuStep s = ⟨idleSkip s, [], false⟩ := by
  rw [cpuStep, step_running h, hp]
  simp only [hw, if_true]
  rfl

theorem cpuStep_instr (h : s.ctl.halted = false) (hp : pendingDispatch s = none)
    (hw : s.ctl.waiting = false) : cpuStep s = stepResult (stepInstr ⟨s, []⟩) := by
  rw [cpuStep, step_running h, hp]
  simp only [hw, Bool.false_eq_true, if_false]

/-- The machine an instruction starts from. -/
def instrStart (s : Cpu) : Machine := ⟨armTrace s, [.setjmp]⟩

theorem finishInstr_kept (word : Word) (t : Cpu) :
    (finishInstr word t).regs = t.regs ∧ (finishInstr word t).ctl = t.ctl := by
  unfold finishInstr
  rw [serviceDueEvents_rest]
  exact ⟨rfl, rfl⟩

theorem begin_kept (s : Cpu) : (beginInstr (armTrace s)).mem = s.mem ∧
    (beginInstr (armTrace s)).regs = s.regs ∧ (beginInstr (armTrace s)).dev = s.dev := by
  unfold beginInstr armTrace
  dsimp only
  split_ifs <;> exact ⟨rfl, rfl, rfl⟩

theorem fetchExecute_ok {word : Word} {m : Machine}
    (hx : fetchExecute (instrStart s) = .ok word m) :
    ∃ m₁, fetch ⟨beginInstr (armTrace s), [.setjmp]⟩ = .ok word m₁ ∧ execute word m₁ = .ok () m := by
  have h : fetchExecute (instrStart s) = (do
      let word ← fetch
      execute word
      pure word : M Word) ⟨beginInstr (armTrace s), [.setjmp]⟩ := rfl
  rw [h, bind_eq_ok] at hx
  obtain ⟨w, m1, hfetch, hx⟩ := hx
  obtain ⟨_, m2, hex, hx⟩ := bind_eq_ok.1 hx
  cases hx
  exact ⟨m1, hfetch, hex⟩

/-- An instruction that runs to its end. -/
theorem stepInstr_complete {word : Word} {m : Machine}
    (h : fetchExecute (instrStart s) = .ok word m) :
    stepInstr ⟨s, []⟩ = .ok () ⟨finishInstr word m.cpu, m.events⟩ := by
  have hi : stepInstr ⟨s, []⟩ = catchFault runInstr (abortHandler 9) (instrStart s) := rfl
  rw [hi, catchFault, runInstr_eq, bind_ok h]
  rfl

/-- An instruction that aborts. -/
theorem stepInstr_abort {m : Machine} (h : fetchExecute (instrStart s) = .error () m) :
    stepInstr ⟨s, []⟩ = abortHandler 9 m := by
  have hi : stepInstr ⟨s, []⟩ = catchFault runInstr (abortHandler 9) (instrStart s) := rfl
  rw [hi, catchFault, runInstr_eq, bind_error h]

end Cases

section Outcome

variable {R : Machine → Machine → Prop}

theorem catchFault_respects (htrans : ∀ s t u, R s t → R t u → R s u) {act handler : M Unit}
    (ha : Respects R act) (hh : Respects R handler) : Respects R (catchFault act handler) := by
  intro m
  simp only [catchFault]
  cases h : act m with
  | ok a m' => exact ha.of_ok h
  | error e m' => exact htrans _ _ _ (ha.of_error h) (hh m')

/-- The handler respects what its flags and its traps respect. -/
theorem abortHandler_respects_of (hrefl : ∀ s, R s s) (htrans : ∀ s t u, R s t → R t u → R s u)
    (hctl : ∀ f : Cpu → Control, Respects R (modifyCpu fun s => { s with ctl := f s }))
    (habort : Respects R abortTrap) (fuel : ℕ) : Respects R (abortHandler fuel) := by
  induction fuel with
  | zero => exact respects_pure hrefl ()
  | succ fuel ih =>
    have hget : Respects R getCpu := hrefl
    refine (hctl fun s => { s.ctl with abortDepth := s.ctl.abortDepth + 1 }).bind htrans
      fun _ => hget.bind htrans fun s => ?_
    split
    · exact hctl fun s => { s.ctl with halted := true }
    · exact catchFault_respects htrans habort ih

theorem abortHandler_respects (hrefl : ∀ s, R s s) (htrans : ∀ s t u, R s t → R t u → R s u)
    (hop : ∀ {α : Type} {x : M α}, StepOp α x → Respects R x) (fuel : ℕ) :
    Respects R (abortHandler fuel) := by
  have built {α : Type} {x : M α} (h : StepBuilt x) : Respects R x := h.respects hrefl htrans hop
  exact abortHandler_respects_of hrefl htrans (fun f => built (step_ctl f)) (built step_abortTrap)
    fuel

/-- A call of the step by cases: it finds the machine halted, dispatches, idles, completes an
instruction, or enters the handler after an abort. -/
theorem cpuStep_cases {Q : Machine → Prop} (s : Cpu) (hhalted : s.ctl.halted = true → Q ⟨s, []⟩)
    (hdispatch : ∀ p, pendingDispatch s = some p → Q (final (dispatchPending p ⟨s, []⟩)))
    (hidle : s.ctl.waiting = true → Q ⟨idleSkip s, []⟩)
    (hok : ∀ word m, fetchExecute (instrStart s) = .ok word m →
      Q ⟨finishInstr word m.cpu, m.events⟩)
    (herror : ∀ m, fetchExecute (instrStart s) = .error () m → Q (final (abortHandler 9 m))) :
    Q ⟨(cpuStep s).cpu, (cpuStep s).events⟩ := by
  have hfinal (r : EStateM.Result Unit Machine Unit) (h : Q (final r)) :
      Q ⟨(stepResult r).cpu, (stepResult r).events⟩ := by
    cases r <;> exact h
  cases hh : s.ctl.halted with
  | true =>
    rw [cpuStep_halted hh]
    exact hhalted hh
  | false =>
  cases hp : pendingDispatch s with
  | some p =>
    rw [cpuStep_dispatch hh hp]
    exact hfinal _ (hdispatch p hp)
  | none =>
  cases hw : s.ctl.waiting with
  | true =>
    rw [cpuStep_idle hh hp hw]
    exact hidle hw
  | false =>
    rw [cpuStep_instr hh hp hw]
    refine hfinal _ ?_
    cases hx : fetchExecute (instrStart s) with
    | ok word m =>
      rw [stepInstr_complete hx]
      exact hok word m hx
    | error e m =>
      rw [stepInstr_abort hx]
      exact herror m hx

/-- Where a call of the step can lead: along the effects of its parts, then, if an instruction
ran to its end, through the accounting of that instruction; or over an idle skip. -/
theorem cpuStep_outcome (hrefl : ∀ s, R s s) (htrans : ∀ s t u, R s t → R t u → R s u)
    (hop : ∀ {α : Type} {x : M α}, StepOp α x → Respects R x) (s : Cpu) :
    R ⟨s, []⟩ ⟨(cpuStep s).cpu, (cpuStep s).events⟩ ∨
      (∃ m word, R ⟨s, []⟩ m ∧ (cpuStep s).cpu = finishInstr word m.cpu ∧
        (cpuStep s).events = m.events) ∨
      ((cpuStep s).cpu = idleSkip s ∧ (cpuStep s).events = []) := by
  have built {α : Type} {x : M α} (h : StepBuilt x) : Respects R x := h.respects hrefl htrans hop
  have hstart : R ⟨s, []⟩ (instrStart s) := htrans _ ⟨armTrace s, []⟩ _
    (built step_armTrace ⟨s, []⟩) (built (.op .setjmp) ⟨armTrace s, []⟩)
  have hf := built step_fetchExecute (instrStart s)
  let Q : Machine → Prop := fun m => R ⟨s, []⟩ m ∨
    (∃ m' word, R ⟨s, []⟩ m' ∧ m.cpu = finishInstr word m'.cpu ∧ m.events = m'.events) ∨
    (m.cpu = idleSkip s ∧ m.events = [])
  refine cpuStep_cases (Q := Q) s ?_ ?_ ?_ ?_ ?_
  · exact fun _ => .inl (hrefl _)
  · exact fun p _ => .inl (built (step_dispatchPending p) ⟨s, []⟩)
  · exact fun _ => .inr (.inr ⟨rfl, rfl⟩)
  · intro word m hx
    rw [hx] at hf
    exact .inr (.inl ⟨m, word, htrans _ _ _ hstart hf, rfl, rfl⟩)
  · intro m hx
    rw [hx] at hf
    exact .inl (htrans _ _ _ hstart (htrans _ _ _ hf (abortHandler_respects hrefl htrans hop 9 m)))

end Outcome

end Pdp11
