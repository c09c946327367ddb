import Pdp11.Arbitration

namespace Pdp11

open FaultState

/-! The control flags no instruction but HALT, WAIT and RTI changes. -/

/-- The processor runs or waits as before, with the same trace trap and depth of aborts. -/
structure FlagsKept (s s' : Cpu) : Prop where
  halted : s'.ctl.halted = s.ctl.halted
  waiting : s'.ctl.waiting = s.ctl.waiting
  trace : s'.ctl.tracePending = s.ctl.tracePending
  depth : s'.ctl.abortDepth = s.ctl.abortDepth

namespace FlagsKept

variable {s t u : Cpu}

theorem refl (s : Cpu) : FlagsKept s s := ⟨rfl, rfl, rfl, rfl⟩

theorem trans (h : FlagsKept s t) (h' : FlagsKept t u) : FlagsKept s u :=
  ⟨h'.halted.trans h.halted, h'.waiting.trans h.waiting, h'.trace.trans h.trace,
    h'.depth.trans h.depth⟩

theorem of_ctl (h : t.ctl = s.ctl) : FlagsKept s t := by
  constructor <;> rw [h]

end FlagsKept

/-- Every run of a program keeps the flags. -/
abbrev KeepsFlags {α : Type} (x : M α) : Prop := Respects (fun m m' => FlagsKept m.cpu m'.cpu) x

section
variable {α β : Type} {x : M α}

theorem KeepsFlags.bind {f : α → M β} (hx : KeepsFlags x) (hf : ∀ a, KeepsFlags (f a)) :
    KeepsFlags (x >>= f) := Respects.bind (fun _ _ _ h h' => h.trans h') hx hf

theorem keepsFlags_pure (a : α) : KeepsFlags (pure a : M α) := fun m => .refl m.cpu

theorem keepsFlags_get : KeepsFlags getCpu := fun m => .refl m.cpu

theorem keepsFlags_modify {f : Cpu → Cpu} (hf : ∀ s, FlagsKept s (f s)) :
    KeepsFlags (modifyCpu f) := fun m => hf m.cpu

theorem keepsFlags_fault (vector : Word) : KeepsFlags (cpuBusFault vector : M α) :=
  fun _ => ⟨rfl, rfl, rfl, rfl⟩

/-- Programs over effects that keep the flags keep them. -/
theorem keepsFlags_built {P : (α : Type) → M α → Prop}
    (hop : ∀ {α : Type} {x : M α}, P α x → KeepsFlags x) (hx : Built P α x) : KeepsFlags x :=
  hx.respects (fun m => .refl m.cpu) (fun _ _ _ h h' => h.trans h') fun h => hop h

theorem keepsFlags_refOp (hx : RefOp α x) : KeepsFlags x := by
  cases hx with
  | read h =>
    cases h with
    | get => exact keepsFlags_get
    | fault vector => exact keepsFlags_fault vector
    | capture idx err _ =>
      refine keepsFlags_modify fun s => .of_ctl ?_
      unfold captureMmu
      split <;> rfl
    | mark idx isWrite => exact keepsFlags_modify fun s => .of_ctl rfl
    | ioRead a =>
      intro m
      rw [ioRead_apply]
      cases hp : ioReadReg m.cpu a with
      | none => exact keepsFlags_fault (α := Word) vecBus m
      | some p => exact .of_ctl (by rw [final_ok, (ioReadReg_step m.cpu a p hp).1.rest])
    | cache pa => exact keepsFlags_modify fun s => .of_ctl rfl
  | ioWrite a value =>
    intro m
    rw [ioWrite_apply]
    cases hs : ioWriteReg m.cpu a value with
    | none => exact keepsFlags_fault (α := Unit) vecBus ⟨m.cpu, _⟩
    | some t =>
      show FlagsKept m.cpu t
      have hctl := (ioWriteReg_step m.cpu a value t hs).1.ctl
      constructor <;> rw [hctl]
  | mem f => exact keepsFlags_modify fun s => .of_ctl rfl

theorem keepsFlags_ref (hx : RefBuilt x) : KeepsFlags x := keepsFlags_built keepsFlags_refOp hx

theorem keepsFlags_stackLimit (sp : Word) : KeepsFlags (checkStackLimit sp) := by
  intro m
  rw [checkStackLimit_apply]
  cases stackZone m.cpu sp <;> exact ⟨rfl, rfl, rfl, rfl⟩

theorem keepsFlags_basicOp (hx : BasicOp α x) : KeepsFlags x := by
  cases hx with
  | get => exact keepsFlags_get
  | regs f => exact keepsFlags_modify fun s => .of_ctl rfl
  | codes f hf =>
    refine keepsFlags_modify fun s => .of_ctl ?_
    obtain ⟨psw, hs, -⟩ := hf s
    rw [hs]
  | track reg delta =>
    refine keepsFlags_modify fun s => .of_ctl ?_
    unfold mmr1Track
    split <;> rfl
  | fp f => exact keepsFlags_modify fun s => .of_ctl rfl
  | extra ns _ => exact keepsFlags_modify fun s => .of_ctl rfl
  | stackLimit sp => exact keepsFlags_stackLimit sp
  | fetchWord va =>
    intro m
    exact keepsFlags_ref (ofRead (read_cpuReadWordGen va m.cpu.mode false)) m
  | readWord va => exact keepsFlags_ref (ofRead (read_cpuReadWord va))
  | writeWord va value => exact keepsFlags_ref (ref_cpuWriteWord va value)
  | readByte va => exact keepsFlags_ref (ofRead (read_cpuReadByte va))
  | writeByte va value => exact keepsFlags_ref (ref_cpuWriteByte va value)

theorem keepsFlags_basic (hx : BasicBuilt x) : KeepsFlags x :=
  keepsFlags_built keepsFlags_basicOp hx

end

/-! ## Traps and instructions -/

theorem keepsFlags_putPsw (psw : Cpu → Word) : KeepsFlags (modifyCpu fun s => putPsw s (psw s)) := by
  refine keepsFlags_modify fun s => .of_ctl ?_
  rw [putPsw_eq]

theorem keepsFlags_doTrap (vector : Word) : KeepsFlags (doTrap vector) := by
  have hread (va : Word) : KeepsFlags (cpuReadWordGen va 0 true) :=
    keepsFlags_ref (ofRead (read_cpuReadWordGen va 0 true))
  have hpush (value : Word) : KeepsFlags (pushWord value) := keepsFlags_basic (basic_pushWord value)
  have hctl (b : Bool) : KeepsFlags (modifyCpu fun s => { s with ctl.inTrapPush := b }) :=
    keepsFlags_modify fun _ => ⟨rfl, rfl, rfl, rfl⟩
  have hlog (e : Event) : KeepsFlags (emit e) := fun m => .refl m.cpu
  have hcomplete : KeepsFlags (modifyCpu fun s => { s with mmu.mmr0 := s.mmu.mmr0 ||| mmr0Ic }) :=
    keepsFlags_modify fun _ => .of_ctl rfl
  refine keepsFlags_get.bind fun s => (hlog _).bind fun _ => (hread _).bind fun newPc =>
    (hread _).bind fun newPsw => (keepsFlags_putPsw fun _ => _).bind fun _ =>
    (hctl true).bind fun _ => (hpush _).bind fun _ => (hpush _).bind fun _ =>
    (hctl false).bind fun _ => ?_
  refine (keepsFlags_basic (basic_setReg _ _)).bind fun _ => hcomplete.bind fun _ =>
    keepsFlags_get.bind fun t => ?_
  unfold whenM
  split
  · exact keepsFlags_stackLimit _
  · exact keepsFlags_pure ()

theorem keepsFlags_opMfp (word : Word) (dspace : Bool) : KeepsFlags (opMfp word dspace) := by
  refine keepsFlags_get.bind fun s =>
    (keepsFlags_basic (basic_decodeOperand _ _)).bind fun src => ?_
  refine KeepsFlags.bind ?_ fun v => (keepsFlags_basic (basic_setNzV0 _ _)).bind fun _ =>
    keepsFlags_basic (basic_pushWord _)
  cases src with
  | reg r => exact keepsFlags_get.bind fun _ => keepsFlags_pure _
  | imm v a => exact keepsFlags_ref (ofRead (read_cpuReadWordGen _ _ _))
  | mem a => exact keepsFlags_ref (ofRead (read_cpuReadWordGen _ _ _))

theorem keepsFlags_opMtp (word : Word) (dspace : Bool) : KeepsFlags (opMtp word dspace) := by
  refine keepsFlags_get.bind fun s => (keepsFlags_basic basic_popWord).bind fun v =>
    (keepsFlags_basic (basic_setNzV0 _ _)).bind fun _ =>
    (keepsFlags_basic (basic_decodeOperand _ _)).bind fun dst => ?_
  cases dst with
  | reg r =>
    refine keepsFlags_modify fun t => .of_ctl ?_
    unfold setPrevModeReg
    split <;> rfl
  | imm v a => exact keepsFlags_ref (ref_cpuWriteWordMode _ _ _ _)
  | mem a => exact keepsFlags_ref (ref_cpuWriteWordMode _ _ _ _)

theorem keepsFlags_activeOp {α : Type} {x : M α} (hx : ActiveOp α x) : KeepsFlags x := by
  cases hx with
  | basic h => exact keepsFlags_basicOp h
  | spl word =>
    refine keepsFlags_modify fun s => .of_ctl ?_
    split <;> rfl
  | mfp word dspace => exact keepsFlags_opMfp word dspace
  | mtp word dspace => exact keepsFlags_opMtp word dspace
  | trap vector => exact keepsFlags_doTrap vector

/-- The words of the instructions that change the flags: HALT, WAIT, RTI, RESET and RTT. -/
theorem keepsFlags_execute {word : Word} (h : ¬IsMachineWord word) (h1 : word ≠ 1) :
    KeepsFlags (execute word) := keepsFlags_built keepsFlags_activeOp (active_execute h h1)

theorem keepsFlags_fetch : KeepsFlags fetch := keepsFlags_basic basic_fetch

/-! ## Every instruction -/

/-- The flags after a completed instruction: HALT halts, WAIT waits, RTI arms a trace trap if the
PSW it restores has T set, and nothing else does any of it. -/
structure FlagsAfter (word : Word) (s s' : Cpu) : Prop where
  halted : word ≠ 0 → s'.ctl.halted = s.ctl.halted
  waiting : word ≠ 1 → s'.ctl.waiting = s.ctl.waiting
  armed : word = 2 → s'.regs.psw &&& pswT ≠ 0 → s'.ctl.tracePending = true
  trace : ¬(word = 2 ∧ s'.regs.psw &&& pswT ≠ 0) → s'.ctl.tracePending = s.ctl.tracePending
  depth : s'.ctl.abortDepth = s.ctl.abortDepth

theorem FlagsKept.after {word : Word} {s s' : Cpu} (h : FlagsKept s s') (h2 : word ≠ 2) :
    FlagsAfter word s s' :=
  ⟨fun _ => h.halted, fun _ => h.waiting, fun hw => absurd hw h2, fun _ => h.trace, h.depth⟩

/-- RTI and RTT up to the trace trap they may arm. -/
def rtiLoad : M Unit := do
  let pc ← popWord
  setReg regPc pc
  let psw ← popWord
  modifyCpu fun s => putPsw s psw

theorem opRti_eq (isRtt : Bool) :
    opRti isRtt = (do
      rtiLoad
      modifyCpu (rtiTrace isRtt)) := by
  simp only [rtiLoad, bind_assoc_eq]
  rfl

theorem keepsFlags_rtiLoad : KeepsFlags rtiLoad :=
  (keepsFlags_basic basic_popWord).bind fun _ => (keepsFlags_basic (basic_setReg _ _)).bind fun _ =>
    (keepsFlags_basic basic_popWord).bind fun psw => keepsFlags_putPsw fun _ => psw

/-- The last step of RTI and RTT cannot abort. -/
theorem opRti_error (isRtt : Bool) {m m' : Machine} (h : opRti isRtt m = .error () m') :
    FlagsKept m.cpu m'.cpu := by
  rw [opRti_eq, bind_eq_error] at h
  obtain h | ⟨_, m1, -, h⟩ := h
  · exact keepsFlags_rtiLoad.of_error h
  · cases h

theorem opRti_ok (isRtt : Bool) {m m' : Machine} (h : opRti isRtt m = .ok () m') :
    ∃ m₁, rtiLoad m = .ok () m₁ ∧ FlagsKept m.cpu m₁.cpu ∧ m'.cpu = rtiTrace isRtt m₁.cpu := by
  rw [opRti_eq] at h
  obtain ⟨⟨⟩, m1, hload, h⟩ := bind_eq_ok.1 h
  cases h
  exact ⟨m1, hload, keepsFlags_rtiLoad.of_ok hload, rfl⟩

theorem execute_rtt (m : Machine) :
    execute 6 m = if m.cpu.cfg.hasRtt then opRti true m else doTrap vecReserved m := by
  have h : execute 6 m = (if m.cpu.cfg.hasRtt then opRti true else doTrap vecReserved : M Unit) m :=
    rfl
  rw [h]
  split <;> rfl

/-- An instruction that aborts has changed no flag. -/
theorem execute_error {word : Word} {m m' : Machine} (h : execute word m = .error () m') :
    FlagsKept m.cpu m'.cpu := by
  by_cases hm : IsMachineWord word
  · obtain rfl | rfl | rfl | rfl := hm
    · cases h
    · exact opRti_error false h
    · cases h
    · rw [execute_rtt] at h
      split at h
      · exact opRti_error true h
      · exact (keepsFlags_doTrap vecReserved).of_error h
  · by_cases h1 : word = 1
    · subst h1
      cases h
    · exact (keepsFlags_execute hm h1).of_error h

theorem execute_ok {word : Word} {m m' : Machine} (h : execute word m = .ok () m') :
    FlagsAfter word m.cpu m'.cpu := by
  by_cases hm : IsMachineWord word
  · obtain rfl | rfl | rfl | rfl := hm
    · cases h
      exact ⟨fun h0 => absurd rfl h0, fun _ => rfl, fun h2 => absurd h2 (by decide), fun _ => rfl, rfl⟩
    · obtain ⟨m1, -, hk, hm'⟩ := opRti_ok false h
      rw [hm']
      unfold rtiTrace
      by_cases ht : m1.cpu.regs.psw &&& pswT ≠ 0
      · rw [if_pos ⟨rfl, ht⟩]
        exact ⟨fun _ => hk.halted, fun _ => hk.waiting, fun _ _ => rfl,
          fun hn => absurd ⟨rfl, ht⟩ hn, hk.depth⟩
      · rw [if_neg fun hc => ht hc.2]
        exact ⟨fun _ => hk.halted, fun _ => hk.waiting, fun _ hs => absurd hs ht,
          fun _ => hk.trace, hk.depth⟩
    · cases h
      exact FlagsKept.after (.of_ctl rfl) (by decide)
    · rw [execute_rtt] at h
      split at h
      · obtain ⟨m1, -, hk, hm'⟩ := opRti_ok true h
        have hsame : rtiTrace true m1.cpu = m1.cpu := if_neg fun hc => Bool.false_ne_true hc.1
        rw [hm', hsame]
        exact hk.after (by decide)
      · exact ((keepsFlags_doTrap vecReserved).of_ok h).after (by decide)
  · have h2 : word ≠ 2 := fun h2 => hm (.inr (.inl h2))
    by_cases h1 : word = 1
    · subst h1
      cases h
      exact ⟨fun _ => rfl, fun h1 => absurd rfl h1, fun h2 => absurd h2 (by decide), fun _ => rfl, rfl⟩
    · exact ((keepsFlags_execute hm h1).of_ok h).after h2

/-! ## The instruction of a step -/

theorem beginInstr_ctl (s : Cpu) :
    (beginInstr s).ctl = { s.ctl with abortDepth := 0, ccFrozen := false } := by
  unfold beginInstr
  dsimp only
  split <;> rfl

/-- An instruction begins with its depth of aborts at zero, and with a trace trap pending if T is
set going in. -/
theorem begin_flags (s : Cpu) :
    (beginInstr (armTrace s)).ctl.halted = s.ctl.halted ∧
      (beginInstr (armTrace s)).ctl.waiting = s.ctl.waiting ∧
      (beginInstr (armTrace s)).ctl.tracePending =
        (if s.regs.psw &&& pswT ≠ 0 then true else s.ctl.tracePending) ∧
      (beginInstr (armTrace s)).ctl.abortDepth = 0 := by
  rw [beginInstr_ctl]
  unfold armTrace
  split <;> exact ⟨rfl, rfl, rfl, rfl⟩

/-- A fault leaves the flags the instruction began with. -/
theorem fetchExecute_error {s : Cpu} {m : Machine}
    (h : fetchExecute (instrStart s) = .error () m) :
    FlagsKept (beginInstr (armTrace s)) m.cpu := by
  have hrun : fetchExecute (instrStart s) = (do
      let word ← fetch
      execute word
      pure word : M Word) ⟨beginInstr (armTrace s), [.setjmp]⟩ := rfl
  rw [hrun, bind_eq_error] at h
  obtain h | ⟨word, m1, hfetch, h⟩ := h
  · exact keepsFlags_fetch.of_error h
  · obtain h | ⟨_, m2, -, h⟩ := bind_eq_error.1 h
    · exact (keepsFlags_fetch.of_ok hfetch).trans (execute_error h)
    · cases h

end Pdp11
