import Pdp11.Registers

namespace Pdp11

open FaultState

/-! Instructions that run to their end, and the operands they read. -/

/-- A step that fetches `word` and completes it, from machine `m` after the fetch to `m'`. -/
structure Executed (s : Cpu) (word : Word) (m m' : Machine) : Prop where
  running : s.ctl.halted = false
  due : pendingDispatch s = none
  active : s.ctl.waiting = false
  fetched : fetch ⟨beginInstr (armTrace s), [.setjmp]⟩ = .ok word m
  executed : execute word m = .ok () m'

/-! ## What reading operands keeps -/

/-- The program status and the freeze of its codes stay as they were. -/
structure StatusKept (s s' : Cpu) : Prop where
  psw : s'.regs.psw = s.regs.psw
  frozen : s'.ctl.ccFrozen = s.ctl.ccFrozen
  cfg : s'.cfg = s.cfg

namespace StatusKept

variable {s t u : Cpu}

theorem refl (s : Cpu) : StatusKept s s := ⟨rfl, rfl, rfl⟩

theorem trans (h : StatusKept s t) (h' : StatusKept t u) : StatusKept s u :=
  ⟨h'.psw.trans h.psw, h'.frozen.trans h.frozen, h'.cfg.trans h.cfg⟩

theorem mode (h : StatusKept s t) : t.mode = s.mode := congrArg curMode h.psw

end StatusKept

theorem status_read {α : Type} {x : M α} (h : ReadBuilt x) :
    Respects (fun m m' => StatusKept m.cpu m'.cpu) x := by
  intro m
  have hk := (read_kept h m).rest
  constructor <;> rw [hk]

theorem status_stackLimit (sp : Word) :
    Respects (fun m m' => StatusKept m.cpu m'.cpu) (checkStackLimit sp) := by
  intro m
  rw [checkStackLimit_apply]
  cases stackZone m.cpu sp <;> exact ⟨rfl, rfl, rfl⟩

theorem status_operand {α : Type} {x : M α} (h : OperandBuilt x) :
    Respects (fun m m' => StatusKept m.cpu m'.cpu) x := by
  refine h.respects (fun m => .refl m.cpu) (fun _ _ _ h h' => h.trans h') ?_
  intro α x hx
  cases hx with
  | get => exact fun m => .refl m.cpu
  | regs f => exact fun m => ⟨rfl, rfl, rfl⟩
  | track reg delta =>
    intro m
    show StatusKept m.cpu (mmr1Track reg delta m.cpu)
    unfold mmr1Track
    split <;> exact ⟨rfl, rfl, rfl⟩
  | stackLimit sp => exact status_stackLimit sp
  | fetchWord va =>
    intro m
    exact status_read (read_cpuReadWordGen va m.cpu.mode false) m
  | readWord va => exact status_read (read_cpuReadWord va)
  | readByte va => exact status_read (read_cpuReadByte va)

theorem status_begin (s : Cpu) :
    (beginInstr (armTrace s)).regs.psw = s.regs.psw ∧
      (beginInstr (armTrace s)).ctl.ccFrozen = false ∧ (beginInstr (armTrace s)).cfg = s.cfg := by
  unfold beginInstr armTrace
  dsimp only
  split_ifs <;> exact ⟨rfl, rfl, rfl⟩

/-! ## What stores keep -/

/-- A register write keeps the registers and the control flags, or it is an explicit store to the
PSW. -/
theorem ioWriteReg_psw {s t : Cpu} {a value : Word} (h : ioWriteReg s a value = some t) :
    (a = iopagePsw ∧ t = pswWrite s value) ∨ (t.regs = s.regs ∧ t.ctl = s.ctl) := by
  have hite {c : Prop} [Decidable c] {x y : Option Cpu}
      (hx : c → x = some t → (a = iopagePsw ∧ t = pswWrite s value) ∨
        (t.regs = s.regs ∧ t.ctl = s.ctl))
      (hy : y = some t → (a = iopagePsw ∧ t = pswWrite s value) ∨
        (t.regs = s.regs ∧ t.ctl = s.ctl)) :
      (if c then x else y) = some t → (a = iopagePsw ∧ t = pswWrite s value) ∨
        (t.regs = s.regs ∧ t.ctl = s.ctl) := by
    by_cases hc : c
    · rw [if_pos hc]
      exact hx hc
    · rw [if_neg hc]
      exact hy
  have hsome {u : Cpu} (hregs : u.regs = s.regs) (hctl : u.ctl = s.ctl) : some u = some t →
      (a = iopagePsw ∧ t = pswWrite s value) ∨ (t.regs = s.regs ∧ t.ctl = s.ctl) := by
    rintro ⟨⟩
    exact .inr ⟨hregs, hctl⟩
  have hsame {c : Prop} {u : Cpu} (hregs : u.regs = s.regs) (hctl : u.ctl = s.ctl) (_ : c) :=
    hsome hregs hctl
  have hdevice {c : Prop} {u : Cpu} (hu : DeviceStep s u) (_ : c) :=
    hsome (u := u) (by rw [hu.rest]) (by rw [hu.rest])
  have hpsw (ha : a = iopagePsw) : some (pswWrite s value) = some t →
      (a = iopagePsw ∧ t = pswWrite s value) ∨ (t.regs = s.regs ∧ t.ctl = s.ctl) := by
    rintro ⟨⟩
    exact .inl ⟨ha, rfl⟩
  have hr := DeviceStep.refl s
  revert h
  unfold ioWriteReg
  -- in the order of the bus decoder, the PSW second
  refine hite (hsame rfl rfl) <| hite hpsw <| hite (hsame rfl rfl) <| hite (hsame rfl rfl) <|
    hite (hsame rfl rfl) <| hite (hdevice (clkWrite_step hr value)) <|
    hite (hdevice (consoleWrite_step hr a value)) <| hite (hdevice (rkWrite_step hr a value)) <|
    hite (hdevice (tmWrite_step hr a value)) <| hite (hdevice (rlWrite_step hr a value)) <|
    hite (hdevice (rxWrite_step hr a value)) <| hite (hdevice (rpWrite_step hr a value)) ?_
  cases aprIndex a with
  | some p =>
    refine hsome ?_ ?_ <;> unfold aprWrite <;> split <;> rfl
  | none =>
    unfold sysregWrite
    refine hite (fun _ => by rintro ⟨⟩) (hite (hsame rfl rfl) (hite (fun _ => ?_) (by rintro ⟨⟩)))
    split
    case h_13 => rintro ⟨⟩
    all_goals exact hsome rfl rfl

/-- The program status stays unless the store was to the PSW, which freezes the codes. -/
structure StatusStored (s s' : Cpu) : Prop where
  frozen : s.ctl.ccFrozen = true → s'.ctl.ccFrozen = true
  psw : s'.ctl.ccFrozen = true ∨ s'.regs.psw = s.regs.psw

namespace StatusStored

variable {s t u : Cpu}

theorem of_kept (h : StatusKept s t) : StatusStored s t := ⟨fun hf => h.frozen.trans hf, .inr h.psw⟩

theorem trans (h : StatusStored s t) (h' : StatusStored t u) : StatusStored s u where
  frozen hf := h'.frozen (h.frozen hf)
  psw := by
    obtain hf | hp' := h'.psw
    · exact .inl hf
    · obtain hf | hp := h.psw
      · exact .inl (h'.frozen hf)
      · exact .inr (hp'.trans hp)

end StatusStored

theorem status_ref {α : Type} {x : M α} (h : RefBuilt x) :
    Respects (fun m m' => StatusStored m.cpu m'.cpu) x := by
  refine h.respects (fun m => .of_kept (.refl m.cpu)) (fun _ _ _ h h' => h.trans h') ?_
  intro α x hx m
  cases hx with
  | read hx => exact .of_kept (status_read (.op hx) m)
  | ioWrite a value =>
    rw [ioWrite_apply]
    cases h : ioWriteReg m.cpu a value with
    | none => exact .of_kept ⟨rfl, rfl, rfl⟩
    | some t =>
      obtain ⟨-, rfl⟩ | ⟨hregs, hctl⟩ := ioWriteReg_psw h
      · exact ⟨fun _ => rfl, .inl rfl⟩
      · refine ⟨fun hf => ?_, .inr ?_⟩
        · show t.ctl.ccFrozen = true
          rw [hctl, hf]
        · show t.regs.psw = m.cpu.regs.psw
          rw [hregs]
  | mem f => exact .of_kept ⟨rfl, rfl, rfl⟩

theorem status_writeOperand (op : Operand) (bytemode : Bool) (value : Word) :
    Respects (fun m m' => StatusStored m.cpu m'.cpu) (writeOperand op bytemode value) := by
  cases op with
  | reg r => cases bytemode <;> exact fun m => .of_kept ⟨rfl, rfl, rfl⟩
  | imm v addr =>
    cases bytemode
    · exact status_ref (ref_cpuWriteWord addr value)
    · exact status_ref (ref_cpuWriteByte addr (value.setWidth 8))
  | mem addr =>
    cases bytemode
    · exact status_ref (ref_cpuWriteWord addr value)
    · exact status_ref (ref_cpuWriteByte addr (value.setWidth 8))

/-! ## The step -/

namespace Executed

variable {s : Cpu} {word : Word} {m m' : Machine}

/-- An instruction starts with its codes free, and with the status of the step. -/
theorem start (h : Executed s word m m') :
    m.cpu.regs.psw = s.regs.psw ∧ m.cpu.ctl.ccFrozen = false ∧ m.cpu.cfg = s.cfg := by
  have hk := (status_operand operand_fetch).of_ok h.fetched
  obtain ⟨hpsw, hfrozen, hcfg⟩ := status_begin s
  exact ⟨hk.psw.trans hpsw, hk.frozen.trans hfrozen, hk.cfg.trans hcfg⟩

/-- The step is the instruction and its accounting. -/
theorem step (h : Executed s word m m') :
    Pdp11.cpuStep s = ⟨finishInstr word m'.cpu, m'.events, false⟩ := by
  have hrun : fetchExecute (instrStart s) = .ok word m' := by
    have hf : fetchExecute (instrStart s) = (do
        let word ← fetch
        execute word
        pure word : M Word) ⟨beginInstr (armTrace s), [.setjmp]⟩ := rfl
    rw [hf, bind_ok h.fetched, bind_ok h.executed]
    rfl
  rw [cpuStep_instr h.running h.due h.active, stepInstr_complete hrun]
  rfl

theorem cpuStep (h : Executed s word m m') : (cpuStep s).cpu = finishInstr word m'.cpu := by
  rw [h.step]

/-- The accounting changes no register and no status. -/
theorem regs (h : Executed s word m m') : (Pdp11.cpuStep s).cpu.regs = m'.cpu.regs := by
  rw [h.cpuStep, (finishInstr_kept word m'.cpu).1]

end Executed

end Pdp11
