import Pdp11.Lib.Lockstep
import Pdp11.Registers
import Pdp11.StackLimit

namespace Pdp11

open FaultState Lockstep

/-! The two operand decoders, the integer and the floating one, side by side. -/

/-- Two resolved operands load from one place and store to one place. -/
def SamePlace (o : FpOp) (op : Operand) : Prop :=
  o.addr = op.addr ∧
    match o, op with
    | .reg r, .reg r' => r = r'
    | .imm value, .imm value' _ => value = value'
    | .mem _, .mem _ => True
    | _, _ => False

/-- `decode_operand` for a word, with another autoincrement and autodecrement step. -/
def decodeStepped (step : Word) (spec : BitVec 6) : M Operand :=
  let mode : Field3 := spec.extractLsb' 3 3
  let reg : Field3 := spec.extractLsb' 0 3
  if mode = 2 ∧ reg ≠ regPc then do
    let addr ← getReg reg
    addReg reg step
    modifyCpu (mmr1Track reg step)
    pure (.mem addr)
  else if mode = 4 then do
    addReg reg (-step)
    let addr ← getReg reg
    modifyCpu (mmr1Track reg (-step))
    checkDecrement reg
    pure (.mem addr)
  else decodeOperand spec false

/-! ## Where the decoders differ -/

/-- A register change leaves MMR1 as it is: it is not logged, or the log holds its bits. -/
def LogSilent (s : Cpu) (reg : Field3) (delta : Word) : Prop :=
  s.cfg.hasMmu = false ∨ reg = regPc ∨ s.mmu.mmr0 &&& mmr0Freeze ≠ 0 ∨
    s.mmu.mmr1 ≠ 0 ∧ (mmr1Encode reg delta <<< 8) ||| s.mmu.mmr1 = s.mmu.mmr1

/-- No register or word of memory answers a physical address. -/
def Absent (s : Cpu) (pa : PhysAddr) : Prop :=
  if isIopage pa then ioReadReg s (pa.setWidth 16) = none else s.cfg.memTop ≤ pa

/-- A word reference of the current mode that aborts. -/
def ReadFails (s : Cpu) (va : Word) (dspace : Bool) : Prop :=
  refused va false s.mode dspace s ∨ Absent s (refPhysical s va s.mode dspace)

/-- A stack pointer whose check changes nothing. -/
def LimitSilent (s : Cpu) (sp : Word) : Prop :=
  stackZone s sp = .fine ∨ stackZone s sp = .yellow ∧ YellowArmed s

/-- A red-zone abort is recorded already. -/
structure RedLatched (s : Cpu) : Prop where
  cpuerr : s.sys.cpuerr &&& cpuerrRed ≠ 0
  sp : s.regs.r regSp = 4
  banked : s.regs.stackfile 0 = 4
  servicing : s.ctl.servicingStackTrap = true
  push : s.ctl.inTrapPush = false

/-- The bus abort of a reference to an absent address on a page marked before. -/
structure BusAbsent (s : Cpu) (va : Word) : Prop where
  allowed : ¬refused va false s.mode true s
  marked : markRef va false s.mode true s = s
  absent : Absent s (refPhysical s va s.mode true)

/-- The state of an autodecrement. -/
def lowered (s : Cpu) (reg : Field3) (step : Word) : Cpu :=
  { s with regs.r := Function.update s.regs.r reg (s.regs.r reg + -step) }

/-- The states in which the decoders agree, one field for each mode in which they may not. -/
structure Agrees (s : Cpu) (mode reg : Field3) (step : Word) : Prop where
  immediate : mode = 2 → reg = regPc → s.regs.r regPc = 0 ∨ ReadFails s (s.regs.r regPc) false
  increment : mode = 2 → LogSilent s reg step
  incrementDeferred : mode = 3 → LogSilent s reg 2 ∨ ReadFails s (s.regs.r reg) true
  decrement : mode = 4 → LogSilent s reg (-step) ∧
    (reg = regSp → LimitSilent (lowered s reg step) (s.regs.r reg + -step))
  decrementDeferred : mode = 5 →
    (LogSilent s reg (-2) ∨ ReadFails (lowered s reg 2) (s.regs.r reg + -2) true) ∧
        (reg = regSp → LimitSilent (lowered s reg 2) (s.regs.r reg + -2)) ∨
      reg = regSp ∧ stackZone (lowered s reg 2) (s.regs.r reg + -2) = .red ∧
        RedLatched (lowered s reg 2) ∧ BusAbsent (lowered s reg 2) (s.regs.r reg + -2)

/-! ## References that abort -/

theorem sysregRead_none_congr {s t : Cpu} (h : t.cfg = s.cfg) (a : Word) :
    sysregRead t a = none ↔ sysregRead s a = none := by
  unfold sysregRead
  rw [h]
  split_ifs
  · rfl
  · simp
  · split <;> simp
  · rfl

theorem ite_none_congr {α : Type} {c : Prop} [Decidable c] {a b : α} {x y : Option α}
    (h : x = none ↔ y = none) :
    (if c then some a else x) = none ↔ (if c then some b else y) = none := by
  split
  · simp
  · exact h

/-- Which registers exist is a matter of the model. -/
theorem ioReadReg_none_congr {s t : Cpu} (h : t.cfg = s.cfg) (a : Word) :
    ioReadReg t a = none ↔ ioReadReg s a = none := by
  have hubm : isUbm t a = isUbm s a := by
    unfold isUbm
    rw [h]
  unfold ioReadReg
  rw [hubm]
  iterate 14 refine ite_none_congr ?_
  cases haddr : aprIndex a with
  | none => simpa using sysregRead_none_congr h a
  | some p =>
    obtain ⟨isPar, idx⟩ := p
    cases isPar <;> simp

theorem absent_congr {s t : Cpu} (h : t.cfg = s.cfg) (pa : PhysAddr) :
    Absent t pa ↔ Absent s pa := by
  unfold Absent
  rw [h]
  split
  · exact ioReadReg_none_congr h _
  · rfl

theorem readPhysical_absent {pa : PhysAddr} {m : Machine} (h : Absent m.cpu pa) :
    readPhysical pa m = (cpuBusFault vecBus : M Word) m := by
  unfold Absent at h
  unfold readPhysical
  split at h
  · rename_i hio
    rw [if_pos hio, ioRead_apply, h]
  · rename_i hio
    rw [if_neg hio, if_pos h]

theorem readPhysical_present {pa : PhysAddr} {m : Machine} (h : ¬Absent m.cpu pa) :
    ∃ v m', readPhysical pa m = .ok v m' ∧ m'.cpu.mmu = m.cpu.mmu := by
  unfold Absent at h
  unfold readPhysical
  split at h
  · rename_i hio
    obtain ⟨p, hp⟩ := Option.ne_none_iff_exists'.1 h
    rw [if_pos hio, ioRead_apply, hp]
    refine ⟨p.1, _, rfl, ?_⟩
    show p.2.mmu = m.cpu.mmu
    rw [(ioReadReg_step m.cpu _ p hp).1.rest]
  · rename_i hio
    rw [if_neg hio, if_neg h]
    exact ⟨_, _, rfl, rfl⟩

section
variable {va : Word} {dspace : Bool} {m : Machine}

theorem refusal_error (va : Word) (isWrite : Bool) (mode : Mode) (dspace : Bool) (m : Machine) :
    isOk (refusal va isWrite mode dspace m : EStateM.Result Unit Machine Word) = false := by
  unfold refusal
  split <;> rfl

theorem markRef_cfg (va : Word) (isWrite : Bool) (mode : Mode) (dspace : Bool) (s : Cpu) :
    (markRef va isWrite mode dspace s).cfg = s.cfg := by
  rw [markRef_rest]

/-- A reference that does not abort returns, with MMR0 as it was. -/
theorem read_returns (h : ¬ReadFails m.cpu va dspace) :
    ∃ v m', cpuReadWordGen va m.cpu.mode dspace m = .ok v m' ∧
      m'.cpu.mmu.mmr0 = m.cpu.mmu.mmr0 := by
  obtain ⟨hr, ha⟩ := not_or.1 h
  rw [cpuReadWordGen_apply, if_neg hr]
  rw [← absent_congr (markRef_cfg va false m.cpu.mode dspace m.cpu)] at ha
  obtain ⟨v, m', hv, hmmu⟩ := readPhysical_present
    (m := { m with cpu := markRef va false m.cpu.mode dspace m.cpu }) ha
  refine ⟨v, m', hv, ?_⟩
  rw [hmmu, markRef_rest]

theorem read_aborts (h : ReadFails m.cpu va dspace) :
    isOk (cpuReadWordGen va m.cpu.mode dspace m) = false := by
  rw [cpuReadWordGen_apply]
  split
  · exact refusal_error va false m.cpu.mode dspace m
  · rename_i hr
    have ha := h.resolve_left hr
    rw [← absent_congr (markRef_cfg va false m.cpu.mode dspace m.cpu)] at ha
    rw [readPhysical_absent (m := { m with cpu := markRef va false m.cpu.mode dspace m.cpu }) ha]
    rfl

/-- What holds of a state whenever a reference returns: it holds, or the reference aborts. -/
theorem forall_read {P : Prop} :
    (∀ v m', cpuReadWordGen va m.cpu.mode dspace m = .ok v m' → P) ↔
      P ∨ ReadFails m.cpu va dspace := by
  constructor
  · intro h
    by_cases hf : ReadFails m.cpu va dspace
    · exact .inr hf
    · obtain ⟨v, m', hv, -⟩ := read_returns hf
      exact .inl (h v m' hv)
  · rintro (hP | hf) v m' hv
    · exact hP
    · have herr := read_aborts hf
      rw [hv] at herr
      cases herr

end

/-! ## The log and the stack check -/

theorem mmr1Track_rest (reg : Field3) (delta : Word) (s : Cpu) :
    mmr1Track reg delta s = { s with mmu.mmr1 := (mmr1Track reg delta s).mmu.mmr1 } := by
  unfold mmr1Track
  split <;> rfl

theorem mmr1Track_eq_self {s : Cpu} {reg : Field3} {delta : Word}
    (henc : mmr1Encode reg delta ≠ 0) : mmr1Track reg delta s = s ↔ LogSilent s reg delta := by
  unfold mmr1Track LogSilent
  split
  · rename_i h
    refine iff_of_true rfl ?_
    obtain h | h | h := h
    · exact .inl (by simpa using h)
    · exact .inr (.inl h)
    · exact .inr (.inr (.inl h))
  · rename_i h
    obtain ⟨hmmu, hreg, hfreeze⟩ : s.cfg.hasMmu = true ∧ reg ≠ regPc ∧
        ¬s.mmu.mmr0 &&& mmr0Freeze ≠ 0 := by simpa using h
    simp only [hmmu, hreg, hfreeze, Bool.true_eq_false, false_or]
    have hlog (v : Word) : { s with mmu.mmr1 := v } = s ↔ v = s.mmu.mmr1 := by
      constructor
      · intro h
        exact (congrArg (·.mmu.mmr1) h)
      · rintro rfl
        rfl
    refine (hlog _).trans ?_
    by_cases hzero : s.mmu.mmr1 = 0
    · rw [if_neg (not_not.2 hzero), hzero]
      exact iff_of_false henc fun h => h.1 rfl
    · rw [if_pos hzero]
      exact ⟨fun h => ⟨hzero, h⟩, fun h => h.2⟩

theorem stackRed_eq_self {s : Cpu} : stackRed s = s ↔ RedLatched s := by
  have hbit : s.sys.cpuerr ||| cpuerrRed = s.sys.cpuerr ↔ s.sys.cpuerr &&& cpuerrRed ≠ 0 :=
    BitMask.or_twoPow_eq_self (i := 2) (by decide)
  constructor
  · intro h
    refine ⟨hbit.1 (congrArg (·.sys.cpuerr) h), ?_, ?_, congrArg (·.ctl.servicingStackTrap) h.symm,
      congrArg (·.ctl.inTrapPush) h.symm⟩
    · rw [← h]
      exact Function.update_self regSp 4 s.regs.r
    · rw [← h]
      exact Function.update_self 0 4 s.regs.stackfile
  · intro h
    unfold stackRed
    rw [hbit.2 h.cpuerr, ← h.sp, Function.update_eq_self, h.sp, ← h.banked, Function.update_eq_self,
      ← h.servicing, ← h.push]

theorem checkDecrement_sp (m : Machine) :
    checkDecrement regSp m = checkStackLimit (m.cpu.regs.r regSp) m := rfl

theorem checkDecrement_ne {reg : Field3} (h : reg ≠ regSp) (m : Machine) :
    checkDecrement reg m = .ok () m := by
  have hc : checkDecrement reg m =
      (whenM (reg = regSp) (checkStackLimit (m.cpu.regs.r reg)) : M Unit) m := rfl
  rw [hc, whenM, if_neg h]
  rfl

/-! ## One addressing mode at a time -/

theorem same_mem (addr : Word) : SamePlace (.mem addr) (.mem addr) := ⟨rfl, trivial⟩

/-- The floating decoder returns where the integer one first logs a register change. -/
theorem alike_log {reg : Field3} {delta : Word} (henc : mmr1Encode reg delta ≠ 0) (addr : Word)
    (m : Machine) :
    Alike SamePlace ((pure (.mem addr) : M FpOp) m)
      ((modifyCpu (mmr1Track reg delta) >>= fun _ => pure (.mem addr) : M Operand) m) ↔
      LogSilent m.cpu reg delta := by
  have hlog := alike_ok (ε := Unit) (V := SamePlace) (a := .mem addr) (b := .mem addr) (s := m)
    (t := { m with cpu := mmr1Track reg delta m.cpu })
  refine hlog.trans ?_
  rw [← mmr1Track_eq_self henc]
  constructor
  · rintro ⟨-, h⟩
    exact (congrArg Machine.cpu h).symm
  · intro h
    rw [h]
    exact ⟨same_mem addr, rfl⟩

theorem logSilent_read {va : Word} {dspace : Bool} {m t : Machine} {v : Word} {reg : Field3}
    {delta : Word} (h : cpuReadWordGen va m.cpu.mode dspace m = .ok v t) :
    LogSilent t.cpu reg delta ↔ LogSilent m.cpu reg delta := by
  have hf : ¬ReadFails m.cpu va dspace := by
    intro hf
    have herr := read_aborts hf
    rw [h] at herr
    cases herr
  obtain ⟨v', t', h', hmmr0⟩ := read_returns hf
  cases h.symm.trans h'
  have hk := (read_kept (read_cpuReadWordGen va m.cpu.mode dspace)).of_ok h
  have hmmr1 : t.cpu.mmu.mmr1 = m.cpu.mmu.mmr1 := by rw [hk.rest]
  unfold LogSilent
  rw [hk.cfg, hmmr0, hmmr1]

theorem checkDecrement_silent (reg : Field3) (m : Machine) :
    checkDecrement reg m = .ok () m ↔ (reg = regSp → LimitSilent m.cpu (m.cpu.regs.r reg)) := by
  by_cases hreg : reg = regSp
  · subst hreg
    have hcheck := checkStackLimit_apply (m.cpu.regs.r regSp) m
    rw [checkDecrement_sp, hcheck]
    have hyellow : (.ok () { m with cpu := stackYellow m.cpu } : EStateM.Result Unit Machine Unit) =
        .ok () m ↔ YellowArmed m.cpu := by
      rw [← stackYellow_eq_self]
      constructor
      · intro h
        exact congrArg Machine.cpu (EStateM.Result.ok.inj h).2
      · intro h
        rw [h]
    unfold LimitSilent
    cases stackZone m.cpu (m.cpu.regs.r regSp) with
    | fine => simp
    | yellow => simp [hyellow]
    | red => exact iff_of_false nofun (by simp)
  · rw [checkDecrement_ne hreg]
    exact iff_of_true rfl fun h => absurd h hreg

/-- The floating decoder returns where the integer one logs a decrement and checks the stack. -/
theorem alike_checked {reg : Field3} {delta : Word} (henc : mmr1Encode reg delta ≠ 0) (addr : Word)
    (m : Machine) :
    Alike SamePlace ((pure (.mem addr) : M FpOp) m) ((do
      modifyCpu (mmr1Track reg delta)
      checkDecrement reg
      pure (.mem addr) : M Operand) m) ↔
      LogSilent m.cpu reg delta ∧ (reg = regSp → LimitSilent m.cpu (m.cpu.regs.r reg)) := by
  rw [← mmr1Track_eq_self henc, ← checkDecrement_silent]
  have hcheck : Alike SamePlace ((pure (.mem addr) : M FpOp) m) ((do
      checkDecrement reg
      pure (.mem addr) : M Operand) { m with cpu := mmr1Track reg delta m.cpu }) ↔
      checkDecrement reg { m with cpu := mmr1Track reg delta m.cpu } = .ok () m := by
    rw [bind_apply]
    cases checkDecrement reg { m with cpu := mmr1Track reg delta m.cpu } with
    | ok u t =>
      refine (alike_ok (a := FpOp.mem addr) (b := Operand.mem addr) (t := t)).trans ?_
      constructor
      · rintro ⟨-, rfl⟩
        rfl
      · rintro ⟨⟩
        exact ⟨same_mem addr, rfl⟩
    | error e t => exact iff_of_false not_alike_ok_error nofun
  refine hcheck.trans ⟨fun h => ?_, fun ⟨hlog, h⟩ => by rwa [hlog]⟩
  -- neither the check nor its warning touches the log
  have hmmu : m.cpu.mmu = (mmr1Track reg delta m.cpu).mmu := by
    by_cases hreg : reg = regSp
    · subst hreg
      obtain hm | hm := checkStackLimit_ok h <;> have hmmu := congrArg Cpu.mmu hm
      · exact hmmu
      · exact hmmu
    · rw [checkDecrement_ne hreg] at h
      exact (congrArg (·.cpu.mmu) (EStateM.Result.ok.inj h).2).symm
  have hlog : mmr1Track reg delta m.cpu = m.cpu := by
    rw [mmr1Track_rest, ← hmmu]
  rw [hlog] at h
  exact ⟨hlog, h⟩

/-- Reads, and the log, leave CPUERR and the pending yellow trap alone. -/
def WarningKept (m m' : Machine) : Prop :=
  m'.cpu.sys = m.cpu.sys ∧ m'.cpu.ctl.stackYellowPending = m.cpu.ctl.stackYellowPending

theorem WarningKept.trans (m t u : Machine) (h : WarningKept m t) (h' : WarningKept t u) :
    WarningKept m u := ⟨h'.1.trans h.1, h'.2.trans h.2⟩

theorem readWord_warning (va : Word) : Respects WarningKept (cpuReadWord va) := by
  intro m
  have hk := read_kept (read_cpuReadWord va) m
  constructor <;> rw [hk.rest]

theorem YellowArmed.of_sys {s : Cpu} (hsys : s.sys = (stackYellow s).sys)
    (hpending : s.ctl.stackYellowPending = true) : YellowArmed s := by
  rw [← stackYellow_eq_self]
  show { s with sys := (stackYellow s).sys, ctl := { s.ctl with stackYellowPending := true } } = s
  rw [← hsys, ← hpending]

/-- Only a state with the red abort on record has the fields that abort leaves. -/
theorem RedLatched.of_abort {s t : Cpu} {vector : Word}
    (h : { stackRed s with ctl.abortVec := vector } = { t with ctl.abortVec := vector })
    (hregs : t.regs = s.regs) (hctl : t.ctl = s.ctl) (hsys : t.sys = s.sys) : RedLatched s := by
  have hr : (stackRed s).regs = s.regs := (congrArg Cpu.regs h).trans hregs
  have hs : (stackRed s).sys = s.sys := (congrArg Cpu.sys h).trans hsys
  have hpush : s.ctl.inTrapPush = false := by
    rw [← hctl]
    exact (congrArg (·.ctl.inTrapPush) h).symm
  have hservicing : s.ctl.servicingStackTrap = true := by
    rw [← hctl]
    exact (congrArg (·.ctl.servicingStackTrap) h).symm
  rw [← stackRed_eq_self]
  show { s with
    regs := (stackRed s).regs
    sys := (stackRed s).sys
    ctl := { s.ctl with servicingStackTrap := true, inTrapPush := false } } = s
  rw [hr, hs, ← hservicing, ← hpush]

theorem cpuBusFault_eq {α : Type} {v v' : Word} {m m' : Machine}
    (h : (cpuBusFault v : M α) m = (cpuBusFault v' : M α) m') :
    { m.cpu with ctl.abortVec := v } = { m'.cpu with ctl.abortVec := v' } ∧
      m.events ++ [Event.fault v] = m'.events ++ [Event.fault v'] := by
  have hm := (EStateM.Result.error.inj h).2
  exact ⟨congrArg Machine.cpu hm, congrArg Machine.events hm⟩

/-- A pointer read aborts just as the red zone would when that abort is on record already. -/
theorem read_redAbort {m : Machine} :
    cpuReadWordGen (m.cpu.regs.r regSp) m.cpu.mode true m =
        (cpuBusFault vecBus : M Word) { m with cpu := stackRed m.cpu } ↔
      RedLatched m.cpu ∧ BusAbsent m.cpu (m.cpu.regs.r regSp) := by
  generalize hva : m.cpu.regs.r regSp = va
  have hcfg := markRef_cfg va false m.cpu.mode true m.cpu
  have hrest := markRef_rest va false m.cpu.mode true m.cpu
  rw [cpuReadWordGen_apply]
  constructor
  · intro h
    by_cases hr : refused va false m.cpu.mode true m.cpu
    · rw [if_pos hr, refusal] at h
      split at h
      · rename_i hodd
        -- SP is then the even address the red abort sets
        have hlatched := RedLatched.of_abort (cpuBusFault_eq h).1.symm rfl rfl rfl
        rw [← hva, hlatched.sp] at hodd
        exact absurd rfl hodd
      · have hev := List.append_cancel_left (cpuBusFault_eq h).2
        cases hev
    rw [if_neg hr] at h
    by_cases ha : Absent m.cpu (refPhysical m.cpu va m.cpu.mode true)
    · rw [readPhysical_absent ((absent_congr hcfg _).2 ha)] at h
      have hcpu := (cpuBusFault_eq h).1.symm
      refine ⟨RedLatched.of_abort hcpu ?_ ?_ ?_, hr, ?_, ha⟩
      iterate 3 rw [hrest]
      have hmmu := congrArg Cpu.mmu hcpu
      have hpdr : (markRef va false m.cpu.mode true m.cpu).mmu.pdr = m.cpu.mmu.pdr :=
        (congrArg Mmu.pdr hmmu).symm
      rw [hrest, hpdr]
    · obtain ⟨v, m', hv, -⟩ := readPhysical_present
        (m := { m with cpu := markRef va false m.cpu.mode true m.cpu })
        (mt (absent_congr hcfg _).1 ha)
      rw [hv] at h
      cases h
  · rintro ⟨hlatched, habsent⟩
    rw [if_neg habsent.allowed, habsent.marked, readPhysical_absent habsent.absent,
      stackRed_eq_self.2 hlatched]

theorem alike_pointer {reg : Field3} (henc : mmr1Encode reg (-2) ≠ 0) (m : Machine) :
    Alike SamePlace ((do
      let ptr ← getReg reg
      let addr ← cpuReadWord ptr
      pure (.mem addr) : M FpOp) m) ((do
      checkDecrement reg
      let ptr ← getReg reg
      let addr ← cpuReadWord ptr
      modifyCpu (mmr1Track reg (-2))
      pure (.mem addr) : M Operand) m) ↔
      (LogSilent m.cpu reg (-2) ∨ ReadFails m.cpu (m.cpu.regs.r reg) true) ∧
          (reg = regSp → LimitSilent m.cpu (m.cpu.regs.r reg)) ∨
        reg = regSp ∧ stackZone m.cpu (m.cpu.regs.r reg) = .red ∧ RedLatched m.cpu ∧
          BusAbsent m.cpu (m.cpu.regs.r reg) := by
  by_cases hsilent : reg = regSp → LimitSilent m.cpu (m.cpu.regs.r reg)
  · -- the check passes: the pointer is read alike, and only the log follows
    have hred : ¬(reg = regSp ∧ stackZone m.cpu (m.cpu.regs.r reg) = .red ∧ RedLatched m.cpu ∧
        BusAbsent m.cpu (m.cpu.regs.r reg)) := by
      rintro ⟨hreg, hzone, -⟩
      obtain h | ⟨h, -⟩ := hsilent hreg <;> rw [hzone] at h <;> cases h
    rw [or_iff_left hred, and_iff_left hsilent, bind_ok ((checkDecrement_silent reg m).2 hsilent)]
    refine (alike_bind (cpuReadWordGen (m.cpu.regs.r reg) m.cpu.mode true) _ _ m).trans ?_
    rw [← forall_read]
    refine forall_congr' fun addr => forall_congr' fun t => forall_congr' fun hread => ?_
    rw [← logSilent_read hread]
    exact alike_log henc addr t
  · obtain ⟨rfl, hn⟩ := Classical.not_imp.1 hsilent
    rw [or_iff_right fun h => hsilent h.2]
    have hcheck := checkStackLimit_apply (m.cpu.regs.r regSp) m
    rw [← checkDecrement_sp] at hcheck
    cases hzone : stackZone m.cpu (m.cpu.regs.r regSp) with
    | fine => exact absurd (.inl hzone) hn
    | yellow =>
      -- the warning outlives the read in one decoder and is missing in the other
      refine iff_of_false (fun h => hn (.inr ⟨hzone, ?_⟩)) (by simp)
      rw [hzone] at hcheck
      rw [bind_ok hcheck] at h
      have hget : Respects WarningKept (getReg regSp) := fun _ => ⟨rfl, rfl⟩
      have hfp : Respects WarningKept (do
          let ptr ← getReg regSp
          let addr ← cpuReadWord ptr
          pure (.mem addr) : M FpOp) := by
        refine hget.bind WarningKept.trans fun ptr => ?_
        refine (readWord_warning ptr).bind WarningKept.trans fun addr => ?_
        exact respects_pure (fun _ => ⟨rfl, rfl⟩) _
      have hop : Respects WarningKept (do
          let ptr ← getReg regSp
          let addr ← cpuReadWord ptr
          modifyCpu (mmr1Track regSp (-2))
          pure (.mem addr) : M Operand) := by
        refine hget.bind WarningKept.trans fun ptr => ?_
        refine (readWord_warning ptr).bind WarningKept.trans fun addr t => ?_
        show WarningKept t { t with cpu := mmr1Track regSp (-2) t.cpu }
        rw [mmr1Track_rest]
        exact ⟨rfl, rfl⟩
      obtain ⟨hsys, hpending⟩ := hfp m
      obtain ⟨hsys', hpending'⟩ := hop { m with cpu := stackYellow m.cpu }
      rw [← h.final_eq] at hsys' hpending'
      exact .of_sys (hsys.symm.trans hsys') (hpending.symm.trans hpending')
    | red =>
      rw [hzone] at hcheck
      rw [bind_error (e := ()) hcheck, alike_error_right]
      have hcases := read_redAbort (m := m)
      simp only [true_and]
      rw [← hcases]
      show (cpuReadWordGen (m.cpu.regs.r regSp) m.cpu.mode true >>= fun addr =>
        pure (.mem addr) : M FpOp) m = _ ↔ _
      rw [bind_apply]
      cases cpuReadWordGen (m.cpu.regs.r regSp) m.cpu.mode true m with
      | ok v t => exact iff_of_false nofun nofun
      | error e t =>
        constructor
        · intro h
          cases h
          rfl
        · intro h
          cases h
          rfl

section
variable {spec : BitVec 6} {m : Machine} {len : ℕ}

/-- The step of a floating operand. -/
abbrev fpStep (lenWords : ℕ) : Word := BitVec.ofNat 16 (lenWords * 2)

/-- The integer decoder with the step of a floating operand resolves as the floating one does. -/
abbrev ResolvesAlike (spec : BitVec 6) (lenWords : ℕ) (m : Machine) : Prop :=
  Alike SamePlace (decodeFp spec lenWords m) (decodeStepped (fpStep lenWords) spec m)

theorem decode_deferred (hmode : spec.extractLsb' 3 3 = (1 : Field3)) :
    ResolvesAlike spec len m := by
  unfold ResolvesAlike decodeFp decodeStepped decodeOperand
  rw [hmode]
  exact .ok m (same_mem _)

theorem decode_indexed (hmode : spec.extractLsb' 3 3 = (6 : Field3)) :
    ResolvesAlike spec len m := by
  unfold ResolvesAlike decodeFp decodeStepped decodeOperand
  rw [hmode]
  refine (alike_bind fetch _ _ m).2 fun base t _ => ?_
  exact .ok t (same_mem _)

theorem decode_indexedDeferred (hmode : spec.extractLsb' 3 3 = (7 : Field3)) :
    ResolvesAlike spec len m := by
  unfold ResolvesAlike decodeFp decodeStepped decodeOperand
  rw [hmode]
  refine (alike_bind fetch _ _ m).2 fun base t _ => ?_
  have hptr := alike_bind (V := SamePlace) (cpuReadWord (base + t.cpu.regs.r (spec.extractLsb' 0 3)))
  refine (hptr _ _ t).2 fun addr u _ => ?_
  exact .ok u (same_mem addr)

/-- Absolute. -/
theorem decode_absolute (hmode : spec.extractLsb' 3 3 = (3 : Field3))
    (hreg : spec.extractLsb' 0 3 = regPc) : ResolvesAlike spec len m := by
  unfold ResolvesAlike decodeFp decodeStepped decodeOperand
  rw [hmode, hreg]
  refine (alike_bind fetch _ _ m).2 fun addr t _ => ?_
  exact .ok t (same_mem addr)

theorem forall_fetch {P : Prop} :
    (∀ word t, fetch m = .ok word t → P) ↔ P ∨ ReadFails m.cpu (m.cpu.regs.r regPc) false := by
  have hfetch : fetch m = (cpuReadWordGen (m.cpu.regs.r regPc) m.cpu.mode false >>= fun word => do
      addReg regPc 2
      pure word : M Word) m := rfl
  rw [hfetch, ← forall_read]
  constructor
  · intro h v t hread
    refine h v (withReg regPc (t.cpu.regs.r regPc + 2) t) ?_
    rw [bind_ok hread]
    rfl
  · intro h word t hword
    obtain ⟨v, u, hread, -⟩ := bind_eq_ok.1 hword
    exact h v u hread

/-- Immediate: the floating decoder forgets the inline address. -/
theorem decode_immediate (hmode : spec.extractLsb' 3 3 = (2 : Field3))
    (hreg : spec.extractLsb' 0 3 = regPc) :
    ResolvesAlike spec len m ↔
      m.cpu.regs.r regPc = 0 ∨ ReadFails m.cpu (m.cpu.regs.r regPc) false := by
  unfold ResolvesAlike decodeFp decodeStepped decodeOperand
  rw [hmode, hreg]
  refine (alike_bind fetch _ _ m).trans ?_
  rw [← forall_fetch]
  refine forall_congr' fun value => forall_congr' fun t => imp_congr_right fun _ => ?_
  have hok := alike_ok (ε := Unit) (V := SamePlace) (a := .imm value)
    (b := .imm value (m.cpu.regs.r regPc)) (s := t) (t := t)
  refine hok.trans ?_
  constructor
  · rintro ⟨⟨haddr, -⟩, -⟩
    exact haddr.symm
  · intro haddr
    exact ⟨⟨haddr.symm, rfl⟩, rfl⟩

section
variable {reg : Field3} (hreg : spec.extractLsb' 0 3 = reg)
include hreg

theorem decode_increment (henc : mmr1Encode reg (fpStep len) ≠ 0)
    (hmode : spec.extractLsb' 3 3 = (2 : Field3)) (hpc : reg ≠ regPc) :
    ResolvesAlike spec len m ↔ LogSilent m.cpu reg (fpStep len) := by
  have hfp : decodeFp spec len = (do
      let addr ← getReg reg
      addReg reg (fpStep len)
      pure (.mem addr)) := by
    unfold decodeFp
    rw [hmode, hreg]
    exact if_neg hpc
  have hop : decodeStepped (fpStep len) spec = (do
      let addr ← getReg reg
      addReg reg (fpStep len)
      modifyCpu (mmr1Track reg (fpStep len))
      pure (.mem addr)) := by
    unfold decodeStepped
    rw [hmode, hreg]
    exact if_pos ⟨rfl, hpc⟩
  unfold ResolvesAlike
  rw [hfp, hop]
  exact alike_log henc (m.cpu.regs.r reg) (withReg reg (m.cpu.regs.r reg + fpStep len) m)

theorem decode_incrementDeferred (henc : mmr1Encode reg 2 ≠ 0)
    (hmode : spec.extractLsb' 3 3 = (3 : Field3)) (hpc : reg ≠ regPc) :
    ResolvesAlike spec len m ↔
      LogSilent m.cpu reg 2 ∨ ReadFails m.cpu (m.cpu.regs.r reg) true := by
  have hfp : decodeFp spec len = (do
      let ptr ← getReg reg
      let addr ← cpuReadWord ptr
      addReg reg 2
      pure (.mem addr)) := by
    unfold decodeFp
    rw [hmode, hreg]
    exact if_neg hpc
  have hop : decodeStepped (fpStep len) spec = (do
      let ptr ← getReg reg
      let addr ← cpuReadWord ptr
      addReg reg 2
      modifyCpu (mmr1Track reg 2)
      pure (.mem addr)) := by
    unfold decodeStepped decodeOperand
    rw [hmode, hreg]
    exact if_neg hpc
  unfold ResolvesAlike
  rw [hfp, hop]
  refine (alike_bind (cpuReadWordGen (m.cpu.regs.r reg) m.cpu.mode true) _ _ m).trans ?_
  rw [← forall_read]
  refine forall_congr' fun addr => forall_congr' fun t => forall_congr' fun hread => ?_
  rw [← logSilent_read hread]
  exact alike_log henc addr (withReg reg (t.cpu.regs.r reg + 2) t)

theorem decode_decrement (henc : mmr1Encode reg (-fpStep len) ≠ 0)
    (hmode : spec.extractLsb' 3 3 = (4 : Field3)) :
    ResolvesAlike spec len m ↔ LogSilent m.cpu reg (-fpStep len) ∧
      (reg = regSp →
        LimitSilent (lowered m.cpu reg (fpStep len)) (m.cpu.regs.r reg + -fpStep len)) := by
  have hfp : decodeFp spec len = (do
      addReg reg (-fpStep len)
      let addr ← getReg reg
      pure (.mem addr)) := by
    unfold decodeFp
    rw [hmode, hreg]
    rfl
  have hop : decodeStepped (fpStep len) spec = (do
      addReg reg (-fpStep len)
      let addr ← getReg reg
      modifyCpu (mmr1Track reg (-fpStep len))
      checkDecrement reg
      pure (.mem addr)) := by
    unfold decodeStepped
    rw [hmode, hreg]
    rfl
  unfold ResolvesAlike
  rw [hfp, hop]
  have hva : (lowered m.cpu reg (fpStep len)).regs.r reg = m.cpu.regs.r reg + -fpStep len :=
    Function.update_self reg _ m.cpu.regs.r
  rw [← hva]
  exact alike_checked henc ((lowered m.cpu reg (fpStep len)).regs.r reg)
    { m with cpu := lowered m.cpu reg (fpStep len) }

theorem decode_decrementDeferred (henc : mmr1Encode reg (-2) ≠ 0)
    (hmode : spec.extractLsb' 3 3 = (5 : Field3)) :
    ResolvesAlike spec len m ↔
      (LogSilent m.cpu reg (-2) ∨
          ReadFails (lowered m.cpu reg 2) (m.cpu.regs.r reg + -2) true) ∧
        (reg = regSp → LimitSilent (lowered m.cpu reg 2) (m.cpu.regs.r reg + -2)) ∨
      reg = regSp ∧ stackZone (lowered m.cpu reg 2) (m.cpu.regs.r reg + -2) = .red ∧
        RedLatched (lowered m.cpu reg 2) ∧
        BusAbsent (lowered m.cpu reg 2) (m.cpu.regs.r reg + -2) := by
  have hfp : decodeFp spec len = (do
      addReg reg (-2)
      let ptr ← getReg reg
      let addr ← cpuReadWord ptr
      pure (.mem addr)) := by
    unfold decodeFp
    rw [hmode, hreg]
    rfl
  have hop : decodeStepped (fpStep len) spec = (do
      addReg reg (-2)
      checkDecrement reg
      let ptr ← getReg reg
      let addr ← cpuReadWord ptr
      modifyCpu (mmr1Track reg (-2))
      pure (.mem addr)) := by
    unfold decodeStepped decodeOperand
    rw [hmode, hreg]
    rfl
  unfold ResolvesAlike
  rw [hfp, hop]
  have hva : (lowered m.cpu reg 2).regs.r reg = m.cpu.regs.r reg + -2 :=
    Function.update_self reg _ m.cpu.regs.r
  rw [← hva]
  exact alike_pointer henc { m with cpu := lowered m.cpu reg 2 }

end

/-! ## Agreement -/

/-- Every step of an operand is logged by a byte that is not zero. -/
theorem mmr1Encode_ne_zero (reg : Field3) {delta : Word}
    (h : delta ∈ [(2 : Word), 4, 8, -2, -4, -8]) : mmr1Encode reg delta ≠ 0 := by
  simp only [List.mem_cons, List.not_mem_nil, or_false] at h
  obtain rfl | rfl | rfl | rfl | rfl | rfl := h <;> revert reg <;> decide

theorem resolvesAlike_iff (hmode : spec.extractLsb' 3 3 ≠ (0 : Field3))
    (hlen : len = 1 ∨ len = 2 ∨ len = 4) :
    ResolvesAlike spec len m ↔
      Agrees m.cpu (spec.extractLsb' 3 3) (spec.extractLsb' 0 3) (fpStep len) := by
  have hup (reg : Field3) : mmr1Encode reg (fpStep len) ≠ 0 := by
    apply mmr1Encode_ne_zero
    obtain rfl | rfl | rfl := hlen <;> decide
  have hdown (reg : Field3) : mmr1Encode reg (-fpStep len) ≠ 0 := by
    apply mmr1Encode_ne_zero
    obtain rfl | rfl | rfl := hlen <;> decide
  have hmodes : ∀ k : Field3, k ≠ 0 → k = 1 ∨ k = 2 ∨ k = 3 ∨ k = 4 ∨ k = 5 ∨ k = 6 ∨ k = 7 := by
    decide
  have off {P : Prop} {j k : Field3} (hjk : j ≠ k) : j = k → P := fun h => absurd h hjk
  generalize hreg : spec.extractLsb' 0 3 = reg
  obtain h | h | h | h | h | h | h := hmodes _ hmode <;> rw [h]
  · refine iff_of_true (decode_deferred h) ?_
    constructor <;> exact off (by decide)
  · by_cases hpc : reg = regPc
    · subst hpc
      rw [decode_immediate h hreg]
      refine ⟨fun ha => ?_, fun ha => ha.immediate rfl rfl⟩
      exact ⟨fun _ _ => ha, fun _ => .inr (.inl rfl), off (by decide), off (by decide),
        off (by decide)⟩
    · rw [decode_increment hreg (hup reg) h hpc]
      refine ⟨fun ha => ?_, fun ha => ha.increment rfl⟩
      exact ⟨fun _ => off hpc, fun _ => ha, off (by decide), off (by decide), off (by decide)⟩
  · -- with PC both decoders take the address from the instruction stream
    have hiff : ResolvesAlike spec len m ↔
        LogSilent m.cpu reg 2 ∨ ReadFails m.cpu (m.cpu.regs.r reg) true := by
      by_cases hpc : reg = regPc
      · subst hpc
        exact iff_of_true (decode_absolute h hreg) (.inl (.inr (.inl rfl)))
      · exact decode_incrementDeferred hreg (mmr1Encode_ne_zero reg (by decide)) h hpc
    rw [hiff]
    refine ⟨fun ha => ?_, fun ha => ha.incrementDeferred rfl⟩
    exact ⟨off (by decide), off (by decide), fun _ => ha, off (by decide), off (by decide)⟩
  · rw [decode_decrement hreg (hdown reg) h]
    refine ⟨fun ha => ?_, fun ha => ha.decrement rfl⟩
    exact ⟨off (by decide), off (by decide), off (by decide), fun _ => ha, off (by decide)⟩
  · rw [decode_decrementDeferred hreg (mmr1Encode_ne_zero reg (by decide)) h]
    refine ⟨fun ha => ?_, fun ha => ha.decrementDeferred rfl⟩
    exact ⟨off (by decide), off (by decide), off (by decide), off (by decide), fun _ => ha⟩
  · refine iff_of_true (decode_indexed h) ?_
    constructor <;> exact off (by decide)
  · refine iff_of_true (decode_indexedDeferred h) ?_
    constructor <;> exact off (by decide)

theorem decodeStepped_two (spec : BitVec 6) : decodeStepped 2 spec = decodeOperand spec false := by
  have hstep (reg : Field3) : operandStep reg false = 2 := if_neg fun h => absurd h.1 (by decide)
  unfold decodeStepped
  dsimp only
  split
  · rename_i h
    unfold decodeOperand
    dsimp only
    rw [hstep, h.1]
    exact (if_neg h.2).symm
  · split
    · rename_i h
      unfold decodeOperand
      dsimp only
      rw [hstep, h]
      rfl
    · rfl

/-- The floating decoder resolves an operand as the integer decoder does exactly when the log and
the stack check would change nothing, or an abort comes before them; an immediate, when its inline
address is the one the floating decoder stores to. -/
theorem decoders_agree_iff (hmode : spec.extractLsb' 3 3 ≠ (0 : Field3)) (m : Machine) :
    (Alike SamePlace (decodeFp spec 1 m) (decodeOperand spec false m) ↔
      Agrees m.cpu (spec.extractLsb' 3 3) (spec.extractLsb' 0 3) 2) ∧
    ∀ len, len = 2 ∨ len = 4 →
      (Alike SamePlace (decodeFp spec len m) (decodeStepped (BitVec.ofNat 16 (len * 2)) spec m) ↔
        Agrees m.cpu (spec.extractLsb' 3 3) (spec.extractLsb' 0 3)
          (BitVec.ofNat 16 (len * 2))) := by
  constructor
  · rw [← decodeStepped_two]
    exact resolvesAlike_iff hmode (.inl rfl)
  · intro len hlen
    exact resolvesAlike_iff hmode (.inr hlen)

end

/-- Without memory management `(R0)+` is not logged, and both decoders step it alike. -/
theorem unlogged_agree : Alike SamePlace (decodeFp 0o20 1 ⟨cpuCreateModel .m1120, []⟩)
    (decodeOperand 0o20 false ⟨cpuCreateModel .m1120, []⟩) :=
  (decoders_agree_iff (by decide) ⟨cpuCreateModel .m1120, []⟩).1.2
    ⟨fun _ h => absurd h (by decide), fun _ => .inl rfl, fun h => absurd h (by decide),
      fun h => absurd h (by decide), fun h => absurd h (by decide)⟩

/-- An 11/70 about to decode an immediate at location 01000. -/
def inlineMachine : Machine := withReg regPc 0o1000 ⟨cpuCreateModel .m1170, []⟩

/-- A floating store to an immediate goes to location 0, an integer store to the inline word. -/
theorem immediate_stores_apart :
    ¬∀ (spec : BitVec 6) (m : Machine), spec.extractLsb' 3 3 ≠ (0 : Field3) →
      Alike SamePlace (decodeFp spec 1 m) (decodeOperand spec false m) ∧
      ∀ len, len = 2 ∨ len = 4 →
        Alike SamePlace (decodeFp spec len m)
          (decodeStepped (BitVec.ofNat 16 (len * 2)) spec m) := by
  intro h
  have ha := (h 0o27 inlineMachine (by decide)).1
  rw [← decodeStepped_two] at ha
  obtain hpc | hfails := (decode_immediate (by decide) (by decide)).1 (show ResolvesAlike _ 1 _ from ha)
  · exact absurd hpc (by decide)
  · have hok : isOk (cpuReadWordGen (inlineMachine.cpu.regs.r regPc) inlineMachine.cpu.mode false
        inlineMachine) = true := by
      decide +kernel
    exact Bool.false_ne_true ((read_aborts hfails).symm.trans hok)

end Pdp11
