import Pdp11.Confinement

namespace Pdp11

open FaultState

/-! When a step outside Kernel mode keeps to its privilege. -/

/-- The word at the PC. -/
def nextWord (s : Cpu) : Word := memReadWord s.mem (refPhysical s (s.regs.r regPc) s.mode false)

/-- The PSW that a return from the current stack loads. -/
def poppedPsw (s : Cpu) : Word :=
  memReadWord s.mem (refPhysical s (s.regs.r regSp + 2) s.mode true) &&& s.cfg.pswMask

/-- A step neither raises the mode nor moves the priority, does not halt the machine, and its
instruction leaves the devices and their requests alone. -/
structure PrivilegeKept (s : Cpu) : Prop where
  mode : s.mode ≤ (cpuStep s).cpu.mode
  priority : priority (cpuStep s).cpu.regs.psw = priority s.regs.psw
  halted : (cpuStep s).cpu.ctl.halted = true → s.ctl.halted = true
  devices : s.ctl.halted = false → s.ctl.waiting = false →
    ∀ word m, fetchExecute (instrStart s) = .ok word m → m.cpu.dev = s.dev

/-- The next instruction is no HALT, a return loads a PSW of no more privilege and the same
priority, and RESET finds nothing to clear. -/
structure Harmless (s : Cpu) : Prop where
  halt : nextWord s ≠ 0
  rti : nextWord s = 2 ∨ nextWord s = 6 →
    s.mode ≤ curMode (poppedPsw s) ∧ priority (poppedPsw s) = priority s.regs.psw
  reset : nextWord s = 5 → (busInit s).dev = s.dev

/-! ## What is fetched and popped -/

section Values

variable {s : Cpu}

/-- A read that returns gives the word in memory. -/
theorem read_value (hs : Unprivileged s) {va v : Word} {k : Mode} {d : Bool} {m m' : Machine}
    (hk : UsesMode s k) (h : Confined s m.cpu) (hx : cpuReadWordGen va k d m = .ok v m') :
    v = memReadWord m.cpu.mem (refPhysical s va k d) ∧ Confined s m'.cpu ∧
      ReadKept m.cpu m'.cpu := by
  have hkept : ReadKept m.cpu m'.cpu := (read_kept (read_cpuReadWordGen va k d)).of_ok hx
  have hc : Confined s (final (cpuReadWordGen va k d m)).cpu := confined_readWordGen hs hk h
  rw [hx] at hc
  refine ⟨?_, hc, hkept⟩
  rw [cpuReadWordGen_apply] at hx
  by_cases hr : refused va false k d m.cpu
  · rw [if_pos hr, refusal] at hx
    split at hx <;> cases hx
  have he : refError m.cpu va false k d = 0 := not_not.1 (not_or.1 hr).2
  have hram := ram_of_refError hs hk h he
  rw [if_neg hr, readPhysical, if_neg (by simp [hram])] at hx
  split at hx
  · cases hx
  · cases hx
    rw [h.map.refPhysical_eq, markRef_rest]

theorem fetch_value (hs : Unprivileged s) {word : Word} {m m' : Machine}
    (h : Confined s m.cpu) (hmem : m.cpu.mem = s.mem) (hr : m.cpu.regs.r = s.regs.r)
    (hx : fetch m = .ok word m') :
    word = nextWord s ∧ Confined s m'.cpu ∧ m'.cpu.mem = s.mem ∧
      m'.cpu.regs.r regSp = s.regs.r regSp := by
  have hfetch : fetch m = (do
      let word ← cpuReadWordGen (m.cpu.regs.r regPc) m.cpu.mode false
      addReg regPc 2
      pure word : M Word) m := rfl
  rw [hfetch, bind_eq_ok] at hx
  obtain ⟨v, m1, hread, hx⟩ := hx
  obtain ⟨hv, hc, hkept⟩ := read_value hs (.inl h.mode) h hread
  cases hx
  refine ⟨?_, ?_, ?_, ?_⟩
  · rw [hv, hmem, hr, h.mode]
    rfl
  · exact hc.same rfl (.of_mmu rfl) rfl rfl rfl rfl rfl
  · exact hkept.mem.trans hmem
  · have hne : regSp ≠ regPc := by decide
    show Function.update m1.cpu.regs.r regPc (m1.cpu.regs.r regPc + 2) regSp = s.regs.r regSp
    rw [Function.update_of_ne hne, hkept.regs, hr]

theorem popWord_value (hs : Unprivileged s) {v : Word} {m m' : Machine}
    (h : Confined s m.cpu) (hmem : m.cpu.mem = s.mem) (hx : popWord m = .ok v m') :
    v = memReadWord s.mem (refPhysical s (m.cpu.regs.r regSp) s.mode true) ∧
      Confined s m'.cpu ∧ m'.cpu.mem = s.mem ∧
      m'.cpu.regs.r regSp = m.cpu.regs.r regSp + 2 := by
  rw [popWord_apply] at hx
  cases hread : cpuReadWordGen (m.cpu.regs.r regSp) m.cpu.mode true m with
  | error e m1 =>
    rw [hread] at hx
    cases hx
  | ok value m1 =>
    rw [hread] at hx
    obtain ⟨hv, hc, hkept⟩ := read_value hs (.inl h.mode) h hread
    cases hx
    refine ⟨?_, ?_, ?_, ?_⟩
    · rw [hv, hmem, h.mode]
    · exact hc.same rfl (.of_mmu rfl) rfl rfl rfl rfl rfl
    · exact hkept.mem.trans hmem
    · show Function.update m1.cpu.regs.r regSp (m1.cpu.regs.r regSp + 2) regSp = _
      rw [Function.update_self, hkept.regs]

theorem rtiPops_value (hs : Unprivileged s) {psw : Word} {m m' : Machine}
    (h : Confined s m.cpu) (hmem : m.cpu.mem = s.mem)
    (hsp : m.cpu.regs.r regSp = s.regs.r regSp) (hx : rtiPops m = .ok psw m') :
    psw &&& s.cfg.pswMask = poppedPsw s ∧ Confined s m'.cpu := by
  obtain ⟨pc, m1, hpc, hx⟩ := bind_eq_ok.1 hx
  obtain ⟨-, hc1, hmem1, hsp1⟩ := popWord_value hs h hmem hpc
  have hc2 : Confined s (withReg regPc pc m1).cpu :=
    hc1.same rfl (.of_mmu rfl) rfl rfl rfl rfl rfl
  have hsp2 : (withReg regPc pc m1).cpu.regs.r regSp = s.regs.r regSp + 2 := by
    have hne : regSp ≠ regPc := by decide
    show Function.update m1.cpu.regs.r regPc pc regSp = s.regs.r regSp + 2
    rw [Function.update_of_ne hne, hsp1, hsp]
  have hpsw : popWord (withReg regPc pc m1) = .ok psw m' := hx
  obtain ⟨hv, hc3, -, -⟩ := popWord_value hs hc2 hmem1 hpsw
  refine ⟨?_, hc3⟩
  rw [hv, hsp2]
  rfl

/-! ## The instruction of a step -/

/-- What a step keeps is decided when its instruction ends. -/
theorem privilegeKept_instr {word : Word} {m : Machine} (hh : s.ctl.halted = false)
    (hp : pendingDispatch s = none) (hw : s.ctl.waiting = false)
    (hx : fetchExecute (instrStart s) = .ok word m) :
    PrivilegeKept s ↔ s.mode ≤ m.cpu.mode ∧
      priority m.cpu.regs.psw = priority s.regs.psw ∧ m.cpu.ctl.halted = false ∧
      m.cpu.dev = s.dev := by
  have hstep : (cpuStep s).cpu = finishInstr word m.cpu := by
    rw [cpuStep_instr hh hp hw, stepInstr_complete hx]
    rfl
  obtain ⟨hregs, hctl⟩ := finishInstr_kept word m.cpu
  have hmode : (cpuStep s).cpu.mode = m.cpu.mode := by rw [Cpu.mode, hstep, hregs, Cpu.mode]
  have hpsw : (cpuStep s).cpu.regs.psw = m.cpu.regs.psw := by rw [hstep, hregs]
  have hhalted : (cpuStep s).cpu.ctl.halted = m.cpu.ctl.halted := by rw [hstep, hctl]
  constructor
  · intro h
    refine ⟨hmode ▸ h.mode, hpsw ▸ h.priority, ?_, h.devices hh hw word m hx⟩
    by_contra hm
    have := h.halted (hhalted.trans (by simpa using hm))
    rw [hh] at this
    cases this
  · rintro ⟨h1, h2, h3, h4⟩
    refine ⟨hmode ▸ h1, hpsw ▸ h2, ?_, ?_⟩
    · intro ht
      rw [hhalted, h3] at ht
      cases ht
    · intro _ _ word' m' hx'
      rw [hx] at hx'
      cases hx'
      exact h4

/-- A step that runs no instruction keeps its privilege. -/
theorem privilegeKept_idle (hregs : (cpuStep s).cpu.regs = s.regs)
    (hctl : (cpuStep s).cpu.ctl = s.ctl) (h : s.ctl.halted = true ∨ s.ctl.waiting = true) :
    PrivilegeKept s where
  mode := by
    rw [Cpu.mode, Cpu.mode, hregs]
    exact BitVec.le_refl _
  priority := by rw [hregs]
  halted := by
    rw [hctl]
    exact id
  devices hh hw := by simp [hh, hw] at h

theorem idleSkip_kept (s : Cpu) : (idleSkip s).regs = s.regs ∧ (idleSkip s).ctl = s.ctl := by
  unfold idleSkip
  dsimp only
  split
  · rw [serviceDueEvents_rest]
    split <;> exact ⟨rfl, rfl⟩
  · exact ⟨rfl, rfl⟩

/-- An instruction that is none of HALT, RTI, RESET and RTT keeps its privilege. -/
theorem privilegeKept_user (hs : Unprivileged s) {word : Word} {m₁ m : Machine}
    (hc : Confined s m₁.cpu) (hh : s.ctl.halted = false) (hw : ¬IsMachineWord word)
    (hex : execute word m₁ = .ok () m) (hquiet : ¬Dispatched m) :
    s.mode ≤ m.cpu.mode ∧ priority m.cpu.regs.psw = priority s.regs.psw ∧
      m.cpu.ctl.halted = false ∧ m.cpu.dev = s.dev := by
  have hsafe := execute_safe hs hw m₁ (.inr hc)
  rw [hex] at hsafe
  have hc' : Confined s m.cpu := hsafe.resolve_left hquiet
  exact ⟨hc'.mode ▸ BitVec.le_refl _, hc'.priority, hc'.halted.trans hh, hc'.dev⟩

/-- What a return from the current stack leaves. -/
theorem opRti_kept (hs : Unprivileged s) {isRtt : Bool} {m₁ m : Machine} (hc : Confined s m₁.cpu)
    (hmem : m₁.cpu.mem = s.mem) (hsp : m₁.cpu.regs.r regSp = s.regs.r regSp)
    (hex : opRti isRtt m₁ = .ok () m) :
    m.cpu.mode = curMode (poppedPsw s) ∧ priority m.cpu.regs.psw = priority (poppedPsw s) ∧
      m.cpu.ctl.halted = s.ctl.halted ∧ m.cpu.dev = s.dev := by
  rw [opRti_pops, bind_eq_ok] at hex
  obtain ⟨psw, m2, hpops, hex⟩ := hex
  obtain ⟨hpsw, hc2⟩ := rtiPops_value hs hc hmem hsp hpops
  have hcpu : m.cpu = rtiTrace isRtt (putPsw m2.cpu psw) := by
    cases hex
    rfl
  have hregs : m.cpu.regs.psw = poppedPsw s := by
    rw [hcpu, rtiTrace_rest, ← hpsw, ← hc2.cfg]
    rfl
  have hhalted : m.cpu.ctl.halted = m2.cpu.ctl.halted := by
    rw [hcpu, rtiTrace]
    split <;> rw [putPsw_eq]
  refine ⟨by rw [Cpu.mode, hregs], by rw [hregs], hhalted.trans hc2.halted, ?_⟩
  rw [hcpu, rtiTrace_rest, putPsw_eq, ← hc2.dev]

/-- RESET changes the devices by what they hold alone. -/
theorem busInit_dev {t : Cpu} (h : t.dev = s.dev) : (busInit t).dev = (busInit s).dev := by
  unfold busInit
  rw [h]

/-- What an executed instruction leaves is harmless exactly when the state it was fetched in says
so. -/
theorem harmless_iff (hs : Unprivileged s) (hh : s.ctl.halted = false) {word : Word}
    {m₁ m : Machine} (hword : word = nextWord s) (hc : Confined s m₁.cpu)
    (hmem : m₁.cpu.mem = s.mem) (hsp : m₁.cpu.regs.r regSp = s.regs.r regSp)
    (hex : execute word m₁ = .ok () m) (hquiet : ¬Dispatched m) :
    (s.mode ≤ m.cpu.mode ∧ priority m.cpu.regs.psw = priority s.regs.psw ∧
      m.cpu.ctl.halted = false ∧ m.cpu.dev = s.dev) ↔ Harmless s := by
  have rti (hrti : word = 2 ∨ word = 6) (isRtt : Bool) (hx : opRti isRtt m₁ = .ok () m) :
      (s.mode ≤ m.cpu.mode ∧ priority m.cpu.regs.psw = priority s.regs.psw ∧
        m.cpu.ctl.halted = false ∧ m.cpu.dev = s.dev) ↔ Harmless s := by
    obtain ⟨hmode, hprio, hhalt, hdev⟩ := opRti_kept hs hc hmem hsp hx
    rw [hmode, hprio]
    constructor
    · rintro ⟨h1, h2, -, -⟩
      refine ⟨?_, fun _ => ⟨h1, h2⟩, ?_⟩
      · rw [← hword]
        rcases hrti with rfl | rfl <;> decide
      · rw [← hword]
        rcases hrti with rfl | rfl <;> intro h5 <;> exact absurd h5 (by decide)
    · intro h
      obtain ⟨h1, h2⟩ := h.rti (hword ▸ hrti)
      exact ⟨h1, h2, hhalt.trans hh, hdev⟩
  by_cases hw : IsMachineWord word
  · obtain h0 | h2 | h5 | h6 := hw
    · -- HALT
      subst h0
      have hhalt : m.cpu.ctl.halted = true := by
        cases hex
        rfl
      constructor
      · rintro ⟨-, -, hf, -⟩
        rw [hhalt] at hf
        cases hf
      · intro h
        exact absurd hword.symm h.halt
    · refine rti (.inl h2) false ?_
      rw [h2] at hex
      exact hex
    · -- RESET
      subst h5
      have hcpu : m.cpu = busInit m₁.cpu := by
        cases hex
        rfl
      have hdev : m.cpu.dev = (busInit s).dev := by
        rw [hcpu]
        exact busInit_dev hc.dev
      have hmode : m.cpu.mode = s.mode := by
        rw [hcpu]
        exact hc.mode
      have hprio : priority m.cpu.regs.psw = priority s.regs.psw := by
        rw [hcpu]
        exact hc.priority
      have hhalt : m.cpu.ctl.halted = false := by
        rw [hcpu]
        exact hc.halted.trans hh
      rw [hdev]
      constructor
      · rintro ⟨-, -, -, h⟩
        refine ⟨?_, ?_, fun _ => h⟩
        · rw [← hword]
          decide
        · rw [← hword]
          intro h26
          exact absurd h26 (by decide)
      · intro h
        exact ⟨hmode ▸ BitVec.le_refl _, hprio, hhalt, h.reset hword.symm⟩
    · refine rti (.inr h6) true ?_
      rw [h6] at hex
      have hx : execute 6 m₁ =
          (if m₁.cpu.cfg.hasRtt then opRti true else doTrap vecReserved : M Unit) m₁ := rfl
      rw [hx] at hex
      split at hex
      · exact hex
      · have hd := doTrap_dispatched vecReserved m₁
        rw [hex] at hd
        exact absurd hd hquiet
  · have hkept := privilegeKept_user hs hc hh hw hex hquiet
    obtain ⟨h0, h2, h5, h6⟩ : word ≠ 0 ∧ word ≠ 2 ∧ word ≠ 5 ∧ word ≠ 6 := by
      simpa only [IsMachineWord, not_or] using hw
    rw [hword] at h0 h2 h5 h6
    refine ⟨fun _ => ⟨h0, ?_, fun h => absurd h h5⟩, fun _ => hkept⟩
    rintro (h | h)
    · exact absurd h h2
    · exact absurd h h6

/-- A Supervisor or User program, relocated away from the I/O page: a step that dispatches nothing
keeps to its privilege exactly when no instruction is run, or the next one is harmless. -/
theorem privilege_kept_iff (hmode : s.mode = 1 ∨ s.mode = 3) (hmme : mmeOn s) (hio : NoIoPage s)
    (hquiet : ∀ vector psw pc, Event.dispatch vector psw pc ∉ (cpuStep s).events) :
    PrivilegeKept s ↔ s.ctl.halted = true ∨ s.ctl.waiting = true ∨ Harmless s := by
  have hs : Unprivileged s := by
    refine ⟨?_, hmme, hio⟩
    rcases hmode with h | h <;> rw [h] <;> decide
  cases hh : s.ctl.halted with
  | true =>
    have hstep := cpuStep_halted hh
    refine iff_of_true (privilegeKept_idle ?_ ?_ (.inl hh)) (.inl rfl) <;> rw [hstep]
  | false =>
  have hp := quiet_pending hquiet hh
  cases hw : s.ctl.waiting with
  | true =>
    have hstep := cpuStep_idle hh hp hw
    refine iff_of_true (privilegeKept_idle ?_ ?_ (.inr hw)) (.inr (.inl rfl)) <;> rw [hstep]
    · exact (idleSkip_kept s).1
    · exact (idleSkip_kept s).2
  | false =>
    obtain ⟨word, m, hx, hd⟩ := quiet_instr hquiet hs hh hw
    obtain ⟨m1, hfetch, hex⟩ := fetchExecute_ok hx
    obtain ⟨hmem, hregs, -⟩ := begin_kept s
    obtain ⟨hword, hc, hmem1, hsp⟩ :=
      fetch_value hs confined_begin hmem (congrArg RegFile.r hregs) hfetch
    have hkept := harmless_iff hs hh hword hc hmem1 hsp hex hd
    rw [privilegeKept_instr hh hp hw hx, hkept]
    simp

end Values

/-- A user program about to return to Kernel mode through a PSW it put on its own stack. -/
def returning : Cpu :=
  { storing with
    regs := { storing.regs with
      r := fun i => if i = regPc then 0o1000 else if i = regSp then 0o200 else 0 }
    mem := fun i => if i = 0o400 then 2 else 0 }

theorem returning_quiet : ∀ vector psw pc,
    Event.dispatch vector psw pc ∉ (cpuStep returning).events := by
  have hevents : (cpuStep returning).events = [.setjmp] := by decide +kernel
  intro vector psw pc
  rw [hevents]
  simp

/-- A user program reaches Kernel mode without a trap. -/
theorem returning_escalates :
    ¬∀ s : Cpu, s.mode = 1 ∨ s.mode = 3 → mmeOn s → NoIoPage s →
      (∀ vector psw pc, Event.dispatch vector psw pc ∉ (cpuStep s).events) → PrivilegeKept s := by
  intro h
  have hkept := h returning (by decide) (by decide) (lowPages_noIoPage rfl) returning_quiet
  have hmode : (cpuStep returning).cpu.mode = 0 := by decide +kernel
  have hle := hkept.mode
  rw [hmode] at hle
  exact absurd hle (by decide)

theorem storing_keeps_privilege : PrivilegeKept storing := by
  have hharmless : Harmless storing := by
    have hword : nextWord storing = 0o010011 := by decide +kernel
    refine ⟨?_, ?_, ?_⟩ <;> rw [hword]
    · decide
    · intro h
      exact absurd h (by decide)
    · intro h
      exact absurd h (by decide)
  have hevents : (cpuStep storing).events = [.setjmp] := by decide +kernel
  refine (privilege_kept_iff (by decide) (by decide) (lowPages_noIoPage rfl) ?_).2
    (.inr (.inr hharmless))
  intro vector psw pc
  rw [hevents]
  simp

end Pdp11
