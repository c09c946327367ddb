import Pdp11.Registers

namespace Pdp11

open FaultState

/-! RTI and RTT undo a trap. -/

/-! ## Pushes and pops in memory -/

/-- A push or a pop in memory: R6 moves to `v`. -/
structure StackStep (s s' : Cpu) (v : Word) : Prop where
  rest : s' = { s with
    regs.r := Function.update s.regs.r regSp v
    mmu.pdr := s'.mmu.pdr
    acct.cache := s'.acct.cache
    mem := s'.mem }
  map : SameMap s s'

namespace StackStep

variable {s s' : Cpu} {v : Word}

theorem cfg (h : StackStep s s' v) : s'.cfg = s.cfg := by rw [h.rest]

theorem ctl (h : StackStep s s' v) : s'.ctl = s.ctl := by rw [h.rest]

theorem psw (h : StackStep s s' v) : s'.regs.psw = s.regs.psw := by rw [h.rest]

theorem mode (h : StackStep s s' v) : s'.mode = s.mode := congrArg curMode h.psw

theorem r_sp (h : StackStep s s' v) : s'.regs.r regSp = v := by
  rw [h.rest]
  show Function.update s.regs.r regSp v regSp = v
  rw [Function.update_self]

theorem stackSet (h : StackStep s s' v) : StackSet s s.mode v s' := by
  refine stackSet_r ?_ h.psw ?_ ?_
  · rw [h.rest]
  · rw [h.rest]
  · intro m _
    rw [h.rest]

theorem r_of_ne (h : StackStep s s' v) {i : Field3}
    (hi : i ≠ regSp) : s'.regs.r i = s.regs.r i := by
  rw [h.rest]
  exact Function.update_of_ne hi v s.regs.r

end StackStep

theorem RamRef.congr {s t : Cpu} (hm : SameMap s t) (hc : t.cfg = s.cfg) {va : Word}
    {isWrite : Bool} {mode : Mode} {dspace : Bool} (h : RamRef t va isWrite mode dspace) :
    RamRef s va isWrite mode dspace where
  even := h.even
  page := by rw [← hm.refError_eq, h.page]
  ram := by rw [← hm.refPhysical_eq, h.ram]
  installed := by
    rw [← hm.refPhysical_eq, ← hc]
    exact h.installed

/-- A push that skips the stack check and lands in memory. -/
theorem pushWord_ram {value : Word} {m m' : Machine} (hx : stackExempt m.cpu = true)
    (h : pushWord value m = .ok () m')
    (hram : isIopage (refPhysical m.cpu (pushAddr m.cpu) m.cpu.mode true) = false) :
    RamRef m.cpu (pushAddr m.cpu) true m.cpu.mode true ∧
      StackStep m.cpu m'.cpu (pushAddr m.cpu) ∧
      m'.cpu.mem =
        memWriteWord m.cpu.mem (refPhysical m.cpu (pushAddr m.cpu) m.cpu.mode true) value := by
  let m1 := withReg regSp (pushAddr m.cpu) m
  have hmap : SameMap m.cpu m1.cpu := .of_mmu rfl
  have hz : stackZone m1.cpu (pushAddr m.cpu) = .fine := if_pos hx
  have hpush : pushWord value m = _ := pushWord_apply value m
  rw [hz] at hpush
  have hw : cpuWriteWordMode (pushAddr m.cpu) m.cpu.mode true value m1 = .ok () m' :=
    hpush.symm.trans h
  obtain ⟨href, hstep, hmem, -⟩ := cpuWriteWordMode_ram hw hram
  exact ⟨href.congr hmap rfl, ⟨hstep.rest, hmap.trans hstep.map⟩, hmem⟩

/-- A pop of a word in memory. -/
theorem popWord_ram {m : Machine} (h : RamRef m.cpu (m.cpu.regs.r regSp) false m.cpu.mode true) :
    ∃ m', popWord m =
        .ok (memReadWord m.cpu.mem (refPhysical m.cpu (m.cpu.regs.r regSp) m.cpu.mode true)) m' ∧
      StackStep m.cpu m'.cpu (m.cpu.regs.r regSp + 2) ∧ m'.cpu.mem = m.cpu.mem := by
  obtain ⟨m1, hread, hstep, hmem, -⟩ := cpuReadWordGen_ram h
  have hr : m1.cpu.regs.r = m.cpu.regs.r := by rw [hstep.rest]
  refine ⟨withReg regSp (m1.cpu.regs.r regSp + 2) m1, ?_, ⟨?_, hstep.map.trans (.of_mmu rfl)⟩, hmem⟩
  · rw [popWord_apply, hread]
  · show { m1.cpu with
      regs.r := Function.update m1.cpu.regs.r regSp (m1.cpu.regs.r regSp + 2) } = _
    rw [hr]
    conv_lhs => rw [hstep.rest]
    rfl

/-! ## The two halves of a trap -/

/-- A trap up to its pushes, which the new PC waits for. -/
def trapEntry (vector : Word) : M Word := do
  let s ← getCpu
  emit (.dispatch vector s.regs.psw (s.regs.r regPc))
  let newPc ← cpuReadWordGen vector 0 true
  let newPsw ← cpuReadWordGen (vector + 2) 0 true
  modifyCpu fun s' => putPsw s' (trapPsw newPsw (curMode s.regs.psw))
  modifyCpu fun s' => { s' with ctl.inTrapPush := true }
  pure newPc

/-- A trap behind its pushes. -/
def trapEnd (newPc : Word) : M Unit := do
  modifyCpu fun s => { s with ctl.inTrapPush := false }
  setReg regPc newPc
  modifyCpu fun s => { s with mmu.mmr0 := s.mmu.mmr0 ||| mmr0Ic }
  let s ← getCpu
  whenM (!s.ctl.servicingStackTrap) (checkStackLimit (s.regs.r regSp))

/-- A trap from the pushes on. -/
def trapPush (oldPsw oldPc newPc : Word) : M Unit := do
  pushWord oldPsw
  pushWord oldPc
  trapEnd newPc

/-- The machine with the dispatch of a vector recorded. -/
def dispatching (vector : Word) (m : Machine) : Machine :=
  { m with events := m.events ++ [.dispatch vector m.cpu.regs.psw (m.cpu.regs.r regPc)] }

theorem trapEntry_apply (vector : Word) (m : Machine) :
    trapEntry vector m = (do
      let newPc ← cpuReadWordGen vector 0 true
      let newPsw ← cpuReadWordGen (vector + 2) 0 true
      modifyCpu fun s => putPsw s (trapPsw newPsw (curMode m.cpu.regs.psw))
      modifyCpu fun s => { s with ctl.inTrapPush := true }
      pure newPc : M Word) (dispatching vector m) := rfl

/-- A trap records its dispatch first. -/
theorem doTrap_apply (vector : Word) (m : Machine) :
    doTrap vector m = (do
      let newPc ← cpuReadWordGen vector 0 true
      let newPsw ← cpuReadWordGen (vector + 2) 0 true
      modifyCpu fun s => putPsw s (trapPsw newPsw (curMode m.cpu.regs.psw))
      modifyCpu fun s => { s with ctl.inTrapPush := true }
      trapPush m.cpu.regs.psw (m.cpu.regs.r regPc) newPc : M Unit) (dispatching vector m) := rfl

theorem doTrap_split (vector : Word) (m : Machine) :
    doTrap vector m =
      (trapEntry vector >>= trapPush m.cpu.regs.psw (m.cpu.regs.r regPc)) m := by
  rw [doTrap_apply, bind_congr (trapEntry_apply vector m)]
  simp only [bind_assoc_eq, pure_bind_eq]

/-- Entry reads two vector words and loads a PSW: no logical register and no memory changes. -/
theorem trapEntry_kept {vector newPc : Word} {m m' : Machine}
    (h : trapEntry vector m = .ok newPc m') :
    LogicalKept m.cpu m'.cpu ∧ m'.cpu.mem = m.cpu.mem ∧ m'.cpu.cfg = m.cpu.cfg ∧
      m'.cpu.ctl.inTrapPush = true := by
  rw [trapEntry_apply] at h
  obtain ⟨pc, m2, h1, h⟩ := bind_eq_ok.1 h
  obtain ⟨psw, m3, h2, h⟩ := bind_eq_ok.1 h
  have hk : ReadKept m.cpu m3.cpu :=
    ((read_kept (read_cpuReadWordGen vector 0 true)).of_ok h1).trans
      ((read_kept (read_cpuReadWordGen (vector + 2) 0 true)).of_ok h2)
  cases h
  have hp := putPsw_eq m3.cpu (trapPsw psw (curMode m.cpu.regs.psw))
  refine ⟨?_, ?_, ?_, rfl⟩
  · exact ((LogicalKept.of_regs hk.regs).trans (logical_putPsw _ _)).trans (.of_regs rfl)
  · show (putPsw m3.cpu _).mem = _
    rw [hp, ← hk.mem]
  · show (putPsw m3.cpu _).cfg = _
    rw [hp, ← hk.cfg]

/-- A stack pointer for two words to be pushed: the words are memory, apart, and can be read back
in the current mode. -/
structure StackRoom (s : Cpu) : Prop where
  first : isIopage (refPhysical s (pushAddr s) s.mode true) = false
  second : isIopage (refPhysical s (pushAddr s - 2) s.mode true) = false
  readFirst : refError s (pushAddr s) false s.mode true = 0
  readSecond : refError s (pushAddr s - 2) false s.mode true = 0
  distinct : memIndex (refPhysical s (pushAddr s) s.mode true) ≠
    memIndex (refPhysical s (pushAddr s - 2) s.mode true)

/-- A state after two words are pushed in a trap: they are in memory, above R6. -/
structure TrapFrame (s s' : Cpu) (psw pc : Word) : Prop where
  stack : StackSet s s.mode (pushAddr s - 2) s'
  regs : s'.regs.psw = s.regs.psw
  sp : s'.regs.r regSp = pushAddr s - 2
  cfg : s'.cfg = s.cfg
  map : SameMap s s'
  writeFirst : RamRef s (pushAddr s) true s.mode true
  writeSecond : RamRef s (pushAddr s - 2) true s.mode true
  mem : s'.mem = memWriteWord
    (memWriteWord s.mem (refPhysical s (pushAddr s) s.mode true) psw)
    (refPhysical s (pushAddr s - 2) s.mode true) pc

theorem mmr0Ic_map (s : Cpu) : SameMap s { s with mmu.mmr0 := s.mmu.mmr0 ||| mmr0Ic } := by
  refine ⟨?_, rfl, rfl, fun _ => rfl⟩
  dsimp only
  rw [BitVec.and_or_distrib_right]
  exact BitVec.or_zero

/-- The state of a trap as its final stack check sees it. -/
def trapEnded (newPc : Word) (s : Cpu) : Cpu :=
  { s with
    ctl.inTrapPush := false
    regs.r := Function.update s.regs.r regPc newPc
    mmu.mmr0 := s.mmu.mmr0 ||| mmr0Ic }

theorem trapEnd_apply (newPc : Word) (m : Machine) :
    trapEnd newPc m =
      whenM (!m.cpu.ctl.servicingStackTrap) (checkStackLimit ((trapEnded newPc m.cpu).regs.r regSp))
        { m with cpu := trapEnded newPc m.cpu } := rfl

/-- The end of a trap moves no stack pointer, and keeps memory and the mapping. -/
theorem trapEnd_ok {newPc : Word} {m m' : Machine} (h : trapEnd newPc m = .ok () m') :
    m'.cpu.regs = { m.cpu.regs with r := Function.update m.cpu.regs.r regPc newPc } ∧
      m'.cpu.cfg = m.cpu.cfg ∧ m'.cpu.mem = m.cpu.mem ∧ SameMap m.cpu m'.cpu := by
  have hmap : SameMap m.cpu (trapEnded newPc m.cpu) := (mmr0Ic_map m.cpu).trans (.of_mmu rfl)
  have hend : m'.cpu = trapEnded newPc m.cpu ∨ m'.cpu = stackYellow (trapEnded newPc m.cpu) := by
    rw [trapEnd_apply] at h
    unfold whenM at h
    split at h
    · exact checkStackLimit_ok h
    · cases h
      exact .inl rfl
  obtain h | h := hend <;> rw [h]
  · exact ⟨rfl, rfl, rfl, hmap⟩
  · exact ⟨rfl, rfl, rfl, hmap.trans (.of_mmu rfl)⟩

theorem trapPush_frame {psw pc newPc : Word} {m m' : Machine} (hx : m.cpu.ctl.inTrapPush = true)
    (hroom : StackRoom m.cpu) (h : trapPush psw pc newPc m = .ok () m') :
    TrapFrame m.cpu m'.cpu psw pc := by
  obtain ⟨_, m2, hpush1, h⟩ := bind_eq_ok.1 h
  obtain ⟨_, m3, hpush2, h⟩ := bind_eq_ok.1 h
  have exempt {s : Cpu} (hs : s.ctl = m.cpu.ctl) : stackExempt s = true :=
    decide_eq_true (.inl (hs ▸ hx))
  -- the first push
  obtain ⟨ref1, step1, mem1⟩ := pushWord_ram (exempt rfl) hpush1 hroom.first
  have map2 : SameMap m.cpu m2.cpu := step1.map
  -- the second, two below it
  have hva : pushAddr m2.cpu = pushAddr m.cpu - 2 := congrArg (· - 2) step1.r_sp
  have hmode : m2.cpu.mode = m.cpu.mode := step1.mode
  have hram2 : isIopage (refPhysical m2.cpu (pushAddr m2.cpu) m2.cpu.mode true) = false := by
    rw [hva, hmode, map2.refPhysical_eq]
    exact hroom.second
  obtain ⟨ref2, step2, mem2⟩ := pushWord_ram (exempt step1.ctl) hpush2 hram2
  rw [hva, hmode] at ref2
  rw [hva] at step2
  rw [hva, hmode, map2.refPhysical_eq, mem1] at mem2
  obtain ⟨hregs, hcfg, hmem, hmap⟩ := trapEnd_ok h
  have hsp : m'.cpu.regs.r regSp = m3.cpu.regs.r regSp := by
    have hne : regSp ≠ regPc := by decide
    rw [hregs]
    exact Function.update_of_ne hne newPc m3.cpu.regs.r
  constructor
  case stack =>
    have s2 := step2.stackSet
    rw [hmode] at s2
    exact (step1.stackSet.trans s2).trans_kept (setPc_logical hregs)
  case regs =>
    rw [hregs]
    exact step2.psw.trans step1.psw
  case sp => exact hsp.trans step2.r_sp
  case cfg => exact hcfg.trans (step2.cfg.trans step1.cfg)
  case map => exact (map2.trans step2.map).trans hmap
  case writeFirst => exact ref1
  case writeSecond => exact ref2.congr map2 step1.cfg
  case mem => rw [hmem, mem2]

/-! ## The return -/

/-- What RTI does with a restored T bit. -/
def rtiTrace (isRtt : Bool) (s : Cpu) : Cpu :=
  if !isRtt ∧ s.regs.psw &&& pswT ≠ 0 then { s with ctl.tracePending := true } else s

theorem rtiTrace_rest (isRtt : Bool) (s : Cpu) :
    rtiTrace isRtt s = { s with ctl := (rtiTrace isRtt s).ctl } := by
  unfold rtiTrace
  split <;> rfl

theorem opRti_apply {isRtt : Bool} {pc psw : Word} {m m₁ m₂ : Machine}
    (h₁ : popWord m = .ok pc m₁) (h₂ : popWord (withReg regPc pc m₁) = .ok psw m₂) :
    opRti isRtt m = .ok () { m₂ with cpu := rtiTrace isRtt (putPsw m₂.cpu psw) } := by
  refine (bind_ok h₁).trans ?_
  have hset : setReg regPc pc m₁ = .ok () (withReg regPc pc m₁) := rfl
  refine (bind_ok hset).trans ?_
  exact bind_ok h₂

/-- A word stored at one address is read back, also after a store elsewhere. -/
theorem readBack (mem : Mem) {p q : PhysAddr} (h : memIndex p ≠ memIndex q) (v w : Word) :
    memReadWord (memWriteWord (memWriteWord mem p v) q w) p = v ∧
      memReadWord (memWriteWord (memWriteWord mem p v) q w) q = w := by
  unfold memReadWord memWriteWord
  rw [Function.update_of_ne h, Function.update_self, Function.update_self]
  exact ⟨rfl, rfl⟩

/-- The return from a frame pops its PC and PSW, and leaves the stack pointer above it. -/
theorem opRti_frame {s : Cpu} {psw pc : Word} {m : Machine} (isRtt : Bool) (hroom : StackRoom s)
    (h : TrapFrame s m.cpu psw pc) :
    ∃ m', opRti isRtt m = .ok () m' ∧ LogicalKept s m'.cpu ∧ m'.cpu.regs.r regPc = pc ∧
      m'.cpu.regs.psw = psw &&& s.cfg.pswMask ∧ m'.cpu.mem = m.cpu.mem := by
  have hmode : m.cpu.mode = s.mode := congrArg curMode h.regs
  obtain ⟨hpsw, hpc⟩ := readBack s.mem hroom.distinct psw pc
  rw [← h.mem] at hpsw hpc
  -- the PC
  have ref1 : RamRef m.cpu (m.cpu.regs.r regSp) false m.cpu.mode true := by
    rw [h.sp, hmode]
    refine ⟨h.writeSecond.even, ?_, ?_, ?_⟩
    · rw [h.map.refError_eq]
      exact hroom.readSecond
    · rw [h.map.refPhysical_eq]
      exact hroom.second
    · rw [h.map.refPhysical_eq, h.cfg]
      exact h.writeSecond.installed
  obtain ⟨m1, hpop1, step1, mem1⟩ := popWord_ram ref1
  rw [h.sp, hmode, h.map.refPhysical_eq, hpc] at hpop1
  have map1 : SameMap s m1.cpu := h.map.trans step1.map
  -- the PSW, two above it
  let m2 := withReg regPc pc m1
  have hne : regSp ≠ regPc := by decide
  have hsp2 : m2.cpu.regs.r regSp = pushAddr s := by
    have h1 : m1.cpu.regs.r regSp = pushAddr s - 2 + 2 := by rw [step1.r_sp, h.sp]
    rw [BitVec.sub_add_cancel] at h1
    exact (Function.update_of_ne hne pc m1.cpu.regs.r).trans h1
  have map2 : SameMap s m2.cpu := map1.trans (.of_mmu rfl)
  have hmode2 : m2.cpu.mode = s.mode := step1.mode.trans hmode
  have ref2 : RamRef m2.cpu (m2.cpu.regs.r regSp) false m2.cpu.mode true := by
    rw [hsp2, hmode2]
    refine ⟨h.writeFirst.even, ?_, ?_, ?_⟩
    · rw [map2.refError_eq]
      exact hroom.readFirst
    · rw [map2.refPhysical_eq]
      exact hroom.first
    · rw [map2.refPhysical_eq]
      exact (step1.cfg.trans h.cfg) ▸ h.writeFirst.installed
  obtain ⟨m3, hpop2, step2, mem2⟩ := popWord_ram ref2
  have hmem2 : m2.cpu.mem = m.cpu.mem := mem1
  rw [hsp2, hmode2, map2.refPhysical_eq, hmem2, hpsw] at hpop2
  have hregs : (rtiTrace isRtt (putPsw m3.cpu psw)).regs = (putPsw m3.cpu psw).regs := by
    rw [rtiTrace_rest]
  refine ⟨_, opRti_apply hpop1 hpop2, ?_, ?_, ?_, ?_⟩
  · have hs : StackSet s s.mode (pushAddr s + 2) m3.cpu := by
      have s1 := step1.stackSet
      have s2 := step2.stackSet
      rw [hmode] at s1
      rw [hmode2, hsp2] at s2
      exact ((h.stack.trans s1).trans_kept (setPc_logical rfl)).trans s2
    rw [pushAddr, BitVec.sub_add_cancel, ← sp_current] at hs
    exact (hs.kept.trans (logical_putPsw m3.cpu psw)).trans (.of_regs hregs)
  · rw [hregs, putPsw_pc, step2.r_of_ne hne.symm]
    exact Function.update_self regPc pc m1.cpu.regs.r
  · rw [hregs]
    have hcfg : m3.cpu.cfg = s.cfg := step2.cfg.trans (step1.cfg.trans h.cfg)
    exact congrArg (fun c : Config => psw &&& c.pswMask) hcfg
  · have hfinal : (rtiTrace isRtt (putPsw m3.cpu psw)).mem = m3.cpu.mem := by
      rw [rtiTrace_rest, putPsw_eq]
    exact hfinal.trans (mem2.trans hmem2)

/-- RTI or RTT right after a trap gives back the PC, the PSW, both register sets and every stack
pointer, and of memory only the two pushed words differ. The trap completes, and pushes to two
distinct words of memory the new mode can read. -/
theorem trap_return_inverse (isRtt : Bool) {vector newPc : Word} {m entry m₁ : Machine}
    (hpsw : m.cpu.regs.psw &&& m.cpu.cfg.pswMask = m.cpu.regs.psw)
    (hentry : trapEntry vector m = .ok newPc entry) (hroom : StackRoom entry.cpu)
    (htrap : doTrap vector m = .ok () m₁) :
    ∃ m₂, opRti isRtt m₁ = .ok () m₂ ∧
      m₂.cpu.regs.r regPc = m.cpu.regs.r regPc ∧
      m₂.cpu.regs.psw = m.cpu.regs.psw ∧
      LogicalKept m.cpu m₂.cpu ∧
      ∀ i, i ≠ memIndex (refPhysical entry.cpu (pushAddr entry.cpu) entry.cpu.mode true) →
        i ≠ memIndex (refPhysical entry.cpu (pushAddr entry.cpu - 2) entry.cpu.mode true) →
        m₂.cpu.mem i = m.cpu.mem i := by
  obtain ⟨hkept, hmem, hcfg, hx⟩ := trapEntry_kept hentry
  have hpush : trapPush m.cpu.regs.psw (m.cpu.regs.r regPc) newPc entry = .ok () m₁ := by
    rw [doTrap_split, bind_ok hentry] at htrap
    exact htrap
  have hframe := trapPush_frame hx hroom hpush
  obtain ⟨m₂, hrti, hlog, hpc, hret, hmem₂⟩ := opRti_frame isRtt hroom hframe
  refine ⟨m₂, hrti, hpc, ?_, hkept.trans hlog, ?_⟩
  · rw [hret, hcfg, hpsw]
  · intro i h1 h2
    rw [hmem₂, hframe.mem, hmem]
    unfold memWriteWord
    rw [Function.update_of_ne h2, Function.update_of_ne h1]

/-- A user program at 01000, with the TRAP vector leading to 02000 in Kernel mode. -/
def trapping : Machine :=
  { cpu := { cpuCreate with
      regs := { resetRegs with
        r := fun i => if i = regPc then 0o1000 else if i = regSp then 0o700 else i.setWidth 16
        psw := 0o140011
        stackfile := fun m => if m = 0 then 0o1400 else 0 }
      mem := fun i => if i = 14 then 0o2000 else 0 }
    events := [] }

theorem trapping_returns : ∃ m₁ m₂, doTrap vecTrap trapping = .ok () m₁ ∧
    m₁.cpu.mode = 0 ∧ opRti false m₁ = .ok () m₂ ∧ m₂.cpu.regs.psw = 0o140011 := by
  obtain ⟨newPc, hentry⟩ := eq_ok_final (r := trapEntry vecTrap trapping) (by decide +kernel)
  obtain ⟨⟨⟩, htrap⟩ := eq_ok_final (r := doTrap vecTrap trapping) (by decide +kernel)
  have hroom : StackRoom (final (trapEntry vecTrap trapping)).cpu := by
    constructor <;> decide +kernel
  obtain ⟨m₂, hrti, -, hpsw, -⟩ :=
    trap_return_inverse false (by decide +kernel) hentry hroom htrap
  exact ⟨_, m₂, htrap, by decide +kernel, hrti, hpsw⟩

end Pdp11
