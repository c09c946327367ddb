import Pdp11.MarkCalls
import Pdp11.ByteWrites
import Pdp11.Lib.Leads

namespace Pdp11

open FaultState

/-! Programs on a machine with management off, no interrupts enabled and nothing pending. -/

/-! ## Computations up to hidden state -/

/-- A state without what the programs here cannot tell apart. -/
def bare (s : Cpu) : Cpu :=
  { s with
    mmu.mmr1 := 0
    mmu.mmr2 := 0
    ctl.abortDepth := 0
    acct.instrCount := 0
    acct.cache := cacheReset }

@[simp] theorem bare_bare (s : Cpu) : bare (bare s) = bare s := rfl

/-- From `s` the computation `x` completes in `t` with the result `a`, up to hidden state. -/
def Does {α : Type} (x : M α) (s : Cpu) (a : α) (t : Cpu) : Prop :=
  ∀ m : Machine, bare m.cpu = bare s → ∃ m', x m = .ok a m' ∧ bare m'.cpu = bare t

namespace Does

variable {α β : Type} {x : M α} {f : α → M β} {a : α} {b : β} {s s' t t' u : Cpu}

theorem pure (a : α) (s : Cpu) : Does (pure a : M α) s a s := fun m hm => ⟨m, rfl, hm⟩

theorem bind (hx : Does x s a t) (hf : Does (f a) t b u) : Does (x >>= f) s b u := by
  intro m hm
  obtain ⟨m₁, h₁, hm₁⟩ := hx m hm
  obtain ⟨m₂, h₂, hm₂⟩ := hf m₁ hm₁
  exact ⟨m₂, (bind_ok h₁).trans h₂, hm₂⟩

theorem congr (h : Does x s a t) (ht : bare t = bare t') : Does x s a t' := by
  intro m hm
  obtain ⟨m', h', hm'⟩ := h m hm
  exact ⟨m', h', hm'.trans ht⟩

/-- What is read of the state is not hidden. -/
theorem get {g : Cpu → M β} (hg : ∀ s, g s = g (bare s)) (h : Does (g s) s b t) :
    Does (getCpu >>= g) s b t := by
  intro m hm
  have hsame : g m.cpu = g s := by rw [hg m.cpu, hm, ← hg s]
  obtain ⟨m', h', hm'⟩ := h m hm
  refine ⟨m', ?_, hm'⟩
  rw [bind_ok (show getCpu m = .ok m.cpu m from rfl), hsame]
  exact h'

/-- A change does not depend on hidden state. -/
theorem modify {g : Cpu → Cpu} (hg : ∀ s, bare (g s) = bare (g (bare s))) (s : Cpu) :
    Does (modifyCpu g) s () (g s) := by
  intro m hm
  refine ⟨_, rfl, ?_⟩
  show bare (g m.cpu) = bare (g s)
  rw [hg m.cpu, hm, ← hg s]

theorem lift {g : Cpu → α × Cpu} (hval : ∀ s, (g s).1 = (g (bare s)).1)
    (hg : ∀ s, bare (g s).2 = bare (g (bare s)).2) (s : Cpu) :
    Does (liftCpu g) s (g s).1 (g s).2 := by
  intro m hm
  have hval' : (g m.cpu).1 = (g s).1 := by rw [hval m.cpu, hm, ← hval s]
  refine ⟨{ m with cpu := (g m.cpu).2 }, ?_, ?_⟩
  · show EStateM.Result.ok (g m.cpu).1 _ = _
    rw [hval']
  · show bare (g m.cpu).2 = bare (g s).2
    rw [hg m.cpu, hm, ← hg s]

theorem whenM_false {c : Prop} [Decidable c] (h : ¬c) (act : M Unit) (s : Cpu) :
    Does (whenM c act) s () s := by
  unfold whenM
  rw [if_neg h]
  exact .pure () s

theorem whenM_true {c : Prop} [Decidable c] (h : c) {act : M Unit} (hact : Does act s () t) :
    Does (whenM c act) s () t := by
  unfold whenM
  rwa [if_pos h]

end Does

/-! ## Registers -/

/-- A register set. -/
def setR (s : Cpu) (i : Field3) (v : Word) : Cpu :=
  { s with regs.r := Function.update s.regs.r i v }

theorem does_getReg (i : Field3) (s : Cpu) : Does (getReg i) s (s.regs.r i) s :=
  .get (fun _ => rfl) (.pure _ s)

theorem does_setReg (i : Field3) (v : Word) (s : Cpu) : Does (setReg i v) s () (setR s i v) :=
  .modify (fun _ => rfl) s

theorem does_addReg (i : Field3) (d : Word) (s : Cpu) :
    Does (addReg i d) s () (setR s i (s.regs.r i + d)) :=
  .modify (fun _ => rfl) s

theorem does_track (reg : Field3) (d : Word) (s : Cpu) : Does (modifyCpu (mmr1Track reg d)) s () s := by
  intro m hm
  refine ⟨_, rfl, ?_⟩
  show bare (mmr1Track reg d m.cpu) = bare s
  rw [← hm]
  unfold mmr1Track
  split <;> rfl

/-! ## Memory -/

/-- An address of memory, with management off. -/
structure InRam (s : Cpu) (va : Word) : Prop where
  off : ¬mmeOn s
  below : va.toNat < 0o160000
  installed : va.toNat < s.cfg.memTop.toNat

namespace InRam

variable {s t : Cpu} {va : Word}

theorem not_iopage (h : InRam s va) : isIopage (unmappedPhysical va) = false := by
  have hpa := unmapped_toNat va h.below
  have htop : (iopageTop : PhysAddr).toNat = 0o17760000 := rfl
  refine decide_eq_false ?_
  rw [BitVec.le_def, hpa, htop]
  have := h.below
  omega

theorem not_nxm (h : InRam s va) : ¬s.cfg.memTop ≤ unmappedPhysical va := by
  rw [BitVec.not_le, BitVec.lt_def, unmapped_toNat va h.below]
  exact h.installed

theorem congr (h : InRam s va) (hmmu : t.mmu.mmr0 = s.mmu.mmr0) (hcfg : t.cfg = s.cfg) :
    InRam t va := by
  refine ⟨?_, h.below, by rw [hcfg]; exact h.installed⟩
  have hoff := h.off
  unfold mmeOn at hoff ⊢
  rwa [hmmu]

end InRam

theorem does_relocate {s : Cpu} (hoff : ¬mmeOn s) (va : Word) (isWrite : Bool) (mode : Mode)
    (dspace : Bool) : Does (mmuRelocate va isWrite mode dspace) s (unmappedPhysical va) s := by
  intro m hm
  have hmmr0 : m.cpu.mmu.mmr0 = s.mmu.mmr0 := congrArg (fun c => c.mmu.mmr0) hm
  have hoff' : ¬mmeOn m.cpu := by
    unfold mmeOn at hoff ⊢
    rwa [hmmr0]
  have herr : refError m.cpu va isWrite mode dspace = 0 := if_neg hoff'
  refine ⟨{ m with cpu := markRef va isWrite mode dspace m.cpu }, ?_, ?_⟩
  · rw [mmuRelocate_apply, if_neg (by simp [herr]), refPhysical_off hoff']
  · rw [markRef, if_neg hoff']
    exact hm

theorem does_checkNxm {s : Cpu} {pa : PhysAddr} (h : ¬s.cfg.memTop ≤ pa) :
    Does (checkNxm pa) s () s :=
  .get (fun _ => rfl) (.whenM_false h _ s)

theorem does_cacheRead (pa : PhysAddr) (s : Cpu) : Does (modifyCpu (cacheReadCpu pa)) s () s :=
  fun _ hm => ⟨_, rfl, hm⟩

theorem does_readWord {s : Cpu} {va : Word} (heven : va &&& 1 = 0) (h : InRam s va) (mode : Mode)
    (dspace : Bool) : Does (cpuReadWordGen va mode dspace) s (ramWord s va) s := by
  refine (Does.whenM_false (fun hodd => hodd heven) _ s).bind ?_
  refine (does_relocate h.off va false mode dspace).bind ?_
  rw [h.not_iopage]
  refine (does_checkNxm h.not_nxm).bind ((does_cacheRead _ s).bind ?_)
  exact .get (fun _ => rfl) (.pure _ s)

theorem does_fetch {s : Cpu} (heven : s.regs.r regPc &&& 1 = 0) (h : InRam s (s.regs.r regPc)) :
    Does fetch s (ramWord s (s.regs.r regPc)) (setR s regPc (s.regs.r regPc + 2)) := by
  refine (does_getReg regPc s).bind ?_
  refine Does.bind (.get (fun _ => rfl) (does_readWord heven h s.mode false)) ?_
  exact (does_addReg regPc 2 s).bind (.pure _ _)

/-- A byte of the memory that addresses reach with management off. -/
def ramByte (s : Cpu) (va : Word) : Byte := memReadByte s.mem (unmappedPhysical va)

theorem does_readByte {s : Cpu} {va : Word} (h : InRam s va) :
    Does (cpuReadByte va) s (ramByte s va) s := by
  refine .get (fun _ => rfl) ((does_relocate h.off va false s.mode true).bind ?_)
  rw [h.not_iopage]
  refine (does_checkNxm h.not_nxm).bind ((does_cacheRead _ s).bind ?_)
  exact .get (fun _ => rfl) (.pure _ s)

/-! ## Registers of the I/O page -/

/-- An even address of the I/O page, with management off. -/
structure InIo (s : Cpu) (va : Word) : Prop where
  off : ¬mmeOn s
  even : va &&& 1 = 0
  iopage : isIopage (unmappedPhysical va) = true
  reg : (unmappedPhysical va).setWidth 16 = va
  word : va &&& 0o177776 = va
  low : unmappedPhysical va &&& 1 = 0

section Io

variable {s : Cpu} {va a value : Word} {v : Cpu → Word} {f : Word → Cpu → Cpu}

theorem does_ioRead (hread : ∀ s, ioReadReg s a = some (v s, s)) (hv : ∀ s, v s = v (bare s))
    (s : Cpu) : Does (ioRead a) s (v s) s := by
  intro m hm
  have hsame : v m.cpu = v s := by rw [hv m.cpu, hm, ← hv s]
  refine ⟨m, ?_, hm⟩
  rw [ioRead_apply, hread m.cpu]
  dsimp only
  rw [hsame]

theorem does_ioWrite {g : Cpu → Cpu} (hwrite : ∀ s, ioWriteReg s a value = some (g s))
    (hg : ∀ s, bare (g s) = bare (g (bare s))) (s : Cpu) : Does (ioWrite a value) s () (g s) := by
  intro m hm
  refine ⟨⟨g m.cpu, m.events ++ [Event.ioWrite a value]⟩, ?_, ?_⟩
  · rw [ioWrite_apply, hwrite m.cpu]
  · show bare (g m.cpu) = bare (g s)
    rw [hg m.cpu, hm, ← hg s]

theorem does_readWord_io (h : InIo s va) (hread : ∀ s, ioReadReg s va = some (v s, s))
    (hv : ∀ s, v s = v (bare s)) (mode : Mode) (dspace : Bool) :
    Does (cpuReadWordGen va mode dspace) s (v s) s := by
  refine (Does.whenM_false (fun hodd => hodd h.even) _ s).bind ?_
  refine (does_relocate h.off va false mode dspace).bind ?_
  rw [h.iopage, h.reg]
  exact does_ioRead hread hv s

theorem does_readByte_io (h : InIo s va) (hread : ∀ s, ioReadReg s va = some (v s, s))
    (hv : ∀ s, v s = v (bare s)) :
    Does (cpuReadByte va) s ((v s &&& 0o377).setWidth 8) s := by
  refine .get (fun _ => rfl) ((does_relocate h.off va false s.mode true).bind ?_)
  rw [h.iopage, h.reg, h.word]
  refine (does_ioRead hread hv s).bind ?_
  rw [if_neg fun hodd => hodd h.low]
  exact .pure _ s

theorem does_writeWord_io (h : InIo s va) (hwrite : ∀ s, ioWriteReg s va value = some (f value s))
    (hf : ∀ s, bare (f value s) = bare (f value (bare s))) (mode : Mode) (dspace : Bool) :
    Does (cpuWriteWordMode va mode dspace value) s () (f value s) := by
  refine (Does.whenM_false (fun hodd => hodd h.even) _ s).bind ?_
  refine (does_relocate h.off va true mode dspace).bind ?_
  rw [h.iopage, h.reg]
  exact does_ioWrite hwrite hf s

theorem does_writeByte_io {byte : Byte} (h : InIo s va)
    (hread : ∀ s, ioReadReg s va = some (v s, s)) (hv : ∀ s, v s = v (bare s))
    (hwrite : ∀ value s, ioWriteReg s va value = some (f value s))
    (hf : ∀ value s, bare (f value s) = bare (f value (bare s))) :
    Does (cpuWriteByte va byte) s () (f ((v s &&& 0o177400) ||| byte.setWidth 16) s) := by
  refine .get (fun _ => rfl) ((does_relocate h.off va true s.mode true).bind ?_)
  rw [h.iopage, h.reg, h.word]
  refine (does_ioRead hread hv s).bind ?_
  rw [if_neg fun hodd => hodd h.low]
  exact does_ioWrite (hwrite _) (hf _) s

end Io

/-! ## Operands -/

section Operands

variable {s : Cpu} {spec : BitVec 6} {bytemode : Bool} {reg : Field3}

theorem does_decode_reg (hmode : spec.extractLsb' 3 3 = 0#3) (hreg : spec.extractLsb' 0 3 = reg)
    (s : Cpu) : Does (decodeOperand spec bytemode) s (.reg reg) s := by
  unfold decodeOperand
  dsimp only
  rw [hmode, hreg]
  exact .pure _ s

theorem does_decode_deferred (hmode : spec.extractLsb' 3 3 = 1#3)
    (hreg : spec.extractLsb' 0 3 = reg) (s : Cpu) :
    Does (decodeOperand spec bytemode) s (.mem (s.regs.r reg)) s := by
  unfold decodeOperand
  dsimp only
  rw [hmode, hreg]
  exact (does_getReg reg s).bind (.pure _ s)

theorem does_decode_increment (hmode : spec.extractLsb' 3 3 = 2#3)
    (hreg : spec.extractLsb' 0 3 = reg) (hpc : reg ≠ regPc) (s : Cpu) :
    Does (decodeOperand spec bytemode) s (.mem (s.regs.r reg))
      (setR s reg (s.regs.r reg + operandStep reg bytemode)) := by
  unfold decodeOperand
  dsimp only
  rw [hmode, hreg, if_neg hpc]
  refine (does_getReg reg s).bind ((does_addReg reg _ s).bind ?_)
  exact (does_track reg _ _).bind (.pure _ _)

theorem does_decode_immediate (hspec : spec = 0o27) (heven : s.regs.r regPc &&& 1 = 0)
    (h : InRam s (s.regs.r regPc)) :
    Does (decodeOperand spec bytemode) s (.imm (ramWord s (s.regs.r regPc)) (s.regs.r regPc))
      (setR s regPc (s.regs.r regPc + 2)) := by
  subst hspec
  exact (does_getReg regPc s).bind ((does_fetch heven h).bind (.pure _ _))

theorem does_decode_absolute (hspec : spec = 0o37) (heven : s.regs.r regPc &&& 1 = 0)
    (h : InRam s (s.regs.r regPc)) :
    Does (decodeOperand spec bytemode) s (.mem (ramWord s (s.regs.r regPc)))
      (setR s regPc (s.regs.r regPc + 2)) := by
  subst hspec
  exact (does_fetch heven h).bind (.pure _ _)

theorem does_decode_decrement (hmode : spec.extractLsb' 3 3 = 4#3)
    (hreg : spec.extractLsb' 0 3 = reg) (hsp : reg ≠ regSp) (s : Cpu) :
    Does (decodeOperand spec bytemode) s (.mem (s.regs.r reg + -operandStep reg bytemode))
      (setR s reg (s.regs.r reg + -operandStep reg bytemode)) := by
  unfold decodeOperand
  dsimp only
  rw [hmode, hreg]
  have hvalue : (setR s reg (s.regs.r reg + -operandStep reg bytemode)).regs.r reg =
      s.regs.r reg + -operandStep reg bytemode := Function.update_self _ _ _
  refine (does_addReg reg _ s).bind ((does_getReg reg _).bind ((does_track reg _ _).bind ?_))
  rw [hvalue]
  refine Does.bind (a := ()) ?_ (.pure _ _)
  exact (does_getReg reg _).bind (.whenM_false hsp _ _)

theorem does_read_reg (r : Field3) (s : Cpu) :
    Does (readOperand (.reg r) bytemode) s
      (if bytemode then s.regs.r r &&& 0o377 else s.regs.r r) s :=
  (does_getReg r s).bind (.pure _ s)

theorem does_read_byte {addr : Word} {b : Byte} (h : Does (cpuReadByte addr) s b s) :
    Does (readOperand (.mem addr) true) s (b.setWidth 16) s := h.bind (.pure _ s)

theorem does_read_word {addr w : Word} (h : Does (cpuReadWordGen addr s.mode true) s w s) :
    Does (readOperand (.mem addr) false) s w s := .get (fun _ => rfl) h

theorem does_write_word {addr value : Word} {t : Cpu}
    (h : Does (cpuWriteWordMode addr s.mode true value) s () t) :
    Does (writeOperand (.mem addr) false value) s () t := .get (fun _ => rfl) h

theorem does_write_byte {addr value : Word} {t : Cpu}
    (h : Does (cpuWriteByte addr (value.setWidth 8)) s () t) :
    Does (writeOperand (.mem addr) true value) s () t := h

end Operands

/-! ## Condition codes -/

theorem setFlag_bare (s : Cpu) (flag : Word) (on : Bool) :
    setFlag (bare s) flag on = bare (setFlag s flag on) := by
  unfold setFlag
  by_cases hfrozen : s.ctl.ccFrozen = true
  · rw [if_pos hfrozen, if_pos (show (bare s).ctl.ccFrozen = true from hfrozen)]
  · rw [if_neg hfrozen, if_neg (show ¬(bare s).ctl.ccFrozen = true from hfrozen)]
    rfl

theorem setNzV0_bare (s : Cpu) (result : Word) (bytemode : Bool) :
    setNzV0 (bare s) result bytemode = bare (setNzV0 s result bytemode) := by
  simp only [setNzV0, setNz, setFlag_bare]

theorem does_setNzV0 (result : Word) (bytemode : Bool) (s : Cpu) :
    Does (modifyCpu fun s => setNzV0 s result bytemode) s () (setNzV0 s result bytemode) :=
  .modify (fun s => by rw [setNzV0_bare, bare_bare]) s

/-- The result of an operation with the state after its codes, seen without hidden state. -/
def bareAlu (out : Word × Bool × Cpu) : Word × Bool × Cpu := (out.1, out.2.1, bare out.2.2)

theorem bareAlu_ite {c : Prop} [Decidable c] {x y x' y' : Word × Bool × Cpu} (hx : x' = bareAlu x)
    (hy : y' = bareAlu y) : (if c then x' else y') = bareAlu (if c then x else y) := by
  split
  · exact hx
  · exact hy

theorem singleOpAlu_bare (s : Cpu) (base : BitVec 9) (d : Word) (bytemode : Bool) :
    singleOpAlu (bare s) base d bytemode = bareAlu (singleOpAlu s base d bytemode) := by
  have alu (result : Word) (store : Bool) {u v : Cpu} (h : v = bare u) :
      (result, store, v) = bareAlu (result, store, u) := by
    rw [h]
    rfl
  have hflag (flag : Word) : flagSet (bare s) flag = flagSet s flag := rfl
  have hvnc (u : Cpu) : setVFromNc (bare u) = bare (setVFromNc u) := setFlag_bare u _ _
  have hswab (u : Cpu) : (if (bare u).cfg.model ≠ .m1120 then bare (setFlag u pswV false)
      else bare u) = bare (if u.cfg.model ≠ .m1120 then setFlag u pswV false else u) := by
    rw [apply_ite bare]
    rfl
  unfold singleOpAlu
  iterate 14
    refine bareAlu_ite (alu _ _ ?_) ?_
    · simp only [setNz, setFlag_bare, hflag, hvnc, hswab]
  rfl

theorem does_alu (base : BitVec 9) (d : Word) (bytemode : Bool) (s : Cpu) :
    Does (liftCpu fun s =>
        let out := singleOpAlu s base d bytemode
        ((out.1, out.2.1), out.2.2)) s
      ((singleOpAlu s base d bytemode).1, (singleOpAlu s base d bytemode).2.1)
      (singleOpAlu s base d bytemode).2.2 := by
  refine .lift (fun s => ?_) (fun s => ?_) s
  · dsimp only
    rw [singleOpAlu_bare]
    rfl
  · dsimp only
    rw [singleOpAlu_bare]
    rfl

/-! ## The bus between two instructions -/

/-- Nothing asks for an interrupt or is enabled to, and of the disks and tapes only the RK11 may be
at work. -/
structure QuietBus (d : Devices) : Prop where
  requests : d.intReq = 0
  pirq : d.pirq = 0
  clk : d.clkCsr &&& kw11lIe = 0
  tto : d.ttoCsr &&& dl11Ie = 0
  rk : d.rk.rkcs &&& rkcsIe = 0
  rp : d.rp.busy = false
  tm : d.tm.busy = false
  rl : d.rl.busy = false

def settleClk (now : Time) (d : Devices) : Devices :=
  if d.clkTickNs ≠ 0 ∧ d.clkNextNs ≤ now then
    { d with
      clkCsr := d.clkCsr ||| kw11lDone
      clkNextNs := d.clkNextNs + d.clkTickNs.setWidth 64 }
  else d

def settleTto (now : Time) (d : Devices) : Devices :=
  if d.ttoBusy ∧ d.ttoDoneNs ≤ now then
    { d with
      ttoBusy := false
      ttoCsr := d.ttoCsr ||| dl11Done }
  else d

def settleRk (now : Time) (d : Devices) : Devices :=
  if d.rk.busy ∧ d.rk.doneNs ≤ now then
    { d with
      rk.busy := false
      rk.rkcs := d.rk.rkcs ||| rkcsDone }
  else d

/-- A quiet bus after the events due at `now`. -/
def settleBus (now : Time) (d : Devices) : Devices := settleRk now (settleTto now (settleClk now d))

theorem or_and_clear {w : ℕ} {x mask bit : BitVec w} (hx : x &&& mask = 0) (hbit : bit &&& mask = 0) :
    (x ||| bit) &&& mask = 0 := by
  rw [BitMask.or_and_eq x hbit, hx]

namespace QuietBus

variable {d : Devices} {now : Time}

theorem settleClk (h : QuietBus d) : QuietBus (settleClk now d) := by
  unfold Pdp11.settleClk
  split
  · exact ⟨h.requests, h.pirq, or_and_clear h.clk (by decide), h.tto, h.rk, h.rp, h.tm, h.rl⟩
  · exact h

theorem settleTto (h : QuietBus d) : QuietBus (settleTto now d) := by
  unfold Pdp11.settleTto
  split
  · exact ⟨h.requests, h.pirq, h.clk, or_and_clear h.tto (by decide), h.rk, h.rp, h.tm, h.rl⟩
  · exact h

theorem settleRk (h : QuietBus d) : QuietBus (settleRk now d) := by
  unfold Pdp11.settleRk
  split
  · exact ⟨h.requests, h.pirq, h.clk, h.tto, or_and_clear h.rk (by decide), h.rp, h.tm, h.rl⟩
  · exact h

theorem settleBus (h : QuietBus d) : QuietBus (settleBus now d) := h.settleClk.settleTto.settleRk

end QuietBus

theorem serviceClock_settle {s : Cpu} (h : QuietBus s.dev) :
    serviceClock s = { s with dev := settleClk s.acct.timeNs s.dev } := by
  have htick : clkTick s = { s with dev.clkCsr := s.dev.clkCsr ||| kw11lDone } :=
    if_neg fun hie => hie (or_and_clear h.clk (by decide))
  unfold serviceClock settleClk
  split
  · rw [htick]
  · rfl

theorem consoleTxPoll_settle {s : Cpu} (h : QuietBus s.dev) :
    (if s.dev.ttoBusy then consoleTxPoll s else s) =
      { s with dev := settleTto s.acct.timeNs s.dev } := by
  have hie : ¬(s.dev.ttoCsr ||| dl11Done) &&& dl11Ie ≠ 0 :=
    fun hie => hie (or_and_clear h.tto (by decide))
  unfold consoleTxPoll settleTto
  by_cases hbusy : s.dev.ttoBusy = true
  · rw [if_pos hbusy]
    by_cases hdue : s.dev.ttoDoneNs ≤ s.acct.timeNs
    · rw [if_pos (And.intro hbusy hdue)]
      dsimp only
      rw [if_neg hie, if_pos (And.intro hbusy hdue)]
    · rw [if_neg fun hc => hdue hc.2, if_neg fun hc => hdue hc.2]
  · rw [if_neg hbusy, if_neg fun hc => hbusy hc.1]

theorem rkPoll_settle {s : Cpu} (h : QuietBus s.dev) :
    (if s.dev.rk.busy then rkPoll s else s) =
      { s with dev := settleRk s.acct.timeNs s.dev } := by
  have hie : ¬(s.dev.rk.rkcs ||| rkcsDone) &&& rkcsIe ≠ 0 :=
    fun hie => hie (or_and_clear h.rk (by decide))
  have hfinish : rkFinish s = { s with
      dev.rk.busy := false
      dev.rk.rkcs := s.dev.rk.rkcs ||| rkcsDone } := by
    have hreq : s.dev.intReq &&& ~~~(1#32 <<< IntId.rk.bit) = s.dev.intReq := by
      rw [h.requests]
      exact BitVec.zero_and
    unfold rkFinish
    dsimp only
    rw [if_neg hie, clrInt]
    dsimp only
    rw [hreq]
  unfold rkPoll settleRk
  by_cases hbusy : s.dev.rk.busy = true
  · rw [if_pos hbusy]
    by_cases hdue : s.dev.rk.doneNs ≤ s.acct.timeNs
    · rw [if_pos (And.intro hbusy hdue), if_pos (And.intro hbusy hdue), hfinish]
    · rw [if_neg fun hc => hdue hc.2, if_neg fun hc => hdue hc.2]
  · rw [if_neg hbusy, if_neg fun hc => hbusy hc.1]

theorem serviceDueEvents_settleBus {s : Cpu} (h : QuietBus s.dev) :
    serviceDueEvents s = { s with dev := settleBus s.acct.timeNs s.dev } := by
  have hclk : QuietBus (settleClk s.acct.timeNs s.dev) := h.settleClk
  have htto : QuietBus (settleTto s.acct.timeNs (settleClk s.acct.timeNs s.dev)) := hclk.settleTto
  have hrk : QuietBus (settleRk s.acct.timeNs (settleTto s.acct.timeNs
      (settleClk s.acct.timeNs s.dev))) := htto.settleRk
  unfold serviceDueEvents
  dsimp only
  rw [serviceClock_settle h, consoleTxPoll_settle hclk, rkPoll_settle htto]
  simp only [hrk.rp, hrk.tm, hrk.rl, Bool.false_eq_true, if_false]
  rfl

/-! ## Steps -/

/-- A running machine with management off that nothing disturbs. -/
structure Serene (s : Cpu) : Prop where
  off : ¬mmeOn s
  running : s.ctl.halted = false
  awake : s.ctl.waiting = false
  trace : s.ctl.tracePending = false
  yellow : s.ctl.stackYellowPending = false
  frozen : s.ctl.ccFrozen = false
  extra : s.acct.eisExtraNs = 0
  trap : s.regs.psw &&& pswT = 0
  bus : QuietBus s.dev

namespace Serene

variable {s t : Cpu}

theorem of_bare (hs : Serene s) (h : bare t = bare s) : Serene t := by
  have hmmr0 : t.mmu.mmr0 = s.mmu.mmr0 := congrArg (fun c => c.mmu.mmr0) h
  have hctl : (bare t).ctl = (bare s).ctl := congrArg (fun c => c.ctl) h
  have hextra : t.acct.eisExtraNs = s.acct.eisExtraNs := congrArg (fun c => c.acct.eisExtraNs) h
  have hpsw : t.regs.psw = s.regs.psw := congrArg (fun c => c.regs.psw) h
  have hdev : t.dev = s.dev := congrArg (fun c => c.dev) h
  refine ⟨?_, ?_, ?_, ?_, ?_, ?_, hextra.trans hs.extra, ?_, ?_⟩
  · have hoff := hs.off
    unfold mmeOn at hoff ⊢
    rwa [hmmr0]
  · exact (congrArg Control.halted hctl).trans hs.running
  · exact (congrArg Control.waiting hctl).trans hs.awake
  · exact (congrArg Control.tracePending hctl).trans hs.trace
  · exact (congrArg Control.stackYellowPending hctl).trans hs.yellow
  · exact (congrArg Control.ccFrozen hctl).trans hs.frozen
  · rw [hpsw]
    exact hs.trap
  · rw [hdev]
    exact hs.bus

theorem due (h : Serene s) : pendingDispatch s = none := by
  have hint : highestInt 0 = (none, 0) := by decide
  have hpir : highestPirLevel 0 = 0 := by decide
  unfold pendingDispatch pendingPirq
  rw [h.trace, h.yellow, h.bus.requests, h.bus.pirq, hint, hpir]
  simp

/-- The start of an instruction touches hidden state only. -/
theorem begin_bare (h : Serene s) : bare (beginInstr (armTrace s)) = bare s := by
  have harm : armTrace s = s := if_neg fun ht => ht h.trap
  have hfresh : bare { s with ctl.abortDepth := 0, ctl.ccFrozen := false, acct.eisExtraNs := 0 } =
      bare s := by
    simp only [bare, ← h.frozen, ← h.extra]
  unfold beginInstr
  rw [harm]
  dsimp only
  split
  · exact hfresh
  · exact hfresh

end Serene

/-- The state after an instruction whose execution ends in `t`. -/
def afterInstr (word : Word) (t : Cpu) : Cpu :=
  let now := t.acct.timeNs + (instrNs t word).setWidth 64
  { t with
    acct.timeNs := now
    dev := settleBus now t.dev }

theorem finishInstr_bare {t : Cpu} (word : Word) (hextra : t.acct.eisExtraNs = 0)
    (hbus : QuietBus t.dev) : bare (finishInstr word t) = bare (afterInstr word (bare t)) := by
  have hns : instrNs t word + t.acct.eisExtraNs = instrNs t word := by
    rw [hextra]
    exact BitVec.add_zero _
  have htime : accountTime word t = { t with
      acct.timeNs := t.acct.timeNs + (instrNs t word).setWidth 64 } := by
    unfold accountTime
    rw [hns]
  unfold finishInstr
  rw [htime]
  have hcounted : QuietBus (countInstr { t with
      acct.timeNs := t.acct.timeNs + (instrNs t word).setWidth 64 }).dev := hbus
  rw [serviceDueEvents_settleBus hcounted]
  rfl

/-- One step of a serene machine is the instruction at its PC. -/
theorem plain_step {s t : Cpu} {word : Word} (h : Serene s)
    (heven : s.regs.r regPc &&& 1 = 0) (hpc : InRam s (s.regs.r regPc))
    (hword : ramWord s (s.regs.r regPc) = word)
    (hexec : Does (execute word) (setR s regPc (s.regs.r regPc + 2)) () t)
    (hextra : t.acct.eisExtraNs = 0) (hbus : QuietBus t.dev) :
    bare (cpuStep s).cpu = bare (afterInstr word t) := by
  obtain ⟨m, hfetch, hm⟩ := does_fetch heven hpc ⟨_, [.setjmp]⟩ h.begin_bare
  obtain ⟨m', hrun, hm'⟩ := hexec m hm
  rw [hword] at hfetch
  have hexecuted : Executed s word m m' := ⟨h.running, h.due, h.awake, hfetch, hrun⟩
  have hextra' : m'.cpu.acct.eisExtraNs = 0 :=
    (congrArg (fun c => c.acct.eisExtraNs) hm').trans hextra
  have hdev : m'.cpu.dev = t.dev := congrArg (fun c => c.dev) hm'
  rw [hexecuted.cpuStep, finishInstr_bare word hextra' (hdev ▸ hbus), hm']
  rfl

end Pdp11
