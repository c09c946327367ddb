import Pdp11.BusOps
import Pdp11.StateHash
import Pdp11.StepViews

namespace Pdp11

open ByteSequence

/-! Reset as a canonical state, as the identity hash sees it. -/

/-! ## Runs of two machines -/

/-- An operation does not see the scratch variables that no call has written. -/
theorem BusOp.apply_trim (op : BusOp) {s t : Cpu} (h : trim .none s = trim .none t) :
    trim .none (op.apply s) = trim .none (op.apply t) := by
  have hmod {f : Cpu → Cpu} (hf : ∀ u, f (view Live.none.view u) = view Live.none.view (f u)) :
      trim .none (f s) = trim .none (f t) := by
    rw [trim_eq_view, trim_eq_view] at h ⊢
    rw [← hf, h, hf]
  cases op with
  | step => exact cpuStep_trim h
  | reset => exact hmod fun _ => rfl
  | init => exact hmod fun _ => rfl
  | read a =>
    refine hmod (f := fun u => ((ioReadReg u a).map Prod.snd).getD u) fun u => ?_
    rw [ioReadReg_view]
    cases ioReadReg u a <;> rfl
  | write a value =>
    refine hmod (f := fun u => (ioWriteReg u a value).getD u) fun u => ?_
    rw [ioWriteReg_view]
    cases ioWriteReg u a value <;> rfl
  | tick => exact hmod fun _ => clkTick_view rfl
  | input ch => exact hmod fun _ => consoleInput_view ch rfl
  | txPoll => exact hmod fun _ => consoleTxPoll_view rfl
  | rkPoll => exact hmod fun _ => rkPoll_view rfl
  | rpPoll => exact hmod fun _ => rpPoll_view rfl
  | tmPoll => exact hmod fun _ => tmPoll_view rfl
  | rlPoll => exact hmod fun _ => rlPoll_view rfl
  | acknowledge d => exact hmod fun _ => rfl
  | load r mem => exact hmod (f := fun u => { u with regs.r := r, mem := mem }) fun _ => rfl
  | setHalted halted => exact hmod (f := fun u => { u with ctl.halted := halted }) fun _ => rfl
  | rkAttach disk words => exact hmod (f := fun u => Pdp11.rkAttach u disk words) fun _ => rfl
  | rpAttach disk words => exact hmod (f := fun u => Pdp11.rpAttach u disk words) fun _ => rfl
  | tmAttach tape len wrp => exact hmod (f := fun u => Pdp11.tmAttach u tape len wrp) fun _ => rfl
  | rlAttach disk words => exact hmod (f := fun u => Pdp11.rlAttach u disk words) fun _ => rfl
  | rxAttach disk bytes => exact hmod (f := fun u => Pdp11.rxAttach u disk bytes) fun _ => rfl

/-- The machine after a sequence of operations, steps and input among them. -/
def afterOps (s : Cpu) (ops : List BusOp) : Cpu := ops.foldl (fun s op => op.apply s) s

theorem afterOps_trim (ops : List BusOp) {s t : Cpu} (h : trim .none s = trim .none t) :
    trim .none (afterOps s ops) = trim .none (afterOps t ops) := by
  induction ops generalizing s t with
  | nil => exact h
  | cons op ops ih => exact ih (op.apply_trim h)

/-- The hash covers no scratch variable. -/
theorem hashChunks_trim (l : Live) (s : Cpu) : hashChunks (trim l s) = hashChunks s := rfl

theorem hashChunks_of_trim {s t : Cpu} (h : trim .none s = trim .none t) :
    hashChunks s = hashChunks t := by
  rw [← hashChunks_trim .none, h, hashChunks_trim]

/-! ## What reset leaves -/

/-- Two machines of one model with the same installed memory, memory and media. -/
structure SameMachine (s t : Cpu) : Prop where
  cfg : s.cfg = t.cfg
  mem : s.mem = t.mem
  rk : s.dev.rk.disk = t.dev.rk.disk ∧ s.dev.rk.diskWords = t.dev.rk.diskWords
  rp : s.dev.rp.disk = t.dev.rp.disk ∧ s.dev.rp.diskWords = t.dev.rp.diskWords
  rl : s.dev.rl.disk = t.dev.rl.disk ∧ s.dev.rl.diskWords = t.dev.rl.diskWords
  rx : s.dev.rx.disk = t.dev.rx.disk ∧ s.dev.rx.diskBytes = t.dev.rx.diskBytes
  tape : s.dev.tm.tape = t.dev.tm.tape ∧ s.dev.tm.tapeLen = t.dev.tm.tapeLen
  drive : s.dev.tm.pos = t.dev.tm.pos ∧ s.dev.tm.wrp = t.dev.tm.wrp

/-- Hashed state that reset does not set: the frozen condition codes, the deadlines of completed
transfers, and the sector buffer of the RX11. -/
structure SameResidue (s t : Cpu) : Prop where
  ccFrozen : s.ctl.ccFrozen = t.ctl.ccFrozen
  tto : s.dev.ttoDoneNs = t.dev.ttoDoneNs
  rk : s.dev.rk.doneNs = t.dev.rk.doneNs
  rp : s.dev.rp.doneNs = t.dev.rp.doneNs
  tm : s.dev.tm.doneNs = t.dev.tm.doneNs
  rl : s.dev.rl.doneNs = t.dev.rl.doneNs
  buf : s.dev.rx.buf = t.dev.rx.buf

theorem cpuReset_twins {s t : Cpu} (h : SameMachine s t) (hr : SameResidue s t) :
    trim .none (cpuReset s) = trim .none (cpuReset t) := by
  unfold trim cpuReset
  dsimp only
  simp only [h.cfg, h.mem, h.rk, h.rp, h.rl, h.rx, h.tape, h.drive, hr.ccFrozen, hr.tto, hr.rk,
    hr.rp, hr.tm, hr.rl, hr.buf]
  rfl

theorem SameMachine.media {s t : Cpu} (h : SameMachine s t) : media s = media t := by
  unfold Pdp11.media
  simp only [h.rk, h.rp, h.rl, h.rx, h.tape]

/-- The residue can be read off the hashed bytes. -/
theorem residue_of_hashBytes {s t : Cpu} (h : SameMachine s t)
    (hbytes : hashBytes (cpuReset s) = hashBytes (cpuReset t)) : SameResidue s t := by
  have hrl : contents s.dev.rl.disk s.dev.rl.diskWords =
      contents t.dev.rl.disk t.dev.rl.diskWords := by rw [h.rl.1, h.rl.2]
  have hrx : contents s.dev.rx.disk s.dev.rx.diskBytes =
      contents t.dev.rx.disk t.dev.rx.diskBytes := by rw [h.rx.1, h.rx.2]
  have hid : identity (cpuReset s) = identity (cpuReset t) :=
    identity_of_hashBytes h.cfg h.media hbytes hrl hrx
  have hfield {α : Type} (v : Cpu → α) : v (identity (cpuReset s)) = v (identity (cpuReset t)) :=
    congrArg v hid
  exact
    { ccFrozen := hfield (·.ctl.ccFrozen)
      tto := hfield (·.dev.ttoDoneNs)
      rk := hfield (·.dev.rk.doneNs)
      rp := hfield (·.dev.rp.doneNs)
      tm := hfield (·.dev.tm.doneNs)
      rl := hfield (·.dev.rl.doneNs)
      buf := hfield (·.dev.rx.buf) }

/-! ## Canonical resets -/

/-- Two machines are hashed alike after reset and from there on, whatever both are given. -/
def HashedAlike (s t : Cpu) : Prop :=
  ∀ ops, hashBytes (afterOps (cpuReset s) ops) = hashBytes (afterOps (cpuReset t) ops) ∧
    stateHash (afterOps (cpuReset s) ops) = stateHash (afterOps (cpuReset t) ops)

/-- Reset is canonical for two machines exactly when the hashed state it does not set agrees. -/
theorem reset_canonical_iff {s t : Cpu} (h : SameMachine s t) :
    HashedAlike s t ↔ SameResidue s t := by
  constructor
  · intro hall
    exact residue_of_hashBytes h (hall []).1
  · intro hr ops
    have hchunks := hashChunks_of_trim (afterOps_trim ops (cpuReset_twins h hr))
    unfold hashBytes stateHash
    rw [hchunks]
    exact ⟨rfl, rfl⟩

/-- A machine that has run into a HALT is reset to the state of a new one. -/
theorem halted_canonical : HashedAlike cpuCreate (cpuStep cpuCreate).cpu :=
  (reset_canonical_iff ⟨rfl, rfl, ⟨rfl, rfl⟩, ⟨rfl, rfl⟩, ⟨rfl, rfl⟩, ⟨rfl, rfl⟩, ⟨rfl, rfl⟩,
    ⟨rfl, rfl⟩⟩).2 ⟨rfl, rfl, rfl, rfl, rfl, rfl, rfl⟩

/-! ## A program whose trace reset does not clear -/

/-- One step of the hash. -/
theorem fnvStep_inj {h h' x : BitVec 64}
    (heq : (h ^^^ x) * 0x100000001b3 = (h' ^^^ x) * 0x100000001b3) : h = h' := by
  have hunit : (0x100000001b3 : BitVec 64) * 0xce965057aff6957b = 1#64 := by decide
  have hx := congrArg (· * 0xce965057aff6957b) heq
  simp only [BitVec.mul_assoc, hunit, BitVec.mul_one] at hx
  exact (BitVec.xor_left_inj x).1 hx

theorem fnv1a_inj {h h' : BitVec 64} {bytes : List Byte} (heq : fnv1a h bytes = fnv1a h' bytes) :
    h = h' := by
  induction bytes generalizing h h' with
  | nil => exact heq
  | cons b bytes ih => exact fnvStep_inj (ih heq)

theorem foldl_fnv1a_inj {h h' : BitVec 64} {chunks : List (List Byte)}
    (heq : chunks.foldl fnv1a h = chunks.foldl fnv1a h') : h = h' := by
  induction chunks generalizing h h' with
  | nil => exact heq
  | cons c chunks ih => exact fnv1a_inj (ih heq)

theorem fnv1a_flag_inj {h : BitVec 64} {a b : Bool} (heq : fnv1a h [flag a] = fnv1a h [flag b]) :
    a = b := by
  have hstep : (h ^^^ (flag a).setWidth 64) * 0x100000001b3 =
      (h ^^^ (flag b).setWidth 64) * 0x100000001b3 := heq
  rw [BitVec.xor_comm h, BitVec.xor_comm h] at hstep
  have hflag := fnvStep_inj hstep
  revert hflag
  cases a <;> cases b <;> decide

/-- The frozen condition codes alone make a difference to the hash. -/
theorem stateHash_ccFrozen_inj {s : Cpu} {a b : Bool}
    (h : stateHash { s with ctl.ccFrozen := a } = stateHash { s with ctl.ccFrozen := b }) :
    a = b := by
  have hsplit (c : Bool) : hashChunks { s with ctl.ccFrozen := c } =
      (hashChunks s).take 6 ++ [flag c] :: (hashChunks s).drop 7 := rfl
  unfold stateHash at h
  rw [hsplit a, hsplit b, List.foldl_append, List.foldl_append, List.foldl_cons, List.foldl_cons] at h
  exact fnv1a_flag_inj (foldl_fnv1a_inj h)

/-- An 11/70 with `MOV #0,@#177776` at location 0: a store to the PSW. -/
def pswStore : Cpu :=
  (BusOp.load (fun _ => 0) fun i =>
    if i = 0 then 0o012737 else if i = 2 then 0o177776 else 0).apply cpuCreate

theorem pswStore_mem : (cpuStep pswStore).cpu.mem = pswStore.mem := rfl

theorem pswStore_reset :
    cpuReset (cpuStep pswStore).cpu = { cpuReset pswStore with ctl.ccFrozen := true } := rfl

theorem pswStore_reached : Reached .m1170 pswStore := .next _ (.create .m1170)

/-- Two histories of one machine that reset does not bring together. -/
theorem reset_not_canonical : ¬∀ (model : Model) (s t : Cpu), Reached model s → Reached model t →
    SameMachine s t → stateHash (cpuReset s) = stateHash (cpuReset t) := by
  intro h
  have hsame : SameMachine pswStore (cpuStep pswStore).cpu :=
    ⟨rfl, pswStore_mem.symm, ⟨rfl, rfl⟩, ⟨rfl, rfl⟩, ⟨rfl, rfl⟩, ⟨rfl, rfl⟩, ⟨rfl, rfl⟩, ⟨rfl, rfl⟩⟩
  have hhash := h .m1170 pswStore (cpuStep pswStore).cpu pswStore_reached
    (.next .step pswStore_reached) hsame
  rw [pswStore_reset] at hhash
  exact absurd (stateHash_ccFrozen_inj (s := cpuReset pswStore) (a := false) hhash) (by decide)

end Pdp11
