import Pdp11.TrapReturn

namespace Pdp11

open FaultState

/-! Programs outside Kernel mode, on pages that stay out of the I/O page. -/

/-! ## What such a program may touch -/

/-- The modes a program refers to memory in. -/
def UsesMode (s : Cpu) (k : Mode) : Prop := k = s.mode ∨ k = prevMode s.regs.psw

/-- No reference that the pages of these modes permit reaches the I/O page. -/
def NoIoPage (s : Cpu) : Prop :=
  ∀ va isWrite k d, UsesMode s k → refError s va isWrite k d = 0 →
    isIopage (refPhysical s va k d) = false

/-- A program that runs outside Kernel mode, relocated, and away from the I/O page. -/
structure Unprivileged (s : Cpu) : Prop where
  mode : s.mode ≠ 0
  mme : mmeOn s
  noIoPage : NoIoPage s

/-- A memory word some address of these modes maps to, through a page that permits writing and
within its length. -/
def Writable (s : Cpu) (i : BitVec 21) : Prop :=
  ∃ va k d, UsesMode s k ∧
    acfViolation (s.mmu.pdr (mmuIndex s.mmu va k d) &&& pdrAcf) true = 0 ∧
    pageLengthError (s.mmu.pdr (mmuIndex s.mmu va k d)) va = false ∧
    memIndex (mmuPhysical s.mmu (mmuIndex s.mmu va k d) va) = i

theorem writable_of_refError {s : Cpu} (hmme : mmeOn s) {va : Word} {k : Mode} {d : Bool}
    (hk : UsesMode s k) (h : refError s va true k d = 0) :
    Writable s (memIndex (refPhysical s va k d)) := by
  rw [refError, if_pos hmme, mmuError] at h
  have hor : ∀ x y : Word, x ||| y = 0 → x = 0 ∧ y = 0 := by
    intro x y hxy
    exact BitVec.or_eq_zero_iff.1 hxy
  obtain ⟨hacf, hlen⟩ := hor _ _ h
  refine ⟨va, k, d, hk, hacf, ?_, ?_⟩
  · by_contra hl
    rw [if_pos (by simpa using hl)] at hlen
    exact absurd hlen (by decide)
  · rw [refPhysical, if_pos hmme]

/-- A state within an instruction that started from `s` and kept to its bounds. -/
structure Confined (s t : Cpu) : Prop where
  cfg : t.cfg = s.cfg
  map : SameMap s t
  psw : t.regs.psw &&& ~~~0o17 = s.regs.psw &&& ~~~0o17
  halted : t.ctl.halted = s.ctl.halted
  depth : t.ctl.abortDepth = 0
  dev : t.dev = s.dev
  mem : ∀ i, t.mem i ≠ s.mem i → Writable s i

namespace Confined

variable {s t u : Cpu}

theorem mode (h : Confined s t) : t.mode = s.mode := BitMask.extractLsb'_eq h.psw 14 2 (by decide)

theorem prev (h : Confined s t) : prevMode t.regs.psw = prevMode s.regs.psw :=
  BitMask.extractLsb'_eq h.psw 12 2 (by decide)

theorem priority (h : Confined s t) : priority t.regs.psw = priority s.regs.psw :=
  BitMask.extractLsb'_eq h.psw 5 3 (by decide)

/-- A change outside what confinement speaks of. -/
theorem same (h : Confined s t) (hcfg : u.cfg = t.cfg) (hmap : SameMap t u)
    (hpsw : u.regs.psw = t.regs.psw) (hhalted : u.ctl.halted = t.ctl.halted)
    (hdepth : u.ctl.abortDepth = t.ctl.abortDepth) (hdev : u.dev = t.dev) (hmem : u.mem = t.mem) :
    Confined s u where
  cfg := hcfg.trans h.cfg
  map := h.map.trans hmap
  psw := hpsw ▸ h.psw
  halted := hhalted.trans h.halted
  depth := hdepth.trans h.depth
  dev := hdev.trans h.dev
  mem := by
    rw [hmem]
    exact h.mem

theorem read (h : Confined s t) (hr : ReadKept t u) (hdev : u.dev = t.dev) : Confined s u := by
  refine h.same hr.cfg hr.map (congrArg RegFile.psw hr.regs) ?_ ?_ hdev hr.mem
  · rw [hr.rest]
  · rw [hr.rest]

theorem codes (h : Confined s t) (hc : CodesOnly t u) : Confined s u := by
  obtain ⟨psw, rfl, hp⟩ := hc
  exact ⟨h.cfg, h.map.trans (.of_mmu rfl), hp.trans h.psw, h.halted, h.depth, h.dev, h.mem⟩

/-- A store to a writable word. -/
theorem store (h : Confined s t) {i : BitVec 21} (hi : Writable s i) (v : Word) :
    Confined s { t with mem := Function.update t.mem i v } where
  cfg := h.cfg
  map := h.map.trans (.of_mmu rfl)
  psw := h.psw
  halted := h.halted
  depth := h.depth
  dev := h.dev
  mem j hj := by
    by_cases hji : j = i
    · exact hji ▸ hi
    · have hj : Function.update t.mem i v j ≠ s.mem j := hj
      rw [Function.update_of_ne hji] at hj
      exact h.mem j hj

end Confined

/-! ## Dispatches -/

/-- A trap or an interrupt was dispatched. -/
def Dispatched (m : Machine) : Prop := ∃ v psw pc, Event.dispatch v psw pc ∈ m.events

/-- Events are never taken back. -/
theorem core_events {α : Type} {x : M α} (h : CoreBuilt x) (e : Event) :
    Keeps (fun m => e ∈ m.events) x := by
  refine h.keeps ?_
  intro α x hx m he
  have happend (e' : Event) : e ∈ m.events ++ [e'] := List.mem_append_left _ he
  cases hx with
  | fault vector => exact happend _
  | ioRead a =>
    rw [ioRead_apply]
    cases ioReadReg m.cpu a with
    | none => exact happend _
    | some p => exact he
  | ioWrite a value =>
    rw [ioWrite_apply]
    cases ioWriteReg m.cpu a value with
    | none => exact List.mem_append_left _ (happend _)
    | some s => exact happend _
  | dispatch vector psw pc => exact happend _
  | _ => exact he

theorem core_dispatched {α : Type} {x : M α} (h : CoreBuilt x) : Keeps Dispatched x := by
  rintro m ⟨v, psw, pc, he⟩
  exact ⟨v, psw, pc, core_events h _ m he⟩

theorem core_trapPush (psw pc newPc : Word) : CoreBuilt (trapPush psw pc newPc) := by
  refine (core_of_basic (basic_pushWord _)).bind fun _ =>
    (core_of_basic (basic_pushWord _)).bind fun _ => ?_
  exact (Built.op (.ctl fun s => { s.ctl with inTrapPush := false })).bind fun _ =>
    (core_of_basic (basic_setReg _ _)).bind fun _ => (Built.op .complete).bind fun _ =>
    (Built.op .get).bind fun _ => built_whenM (core_checkStackLimit _)

theorem doTrap_dispatched (vector : Word) (m : Machine) : Dispatched (final (doTrap vector m)) := by
  have hd : Dispatched (dispatching vector m) :=
    ⟨_, _, _, List.mem_append_right _ (List.mem_singleton_self _)⟩
  rw [doTrap_apply]
  refine core_dispatched ?_ _ hd
  exact (core_cpuReadWordGen _ _ _).bind fun _ => (core_cpuReadWordGen _ _ _).bind fun _ =>
    (core_putPsw fun _ => _).bind fun _ =>
    (Built.op (.ctl fun s => { s.ctl with inTrapPush := true })).bind fun _ => core_trapPush _ _ _

theorem stepOp_dispatched {α : Type} {x : M α} (h : StepOp α x) : Keeps Dispatched x := by
  cases h with
  | core hx => exact core_dispatched (.op hx)
  | acknowledge p => exact fun m hd => hd
  | count => exact fun m hd => hd
  | begin => exact fun m hd => hd
  | setjmp =>
    rintro m ⟨v, psw, pc, he⟩
    exact ⟨v, psw, pc, List.mem_append_left _ he⟩

theorem doTrap_bind_dispatched (vector : Word) {f : Unit → M Unit}
    (hf : ∀ a, Keeps Dispatched (f a)) (m : Machine) :
    Dispatched (final ((doTrap vector >>= f) m)) := by
  have hd := doTrap_dispatched vector m
  rw [bind_apply]
  cases hx : doTrap vector m with
  | ok a m' =>
    rw [hx] at hd
    exact hf a m' hd
  | error e m' =>
    rw [hx] at hd
    exact hd

theorem stepResult_events (r : EStateM.Result Unit Machine Unit) :
    (stepResult r).events = (final r).events := by
  cases r <;> rfl

/-! ## References -/

section References

variable {s : Cpu} {va : Word} {k : Mode} {d : Bool} {m : Machine}

theorem confined_markRef (isWrite : Bool) (h : Confined s m.cpu) :
    Confined s (markRef va isWrite k d m.cpu) := by
  have hmap := markRef_map va isWrite k d m.cpu
  rw [markRef_rest] at hmap ⊢
  exact h.same rfl hmap rfl rfl rfl rfl rfl

theorem confined_captureRef (isWrite : Bool) (h : Confined s m.cpu) :
    Confined s (captureRef va isWrite k d m.cpu) := by
  have herr : refError m.cpu va isWrite k d &&& ~~~mmr0Freeze = 0 := by
    unfold refError
    split
    · exact mmuError_bits _ _ _
    · exact BitVec.zero_and
  have hkept := captureMmu_kept (mmuIndex m.cpu.mmu va k d) herr m.cpu
  have hdev : (captureRef va isWrite k d m.cpu).dev = m.cpu.dev := by
    unfold captureRef captureMmu
    split <;> rfl
  exact h.read hkept hdev

/-- A fault records its vector. -/
theorem confined_fault {α : Type} (vector : Word) (h : Confined s m.cpu) :
    Confined s (final ((cpuBusFault vector : M α) m)).cpu :=
  h.same rfl (.of_mmu rfl) rfl rfl rfl rfl rfl

theorem confined_refusal {α : Type} (isWrite : Bool) (h : Confined s m.cpu) :
    Confined s (final (refusal va isWrite k d m : EStateM.Result Unit Machine α)).cpu := by
  unfold refusal
  split
  · exact confined_fault _ h
  · have hc : Confined s (captureRef va isWrite k d m.cpu) := confined_captureRef isWrite h
    exact confined_fault (m := ⟨_, m.events⟩) _ hc

/-- A reference that goes on goes to memory. -/
theorem ram_of_refError {isWrite : Bool} (hs : Unprivileged s) (hk : UsesMode s k)
    (h : Confined s m.cpu) (he : refError m.cpu va isWrite k d = 0) :
    isIopage (refPhysical m.cpu va k d) = false := by
  rw [h.map.refPhysical_eq]
  rw [h.map.refError_eq] at he
  exact hs.noIoPage va isWrite k d hk he

theorem writable_ref (hs : Unprivileged s) (hk : UsesMode s k) (h : Confined s m.cpu)
    (he : refError m.cpu va true k d = 0) : Writable s (memIndex (refPhysical m.cpu va k d)) := by
  rw [h.map.refPhysical_eq]
  rw [h.map.refError_eq] at he
  exact writable_of_refError hs.mme hk he

theorem confined_readWordGen (hs : Unprivileged s) (hk : UsesMode s k) (h : Confined s m.cpu) :
    Confined s (final (cpuReadWordGen va k d m)).cpu := by
  rw [cpuReadWordGen_apply]
  by_cases hr : refused va false k d m.cpu
  · rw [if_pos hr]
    exact confined_refusal false h
  have he : refError m.cpu va false k d = 0 := not_not.1 (not_or.1 hr).2
  have hram := ram_of_refError hs hk h he
  have hm : Confined s (markRef va false k d m.cpu) := confined_markRef false h
  rw [if_neg hr, readPhysical, if_neg (by simp [hram])]
  split
  · exact hm.same rfl (.of_mmu rfl) rfl rfl rfl rfl rfl
  · exact hm.same rfl (.of_mmu rfl) rfl rfl rfl rfl rfl

theorem confined_writeWordMode (hs : Unprivileged s) (hk : UsesMode s k) (value : Word)
    (h : Confined s m.cpu) : Confined s (final (cpuWriteWordMode va k d value m)).cpu := by
  rw [cpuWriteWordMode_apply]
  by_cases hr : refused va true k d m.cpu
  · rw [if_pos hr]
    exact confined_refusal true h
  have he : refError m.cpu va true k d = 0 := not_not.1 (not_or.1 hr).2
  have hram := ram_of_refError hs hk h he
  have hm : Confined s (markRef va true k d m.cpu) := confined_markRef true h
  rw [if_neg hr, writePhysical, if_neg (by simp [hram])]
  split
  · exact hm.same rfl (.of_mmu rfl) rfl rfl rfl rfl rfl
  · exact hm.store (writable_ref hs hk h he) _

/-- A relocated reference goes on in memory, for a store in a word that is writable. -/
theorem confined_relocate {α : Type} (isWrite : Bool) {f : PhysAddr → M α} (hs : Unprivileged s)
    (hk : UsesMode s k) (h : Confined s m.cpu)
    (hf : ∀ pa m', Confined s m'.cpu → isIopage pa = false →
      (isWrite = true → Writable s (memIndex pa)) → Confined s (final (f pa m')).cpu) :
    Confined s (final ((mmuRelocate va isWrite k d >>= f) m)).cpu := by
  have ha := mmuRelocate_apply va isWrite k d m
  by_cases he : refError m.cpu va isWrite k d = 0
  · rw [if_neg (not_not.2 he)] at ha
    rw [bind_ok ha]
    refine hf _ _ (confined_markRef isWrite h) (ram_of_refError hs hk h he) ?_
    rintro rfl
    exact writable_ref hs hk h he
  · rw [if_pos he] at ha
    rw [bind_error ha]
    have hc : Confined s (captureRef va isWrite k d m.cpu) := confined_captureRef isWrite h
    exact hc.same rfl (.of_mmu rfl) rfl rfl rfl rfl rfl

theorem confined_checkNxm {α : Type} {pa : PhysAddr} {f : Unit → M α} (h : Confined s m.cpu)
    (hf : Confined s (final (f () m)).cpu) : Confined s (final ((checkNxm pa >>= f) m)).cpu := by
  have ha := checkNxm_apply pa m
  by_cases hn : m.cpu.cfg.memTop ≤ pa
  · rw [if_pos hn] at ha
    rw [bind_error ha]
    exact h.same rfl (.of_mmu rfl) rfl rfl rfl rfl rfl
  · rw [if_neg hn] at ha
    rw [bind_ok ha]
    exact hf

theorem confined_readByte (hs : Unprivileged s) (h : Confined s m.cpu) :
    Confined s (final (cpuReadByte va m)).cpu := by
  have hk : UsesMode s m.cpu.mode := .inl h.mode
  refine confined_relocate false hs hk h ?_
  intro pa m' h' hram _
  rw [if_neg (by simp [hram])]
  exact confined_checkNxm h' (h'.same rfl (.of_mmu rfl) rfl rfl rfl rfl rfl)

theorem confined_writeByte (hs : Unprivileged s) (value : Byte) (h : Confined s m.cpu) :
    Confined s (final (cpuWriteByte va value m)).cpu := by
  have hk : UsesMode s m.cpu.mode := .inl h.mode
  refine confined_relocate true hs hk h ?_
  intro pa m' h' hram hw
  rw [if_neg (by simp [hram])]
  exact confined_checkNxm h' (h'.store (hw rfl) _)

end References

/-! ## Programs -/

/-- Within an instruction: it dispatched, or kept to its bounds so far. -/
def Safe (s : Cpu) (m : Machine) : Prop := Dispatched m ∨ Confined s m.cpu

section Programs

variable {s : Cpu}

theorem keeps_of_core {α : Type} {x : M α} (hx : CoreBuilt x)
    (h : ∀ m, Confined s m.cpu → Safe s (final (x m))) : Keeps (Safe s) x := by
  intro m hm
  rcases hm with hd | hc
  · exact .inl (core_dispatched hx m hd)
  · exact h m hc

/-- Outside Kernel mode the stack is not checked. -/
theorem stackZone_fine {t : Cpu} (h : t.mode ≠ 0) (v : Word) : stackZone t v = .fine :=
  if_pos (decide_eq_true (.inr h))

theorem mmr1Track_confined {t : Cpu} (reg : Field3) (delta : Word) (h : Confined s t) :
    Confined s (mmr1Track reg delta t) := by
  unfold mmr1Track
  split
  · exact h
  · exact h.same rfl ⟨rfl, rfl, rfl, fun _ => rfl⟩ rfl rfl rfl rfl rfl

theorem basicOp_confined (hs : Unprivileged s) {α : Type} {x : M α} (hx : BasicOp α x) (m : Machine)
    (h : Confined s m.cpu) : Confined s (final (x m)).cpu := by
  have hk : UsesMode s m.cpu.mode := .inl h.mode
  cases hx with
  | get => exact h
  | regs f => exact h.same rfl (.of_mmu rfl) rfl rfl rfl rfl rfl
  | codes f hf => exact h.codes (hf m.cpu)
  | track reg delta => exact mmr1Track_confined reg delta h
  | fp f => exact h.same rfl (.of_mmu rfl) rfl rfl rfl rfl rfl
  | extra ns _ => exact h.same rfl (.of_mmu rfl) rfl rfl rfl rfl rfl
  | stackLimit v =>
    have hmode : m.cpu.mode ≠ 0 := h.mode ▸ hs.mode
    rw [checkStackLimit_apply, stackZone_fine hmode]
    exact h
  | fetchWord va => exact confined_readWordGen hs hk h
  | readWord va => exact confined_readWordGen hs hk h
  | writeWord va value => exact confined_writeWordMode hs hk value h
  | readByte va => exact confined_readByte hs h
  | writeByte va value => exact confined_writeByte hs value h

theorem basic_confined (hs : Unprivileged s) {α : Type} {x : M α} (hx : BasicBuilt x) :
    Keeps (fun m => Confined s m.cpu) x :=
  hx.keeps fun hop m h => basicOp_confined hs hop m h

theorem basic_safe (hs : Unprivileged s) {α : Type} {x : M α} (hx : BasicBuilt x) :
    Keeps (Safe s) x :=
  keeps_of_core (core_of_basic hx) fun m h => .inr (basic_confined hs hx m h)

theorem readPrevMode_safe (hs : Unprivileged s) {pm : Mode} (hk : UsesMode s pm) (cm : Mode)
    (d : Bool) (src : Operand) : Keeps (Safe s) (readPrevMode pm cm d src) := by
  refine keeps_of_core (core_readPrevMode pm cm d src) fun m h => .inr ?_
  cases src with
  | reg r => exact h
  | imm _ _ => exact confined_readWordGen hs hk h
  | mem _ => exact confined_readWordGen hs hk h

theorem writePrevMode_safe (hs : Unprivileged s) {pm : Mode} (hk : UsesMode s pm) (cm : Mode)
    (d : Bool) (value : Word) (dst : Operand) : Keeps (Safe s) (writePrevMode pm cm d value dst) := by
  refine keeps_of_core (core_writePrevMode pm cm d value dst) fun m h => .inr ?_
  cases dst with
  | reg r =>
    show Confined s (setPrevModeReg pm cm r value m.cpu)
    unfold setPrevModeReg
    split
    · exact h.same rfl (.of_mmu rfl) rfl rfl rfl rfl rfl
    · exact h.same rfl (.of_mmu rfl) rfl rfl rfl rfl rfl
  | imm _ _ => exact confined_writeWordMode hs hk value h
  | mem _ => exact confined_writeWordMode hs hk value h

theorem opMfp_safe (hs : Unprivileged s) (word : Word) (d : Bool) :
    Keeps (Safe s) (opMfp word d) := by
  refine keeps_of_core (core_opMfp word d) fun m h => ?_
  have hk : UsesMode s (prevMode m.cpu.regs.psw) := .inr h.prev
  have hx : Keeps (Safe s) (do
      let src ← decodeOperand (dstSpec word) false
      let value ← readPrevMode (prevMode m.cpu.regs.psw) m.cpu.mode d src
      modifyCpu fun s => setNzV0 s value false
      pushWord value : M Unit) :=
    (basic_safe hs (basic_decodeOperand _ _)).bind fun _ =>
      (readPrevMode_safe hs hk _ _ _).bind fun _ =>
      (basic_safe hs (basic_setNzV0 _ _)).bind fun _ => basic_safe hs (basic_pushWord _)
  exact hx m (.inr h)

theorem opMtp_safe (hs : Unprivileged s) (word : Word) (d : Bool) :
    Keeps (Safe s) (opMtp word d) := by
  refine keeps_of_core (core_opMtp word d) fun m h => ?_
  have hk : UsesMode s (prevMode m.cpu.regs.psw) := .inr h.prev
  have hx : Keeps (Safe s) (do
      let value ← popWord
      modifyCpu fun s => setNzV0 s value false
      let dst ← decodeOperand (dstSpec word) false
      writePrevMode (prevMode m.cpu.regs.psw) m.cpu.mode d value dst : M Unit) :=
    (basic_safe hs basic_popWord).bind fun _ => (basic_safe hs (basic_setNzV0 _ _)).bind fun _ =>
      (basic_safe hs (basic_decodeOperand _ _)).bind fun _ => writePrevMode_safe hs hk _ _ _ _
  exact hx m (.inr h)

theorem userOp_safe (hs : Unprivileged s) {α : Type} {x : M α} (hx : UserOp α x) :
    Keeps (Safe s) x := by
  cases hx with
  | basic hop => exact basic_safe hs (.op hop)
  | wait =>
    refine keeps_of_core (core_of_userOp .wait) fun m h => .inr ?_
    exact h.same rfl (.of_mmu rfl) rfl rfl rfl rfl rfl
  | spl word =>
    refine keeps_of_core (core_opSpl word) fun m h => .inr ?_
    have hmode : m.cpu.mode ≠ 0 := h.mode ▸ hs.mode
    have hx : (final (opSpl word m)).cpu = m.cpu := if_neg hmode
    rw [hx]
    exact h
  | mfp word d => exact opMfp_safe hs word d
  | mtp word d => exact opMtp_safe hs word d
  | trap vector =>
    exact keeps_of_core (core_doTrap vector) fun m _ => .inl (doTrap_dispatched vector m)

/-- What an instruction other than HALT, RTI, RESET and RTT may do. -/
theorem execute_safe (hs : Unprivileged s) {word : Word} (h : ¬IsMachineWord word) :
    Keeps (Safe s) (execute word) :=
  (user_execute h).keeps fun hop => userOp_safe hs hop

/-! ## Instructions -/

/-- The writable words alone have changed, and no tape operation has begun. -/
structure Stored (s t : Cpu) : Prop where
  mem : ∀ i, t.mem i ≠ s.mem i → Writable s i
  tape : s.dev.tm.busy = false → t.dev.tm.busy = false

theorem Confined.stored {t : Cpu} (h : Confined s t) : Stored s t := ⟨h.mem, fun hb => by rw [h.dev, hb]⟩

theorem Stored.same {t u : Cpu} (h : Stored s t) (hmem : u.mem = t.mem) (hdev : u.dev = t.dev) :
    Stored s u := by
  constructor
  · intro i hi
    rw [hmem] at hi
    exact h.mem i hi
  · rw [hdev]
    exact h.tape

/-- What an instruction leaves, and what an abort finds. -/
def Outcome {α : Type} (s : Cpu) : EStateM.Result Unit Machine α → Prop
  | .ok _ m => Dispatched m ∨ Stored s m.cpu
  | .error _ m => Safe s m

theorem Safe.outcome {α : Type} {r : EStateM.Result Unit Machine α} (h : Safe s (final r)) :
    Outcome s r := by
  cases r with
  | ok a m => exact Or.imp_right Confined.stored h
  | error e m => exact h

/-- RTI and RTT as far as their pops. -/
def rtiPops : M Word := do
  let pc ← popWord
  setReg regPc pc
  popWord

theorem opRti_pops (isRtt : Bool) : opRti isRtt = (do
    let psw ← rtiPops
    modifyCpu fun s => rtiTrace isRtt (putPsw s psw)) := by
  unfold opRti rtiPops
  simp only [bind_assoc_eq]
  rfl

theorem basic_rtiPops : BasicBuilt rtiPops :=
  basic_popWord.bind fun _ => (basic_setReg _ _).bind fun _ => basic_popWord

theorem opRti_outcome (hs : Unprivileged s) (isRtt : Bool) {m : Machine} (h : Safe s m) :
    Outcome s (opRti isRtt m) := by
  have hpops := basic_safe hs basic_rtiPops m h
  rw [opRti_pops, bind_apply]
  cases hx : rtiPops m with
  | error e m' =>
    rw [hx] at hpops
    exact hpops
  | ok psw m' =>
    rw [hx] at hpops
    obtain hd | hc := hpops
    · exact .inl hd
    · have hstored : Stored s m'.cpu := hc.stored
      refine .inr (hstored.same ?_ ?_)
      · show (rtiTrace isRtt (putPsw m'.cpu psw)).mem = m'.cpu.mem
        rw [rtiTrace_rest, putPsw_eq]
      · show (rtiTrace isRtt (putPsw m'.cpu psw)).dev = m'.cpu.dev
        rw [rtiTrace_rest, putPsw_eq]

theorem execute_outcome (hs : Unprivileged s) (word : Word) {m : Machine} (h : Safe s m) : Outcome s (execute word m) := by
  by_cases hw : IsMachineWord word
  · obtain rfl | rfl | rfl | rfl := hw
    · exact Or.imp_right (fun hc => ⟨hc.mem, hc.stored.tape⟩) h
    · exact opRti_outcome hs false h
    · exact Or.imp_right (fun hc => ⟨hc.mem, fun _ => rfl⟩) h
    · have hx : execute 6 m =
          (if m.cpu.cfg.hasRtt then opRti true else doTrap vecReserved : M Unit) m := rfl
      rw [hx]
      split
      · exact opRti_outcome hs true h
      · exact (userOp_safe hs (.trap vecReserved) m h).outcome
  · exact (execute_safe hs hw m h).outcome

/-- The state an instruction is fetched in. -/
theorem confined_begin : Confined s (beginInstr (armTrace s)) := by
  have ha : armTrace s = { s with ctl := (armTrace s).ctl } := by
    unfold armTrace
    split <;> rfl
  have hh : (armTrace s).ctl.halted = s.ctl.halted := by
    unfold armTrace
    split <;> rfl
  unfold beginInstr
  rw [ha]
  dsimp only
  split
  · exact ⟨rfl, ⟨rfl, rfl, rfl, fun _ => rfl⟩, rfl, hh, rfl, rfl, fun _ hi => absurd rfl hi⟩
  · exact ⟨rfl, .of_mmu rfl, rfl, hh, rfl, rfl, fun _ hi => absurd rfl hi⟩

theorem fetchExecute_outcome (hs : Unprivileged s) : Outcome s (fetchExecute (instrStart s)) := by
  let m : Machine := ⟨beginInstr (armTrace s), [.setjmp]⟩
  have hm : Safe s m := .inr confined_begin
  have hx : fetchExecute (instrStart s) = (do
      let word ← fetch
      execute word
      pure word : M Word) m := rfl
  have hf := basic_safe hs basic_fetch m hm
  rw [hx, bind_apply]
  cases hfetch : fetch m with
  | error e m' =>
    rw [hfetch] at hf
    exact hf
  | ok word m' =>
    rw [hfetch] at hf
    have he : Outcome s (execute word m') := execute_outcome hs word hf
    show Outcome s ((do
      execute word
      pure word : M Word) m')
    rw [bind_apply]
    cases hex : execute word m' <;> rw [hex] at he <;> exact he

/-- The first entry of the handler dispatches. -/
theorem abortHandler_dispatched {m : Machine} (h : Safe s m) :
    Dispatched (final (abortHandler 9 m)) := by
  have later (fuel : ℕ) : Keeps Dispatched (abortHandler fuel) :=
    abortHandler_respects (fun _ hd => hd) (fun _ _ _ h h' hd => h' (h hd)) stepOp_dispatched fuel
  rcases h with hd | hc
  · exact later 9 m hd
  · let m1 : Machine :=
      { m with cpu := { m.cpu with ctl.abortDepth := m.cpu.ctl.abortDepth + 1 } }
    have hdepth : m1.cpu.ctl.abortDepth = 1 := congrArg (· + 1) hc.depth
    have hfirst : abortHandler 9 m =
        (if 8 < m1.cpu.ctl.abortDepth then modifyCpu fun s => { s with ctl.halted := true }
        else catchFault abortTrap (abortHandler 8)) m1 := rfl
    have hsmall : ¬8 < m1.cpu.ctl.abortDepth := by
      rw [hdepth]
      decide
    have htrap : Dispatched (final (abortTrap m1)) := by
      refine doTrap_bind_dispatched m1.cpu.ctl.abortVec ?_ m1
      intro _ m' hd
      exact hd
    rw [hfirst, if_neg hsmall, catchFault]
    cases hx : abortTrap m1 with
    | ok a m' =>
      rw [hx] at htrap
      exact htrap
    | error e m' =>
      rw [hx] at htrap
      exact later 8 m' htrap

/-! ## Steps -/

/-- A service that moves no data and leaves the tape controller alone. -/
structure NoTransfer (s t : Cpu) : Prop where
  mem : t.mem = s.mem
  tape : t.dev.tm = s.dev.tm

theorem NoTransfer.refl (s : Cpu) : NoTransfer s s := ⟨rfl, rfl⟩

theorem NoTransfer.trans {t u : Cpu} (h : NoTransfer s t) (h' : NoTransfer t u) : NoTransfer s u :=
  ⟨h'.mem.trans h.mem, h'.tape.trans h.tape⟩

theorem NoTransfer.ite {t u : Cpu} {c : Prop} [Decidable c] (ht : NoTransfer s t)
    (hu : NoTransfer s u) : NoTransfer s (if c then t else u) := by
  split
  · exact ht
  · exact hu

theorem serviceClock_noTransfer (s : Cpu) : NoTransfer s (serviceClock s) := by
  unfold serviceClock clkTick
  dsimp only
  split_ifs <;> exact ⟨rfl, rfl⟩

theorem consoleTxPoll_noTransfer (s : Cpu) : NoTransfer s (consoleTxPoll s) := by
  unfold consoleTxPoll
  dsimp only
  split_ifs <;> exact ⟨rfl, rfl⟩

theorem rkPoll_noTransfer (s : Cpu) : NoTransfer s (rkPoll s) := by
  unfold rkPoll rkFinish
  dsimp only
  split_ifs <;> exact ⟨rfl, rfl⟩

theorem rpPoll_noTransfer (s : Cpu) : NoTransfer s (rpPoll s) := by
  unfold rpPoll rpFinish
  dsimp only
  split_ifs <;> exact ⟨rfl, rfl⟩

theorem rlPoll_noTransfer (s : Cpu) : NoTransfer s (rlPoll s) := by
  unfold rlPoll rlFinish
  dsimp only
  split_ifs <;> exact ⟨rfl, rfl⟩

/-- Servicing moves no word of memory while no tape operation is outstanding: the disks transfer
when they are commanded, the tape when it completes. -/
theorem serviceDueEvents_mem (h : s.dev.tm.busy = false) : (serviceDueEvents s).mem = s.mem := by
  unfold serviceDueEvents
  extract_lets t1 t2 t3 t4 t5
  have h1 : NoTransfer s t1 := serviceClock_noTransfer s
  have h2 : NoTransfer s t2 := h1.trans (.ite (consoleTxPoll_noTransfer t1) (.refl t1))
  have h3 : NoTransfer s t3 := h2.trans (.ite (rkPoll_noTransfer t2) (.refl t2))
  have h4 : NoTransfer s t4 := h3.trans (.ite (rpPoll_noTransfer t3) (.refl t3))
  have htape : t4.dev.tm.busy = false := by
    rw [h4.tape]
    exact h
  have h5 : t5 = t4 := if_neg (by simp [htape])
  have h6 : NoTransfer t5 (if t5.dev.rl.busy = true then rlPoll t5 else t5) :=
    .ite (rlPoll_noTransfer t5) (.refl t5)
  rw [h6.mem, h5]
  exact h4.mem

theorem idleSkip_mem (h : s.dev.tm.busy = false) : (idleSkip s).mem = s.mem := by
  unfold idleSkip
  dsimp only
  split
  · rw [serviceDueEvents_mem]
    · split <;> rfl
    · split <;> exact h
  · rfl

section Quiet

variable (hquiet : ∀ vector psw pc, Event.dispatch vector psw pc ∉ (cpuStep s).events)
include hquiet

/-- A call that dispatches nothing found nothing pending. -/
theorem quiet_pending (hh : s.ctl.halted = false) : pendingDispatch s = none := by
  cases hp : pendingDispatch s with
  | none => rfl
  | some p =>
    obtain ⟨v, psw, pc, he⟩ : Dispatched (final (dispatchPending p ⟨s, []⟩)) :=
      doTrap_bind_dispatched _ (f := fun _ => modifyCpu (dispatched p)) (fun _ _ hd => hd)
        ⟨acknowledge p s, []⟩
    rw [cpuStep_dispatch hh hp, stepResult_events] at hquiet
    exact absurd he (hquiet v psw pc)

/-- Its instruction ran to its end: an abort would have been dispatched. -/
theorem quiet_instr (hs : Unprivileged s) (hh : s.ctl.halted = false) (hw : s.ctl.waiting = false) :
    ∃ word m, fetchExecute (instrStart s) = .ok word m ∧ ¬Dispatched m := by
  have ho := fetchExecute_outcome hs
  rw [cpuStep_instr hh (quiet_pending hquiet hh) hw] at hquiet
  cases hx : fetchExecute (instrStart s) with
  | ok word m =>
    refine ⟨word, m, rfl, ?_⟩
    rintro ⟨v, psw, pc, he⟩
    rw [stepInstr_complete hx] at hquiet
    exact hquiet v psw pc he
  | error e m =>
    rw [hx] at ho
    obtain ⟨v, psw, pc, he⟩ := abortHandler_dispatched ho
    rw [stepInstr_abort hx, stepResult_events] at hquiet
    exact absurd he (hquiet v psw pc)

end Quiet

/-- A program outside Kernel mode, relocated away from the I/O page with no tape operation
outstanding: a call of the step that dispatches nothing changes only words of memory that an
address of the current or the previous mode maps to, on a page that permits writing and within its
length. -/
theorem memory_confined (hmode : s.mode ≠ 0) (hmme : mmeOn s) (hio : NoIoPage s)
    (htape : s.dev.tm.busy = false)
    (hquiet : ∀ vector psw pc, Event.dispatch vector psw pc ∉ (cpuStep s).events) :
    ∀ i, (cpuStep s).cpu.mem i ≠ s.mem i → Writable s i := by
  have hs : Unprivileged s := ⟨hmode, hmme, hio⟩
  cases hh : s.ctl.halted with
  | true =>
    rw [cpuStep_halted hh]
    exact fun i hi => absurd rfl hi
  | false =>
  have hp := quiet_pending hquiet hh
  cases hw : s.ctl.waiting with
  | true =>
    rw [cpuStep_idle hh hp hw]
    exact fun i hi => absurd (congrFun (idleSkip_mem htape) i) hi
  | false =>
    obtain ⟨word, m, hx, hd⟩ := quiet_instr hquiet hs hh hw
    have ho := fetchExecute_outcome hs
    rw [hx] at ho
    have hstored : Stored s m.cpu := ho.resolve_left hd
    have hm : (finishInstr word m.cpu).mem = m.cpu.mem :=
      serviceDueEvents_mem (s := countInstr (accountTime word m.cpu)) (hstored.tape htape)
    rw [cpuStep_instr hh hp hw, stepInstr_complete hx]
    intro i hi
    refine hstored.mem i ?_
    rw [← hm]
    exact hi

end Programs

/-- Memory management on, with every page open and mapped to the first 8 KB. -/
def lowPages : Mmu := ⟨mmr0Mme, 0, 0, 0, fun _ => 0, fun _ => 0o77406⟩

theorem lowPages_noIoPage {s : Cpu} (h : s.mmu = lowPages) : NoIoPage s := by
  intro va isWrite k d _ _
  have hmme : mmeOn s := by
    unfold mmeOn
    rw [h]
    decide
  let pa : PhysAddr := va.setWidth 32 &&& 0o17777
  have hle : pa.toNat ≤ 0o17777 := by
    rw [BitVec.toNat_and]
    exact Nat.and_le_right
  have hpa : refPhysical s va k d =
      if 0o760000 ≤ pa &&& pamask22 &&& 0o777777 then 0o17000000 ||| (pa &&& pamask22 &&& 0o777777)
      else pa &&& pamask22 &&& 0o777777 := by
    have hoff : (va &&& 0o17777).setWidth 32 + (0 : PhysAddr) = pa := by
      show (va &&& 0o17777).setWidth 32 + 0#32 = pa
      rw [BitVec.add_zero, BitVec.setWidth_and]
      rfl
    rw [← hoff, refPhysical, if_pos hmme, h]
    rfl
  have hmask : pa &&& pamask22 &&& 0o777777 = pa := by
    rw [BitVec.and_assoc, BitVec.and_assoc]
    rfl
  have hsmall : ¬(0o760000 : PhysAddr) ≤ pa := by bv_omega
  rw [hpa, hmask, if_neg hsmall]
  refine decide_eq_false ?_
  bv_omega

/-- A user program about to store R0 through R1. -/
def storing : Cpu :=
  { cpuCreate with
    regs := { resetRegs with
      r := fun i => if i = regPc then 0o1000 else if i = 1 then 0o200 else 5
      psw := 0o170000 }
    mmu := lowPages
    mem := fun i => if i = 0o400 then 0o010011 else 0 }

theorem storing_confined : (cpuStep storing).cpu.mem 0o100 = 5 ∧
    ∀ i, (cpuStep storing).cpu.mem i ≠ storing.mem i → Writable storing i := by
  have hevents : (cpuStep storing).events = [.setjmp] := by decide +kernel
  refine ⟨by decide +kernel, ?_⟩
  refine memory_confined (by decide) (by decide) (lowPages_noIoPage rfl) (by decide) ?_
  intro vector psw pc
  rw [hevents]
  simp

end Pdp11
