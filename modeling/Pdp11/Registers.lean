import Pdp11.References
import Pdp11.Lib.BankedFile

namespace Pdp11

open FaultState BankedFile

/-! ## The logical register file -/

/-- R0..R5 of a register set, wherever they live. -/
def bank (s : Cpu) (b : BitVec 1) (i : Field3) : Word :=
  if b = regSet s.regs.psw then s.regs.r i else s.regs.regfile i b

/-- The stack pointer of a mode, wherever it lives. -/
def sp (s : Cpu) (m : Mode) : Word := if m = s.mode then s.regs.r regSp else s.regs.stackfile m

/-- The register sets as a banked file. -/
def generalFile (s : Cpu) : BankedFile (BitVec 1) { i : Field3 // i < 6 } Word :=
  { active := regSet s.regs.psw
    live := fun i => s.regs.r i
    shadow := fun b i => s.regs.regfile i b }

/-- The stack pointers as a banked file of one register. -/
def stackFile (s : Cpu) : BankedFile Mode Unit Word :=
  { active := s.mode
    live := fun _ => s.regs.r regSp
    shadow := fun m _ => s.regs.stackfile m }

theorem bank_eq (s : Cpu) (b : BitVec 1) {i : Field3} (hi : i < 6) :
    bank s b i = (generalFile s).get b ⟨i, hi⟩ := rfl

theorem sp_eq (s : Cpu) (m : Mode) : sp s m = (stackFile s).get m () := rfl

/-- Both register sets and all stack pointers hold what they held. -/
structure LogicalKept (s s' : Cpu) : Prop where
  bank : ∀ b i, i < 6 → bank s' b i = bank s b i
  sp : ∀ m, sp s' m = sp s m

namespace LogicalKept

theorem of_regs {s s' : Cpu} (h : s'.regs = s.regs) : LogicalKept s s' where
  bank b i _ := by simp only [Pdp11.bank, h]
  sp m := by rw [Pdp11.sp, Pdp11.sp, Cpu.mode, Cpu.mode, h]

theorem trans {s t u : Cpu} (h : LogicalKept s t) (h' : LogicalKept t u) : LogicalKept s u where
  bank b i hi := (h'.bank b i hi).trans (h.bank b i hi)
  sp m := (h'.sp m).trans (h.sp m)

end LogicalKept

/-! ## Loading a PSW -/

/-- Loading a PSW selects its register set. -/
theorem generalFile_putPsw (s : Cpu) (psw : Word) :
    generalFile (putPsw s psw) = (generalFile s).select (regSet (psw &&& s.cfg.pswMask)) := by
  have hne {i : Field3} (hi : i < 6#3) : i ≠ 6#3 := by
    rintro rfl
    exact absurd hi (by decide)
  apply BankedFile.ext
  · exact (select_active _ _).symm
  · funext ⟨i, hi⟩
    by_cases hr : regSet (psw &&& s.cfg.pswMask) = regSet s.regs.psw <;>
      by_cases hm : curMode (psw &&& s.cfg.pswMask) = curMode s.regs.psw <;>
      simp [select, generalFile, putPsw, hr, hm, show i < 6#3 from hi, hne hi]
  · funext b ⟨i, hi⟩
    by_cases hr : regSet (psw &&& s.cfg.pswMask) = regSet s.regs.psw <;>
      by_cases hm : curMode (psw &&& s.cfg.pswMask) = curMode s.regs.psw <;>
      by_cases hb : b = regSet s.regs.psw <;>
      simp [select, generalFile, putPsw, hr, hm, hb, show i < 6#3 from hi]

/-- Loading a PSW selects its mode's stack pointer. -/
theorem stackFile_putPsw (s : Cpu) (psw : Word) :
    stackFile (putPsw s psw) = (stackFile s).select (curMode (psw &&& s.cfg.pswMask)) := by
  apply BankedFile.ext
  · exact (select_active _ _).symm
  · funext _
    by_cases hr : regSet (psw &&& s.cfg.pswMask) = regSet s.regs.psw <;>
      by_cases hm : curMode (psw &&& s.cfg.pswMask) = curMode s.regs.psw <;>
      simp [select, stackFile, putPsw, Cpu.mode, hr, hm]
  · funext m _
    by_cases hr : regSet (psw &&& s.cfg.pswMask) = regSet s.regs.psw <;>
      by_cases hm : curMode (psw &&& s.cfg.pswMask) = curMode s.regs.psw <;>
      by_cases hb : m = curMode s.regs.psw <;>
      simp [select, stackFile, putPsw, Cpu.mode, hr, hm, hb]

theorem logical_putPsw (s : Cpu) (psw : Word) : LogicalKept s (putPsw s psw) where
  bank b i hi := by rw [bank_eq _ _ hi, bank_eq _ _ hi, generalFile_putPsw, get_select]
  sp m := by rw [sp_eq, sp_eq, stackFile_putPsw, get_select]

theorem putPsw_pc (s : Cpu) (psw : Word) : (putPsw s psw).regs.r regPc = s.regs.r regPc := by
  unfold putPsw
  by_cases hr : regSet (psw &&& s.cfg.pswMask) = regSet s.regs.psw <;>
    by_cases hm : curMode (psw &&& s.cfg.pswMask) = curMode s.regs.psw <;>
    simp [hr, hm]

/-- R7 is no banked register. -/
theorem setPc_logical {s s' : Cpu} {pc : Word} (h : s'.regs = { s.regs with
    r := Function.update s.regs.r regPc pc }) : LogicalKept s s' where
  bank b i hi := by
    have hne : i ≠ regPc := by
      rintro rfl
      exact absurd hi (by decide)
    unfold bank
    rw [h]
    dsimp only
    rw [Function.update_of_ne hne]
  sp m := by
    have hne : regSp ≠ regPc := by decide
    unfold sp Cpu.mode
    rw [h]
    dsimp only
    rw [Function.update_of_ne hne]

/-! ## Memory references and the stack -/

/-- What a reference that reads may change: page flags, a captured abort, the cache and devices. -/
structure ReadKept (s s' : Cpu) : Prop where
  rest : s' = { s with
    mmu.mmr0 := s'.mmu.mmr0
    mmu.pdr := s'.mmu.pdr
    dev := s'.dev
    acct.cache := s'.acct.cache
    ctl.abortVec := s'.ctl.abortVec }
  map : SameMap s s'

namespace ReadKept

variable {s t u : Cpu}

theorem refl (s : Cpu) : ReadKept s s := ⟨rfl, .of_mmu rfl⟩

theorem trans (h : ReadKept s t) (h' : ReadKept t u) : ReadKept s u :=
  ⟨by rw [h'.rest, h.rest], h.map.trans h'.map⟩

theorem cfg (h : ReadKept s t) : t.cfg = s.cfg := by rw [h.rest]

theorem regs (h : ReadKept s t) : t.regs = s.regs := by rw [h.rest]

theorem mem (h : ReadKept s t) : t.mem = s.mem := by rw [h.rest]

end ReadKept

theorem captureMmu_kept (idx : BitVec 6) {err : Word} (h : err &&& ~~~mmr0Freeze = 0) (s : Cpu) :
    ReadKept s (captureMmu idx err s) := by
  have herr : err &&& mmr0Mme = 0 :=
    (BitMask.and_eq (h.trans BitVec.zero_and.symm) (by decide)).trans BitVec.zero_and
  unfold captureMmu
  split
  · refine ⟨rfl, ⟨?_, rfl, rfl, fun _ => rfl⟩⟩
    have hidx : (idx.setWidth 16 <<< 1 : Word) &&& mmr0Mme = 0 := by
      revert idx
      decide
    have hpage : (s.mmu.mmr0 &&& ~~~mmr0Page) &&& mmr0Mme = s.mmu.mmr0 &&& mmr0Mme := by
      rw [BitVec.and_assoc]
      rfl
    dsimp only
    rw [BitVec.and_or_distrib_right, BitVec.and_or_distrib_right, herr, hidx, hpage]
    simp
  · exact .refl s

theorem read_kept {α : Type} {x : M α} (h : ReadBuilt x) :
    Respects (fun m m' => ReadKept m.cpu m'.cpu) x := by
  refine h.respects (fun m => .refl m.cpu) (fun _ _ _ h h' => h.trans h') ?_
  intro α x hx m
  cases hx with
  | get => exact .refl _
  | fault vector => exact ⟨rfl, .of_mmu rfl⟩
  | capture idx err h => exact captureMmu_kept idx h m.cpu
  | mark idx isWrite => exact ⟨rfl, markAccess_map idx isWrite m.cpu⟩
  | ioRead a =>
    rw [ioRead_apply]
    cases h : ioReadReg m.cpu a with
    | none => exact ⟨rfl, .of_mmu rfl⟩
    | some p =>
      obtain ⟨hp, hmem⟩ := ioReadReg_step m.cpu a p h
      have hr := hp.rest
      rw [hmem] at hr
      simp only [final_ok]
      refine ⟨?_, .of_mmu ?_⟩ <;> rw [hr]
  | cache pa => exact ⟨rfl, .of_mmu rfl⟩

/-- A reference that writes may load the PSW, which moves registers and changes none. -/
theorem ref_logical {α : Type} {x : M α} (h : RefBuilt x) :
    Respects (fun m m' => LogicalKept m.cpu m'.cpu) x := by
  refine h.respects (fun _ => .of_regs rfl) (fun _ _ _ h h' => h.trans h') ?_
  intro α x hx m
  cases hx with
  | read hx => exact .of_regs (read_kept (.op hx) m).regs
  | ioWrite a value =>
    rw [ioWrite_apply]
    cases h : ioWriteReg m.cpu a value with
    | none => exact .of_regs rfl
    | some s' =>
      obtain hr | ⟨psw, hr⟩ := (ioWriteReg_step m.cpu a value s' h).1.regs
      · exact .of_regs hr
      · exact (logical_putPsw m.cpu psw).trans (.of_regs hr)
  | mem f => exact .of_regs rfl

theorem CodesOnly.fields {s s' : Cpu} (h : CodesOnly s s') :
    s'.mode = s.mode ∧ regSet s'.regs.psw = regSet s.regs.psw ∧
      prevMode s'.regs.psw = prevMode s.regs.psw ∧
      priority s'.regs.psw = priority s.regs.psw := by
  obtain ⟨psw, rfl, hp⟩ := h
  exact ⟨BitMask.extractLsb'_eq hp 14 2 (by decide), BitMask.extractLsb'_eq hp 11 1 (by decide),
    BitMask.extractLsb'_eq hp 12 2 (by decide), BitMask.extractLsb'_eq hp 5 3 (by decide)⟩

theorem CodesOnly.logical {s s' : Cpu} (h : CodesOnly s s') : LogicalKept s s' := by
  obtain ⟨hm, hr, -⟩ := h.fields
  obtain ⟨psw, rfl, hp⟩ := h
  constructor
  · intro b i _
    unfold bank
    rw [hr]
  · intro m
    unfold sp
    rw [hm]

/-- Of all logical registers only the stack pointer of mode `k` changes, to `v`. -/
structure StackSet (s : Cpu) (k : Mode) (v : Word) (s' : Cpu) : Prop where
  bank : ∀ b i, i < 6 → bank s' b i = bank s b i
  sp : sp s' = Function.update (sp s) k v

namespace StackSet

variable {s t u : Cpu} {k : Mode} {v w : Word}

theorem trans_kept (h : StackSet s k v t) (h' : LogicalKept t u) : StackSet s k v u where
  bank b i hi := (h'.bank b i hi).trans (h.bank b i hi)
  sp := (funext h'.sp).trans h.sp

theorem kept_trans (h : LogicalKept s t) (h' : StackSet t k v u) : StackSet s k v u where
  bank b i hi := (h'.bank b i hi).trans (h.bank b i hi)
  sp := by rw [h'.sp, funext h.sp]

/-- Of two settings of one stack pointer the second stays. -/
theorem trans (h : StackSet s k v t) (h' : StackSet t k w u) : StackSet s k w u where
  bank b i hi := (h'.bank b i hi).trans (h.bank b i hi)
  sp := by rw [h'.sp, h.sp, Function.update_idem]

/-- A stack pointer set to what it was is no change. -/
theorem kept (h : StackSet s k (Pdp11.sp s k) t) : LogicalKept s t where
  bank := h.bank
  sp m := by rw [h.sp, Function.update_eq_self]

end StackSet

/-- R6 is the current stack pointer. -/
theorem sp_current (s : Cpu) : sp s s.mode = s.regs.r regSp := if_pos rfl

/-- Storing to R6 moves the current stack pointer, whatever the stale copies hold. -/
theorem stackSet_r {s s' : Cpu} {v : Word} (hr : s'.regs.r = Function.update s.regs.r regSp v)
    (hp : s'.regs.psw = s.regs.psw) (hf : s'.regs.regfile = s.regs.regfile)
    (hs : ∀ m ≠ s.mode, s'.regs.stackfile m = s.regs.stackfile m) : StackSet s s.mode v s' where
  bank b i hi := by
    have hi : i ≠ regSp := by
      rintro rfl
      exact absurd hi (by decide)
    unfold Pdp11.bank
    rw [hp, hf, hr, Function.update_of_ne hi]
  sp := by
    funext m
    have hmode : s'.mode = s.mode := congrArg curMode hp
    unfold Pdp11.sp
    rw [hmode]
    by_cases hm : m = s.mode
    · subst hm
      rw [if_pos rfl, hr, Function.update_self, Function.update_self]
    · rw [if_neg hm, Function.update_of_ne hm, if_neg hm, hs m hm]

theorem stackSet_addReg (s : Cpu) (delta : Word) :
    StackSet s s.mode (sp s s.mode + delta)
      { s with regs.r := Function.update s.regs.r regSp (s.regs.r regSp + delta) } := by
  rw [sp_current]
  exact stackSet_r rfl rfl rfl fun _ _ => rfl

theorem stackSet_red {s : Cpu} (h : s.mode = 0) : StackSet s s.mode 4 (stackRed s) := by
  refine stackSet_r rfl rfl rfl fun m hm => ?_
  rw [h] at hm
  exact Function.update_of_ne hm _ _

/-- A pop reads, then raises the current stack pointer. -/
theorem popWord_moved (m : Machine) :
    match popWord m with
    | .ok _ m' =>
      StackSet m.cpu m.cpu.mode (sp m.cpu m.cpu.mode + 2) m'.cpu ∧ m'.cpu.mode = m.cpu.mode
    | .error _ m' => LogicalKept m.cpu m'.cpu := by
  have hr := read_kept (read_cpuReadWordGen (m.cpu.regs.r regSp) m.cpu.mode true) m
  rw [popWord_apply]
  cases hx : cpuReadWordGen (m.cpu.regs.r regSp) m.cpu.mode true m with
  | error e m' =>
    rw [hx] at hr
    exact .of_regs hr.regs
  | ok value m' =>
    rw [hx] at hr
    have hk : LogicalKept m.cpu m'.cpu := .of_regs hr.regs
    have hm : m'.cpu.mode = m.cpu.mode := congrArg (fun r : RegFile => curMode r.psw) hr.regs
    have hs := stackSet_addReg m'.cpu 2
    rw [hm, hk.sp] at hs
    exact ⟨.kept_trans hk hs, hm⟩

/-- A push lowers the current stack pointer, and when it faults still moves no other. -/
theorem pushWord_moved (value : Word) (m : Machine) :
    match pushWord value m with
    | .ok _ m' => StackSet m.cpu m.cpu.mode (sp m.cpu m.cpu.mode - 2) m'.cpu
    | .error _ m' => ∃ v, StackSet m.cpu m.cpu.mode v m'.cpu := by
  let va := pushAddr m.cpu
  let m1 := withReg regSp va m
  have h1 : StackSet m.cpu m.cpu.mode (sp m.cpu m.cpu.mode - 2) m1.cpu := by
    rw [sp_current]
    exact stackSet_r rfl rfl rfl fun _ _ => rfl
  -- the store that follows the check moves no logical register
  have store (m2 : Machine) (h2 : m2.cpu.regs = m1.cpu.regs)
      (hp : pushWord value m = cpuWriteWordMode va m1.cpu.mode true value m2) :
      match pushWord value m with
      | .ok _ m' => StackSet m.cpu m.cpu.mode (sp m.cpu m.cpu.mode - 2) m'.cpu
      | .error _ m' => ∃ v, StackSet m.cpu m.cpu.mode v m'.cpu := by
    have hw := ref_logical (ref_cpuWriteWordMode va m1.cpu.mode true value) m2
    have hk : LogicalKept m1.cpu m2.cpu := .of_regs h2
    rw [hp]
    cases hx : cpuWriteWordMode va m1.cpu.mode true value m2 <;> rw [hx] at hw
    · exact h1.trans_kept (hk.trans hw)
    · exact ⟨_, h1.trans_kept (hk.trans hw)⟩
  have hp : pushWord value m = _ := pushWord_apply value m
  cases hz : stackZone m1.cpu va <;> rw [hz] at hp
  case fine => exact store m1 rfl hp
  case yellow => exact store ⟨stackYellow m1.cpu, m1.events⟩ rfl hp
  case red =>
    rw [hp]
    exact ⟨4, (h1.trans (stackSet_red (mode_of_red hz))).trans_kept (.of_regs rfl)⟩

/-! ## The stack pointer of the previous mode -/

theorem prevModeReg_sp (s : Cpu) (pm : Mode) : prevModeReg pm s.mode regSp s = sp s pm := by
  unfold prevModeReg sp
  by_cases h : pm = s.mode
  · subst h
    simp
  · have hne : s.mode ≠ pm := fun he => h he.symm
    simp [h, hne]

/-- Storing to R6 of the previous mode is storing in that mode's bank. -/
theorem stackFile_setPrevModeReg (s : Cpu) (pm : Mode) (value : Word) :
    stackFile (setPrevModeReg pm s.mode regSp value s) = (stackFile s).set pm () value := by
  have ha : (stackFile s).active = s.mode := rfl
  unfold setPrevModeReg BankedFile.set
  by_cases h : pm = s.mode
  · rw [if_neg fun hne => hne.2 h.symm, if_pos (h.trans ha.symm)]
    apply BankedFile.ext
    · rfl
    · funext _
      simp [stackFile]
    · rfl
  · rw [if_pos ⟨rfl, fun he => h he.symm⟩, if_neg fun he => h (he.trans ha)]
    apply BankedFile.ext
    · rfl
    · rfl
    · funext m _
      by_cases hm : m = pm
      · subst hm
        simp [stackFile]
      · simp [stackFile, hm]

theorem setPrevModeReg_set (s : Cpu) (pm : Mode) (value : Word) :
    StackSet s pm value (setPrevModeReg pm s.mode regSp value s) where
  bank b i hi := by
    by_cases h : pm = s.mode
    · subst h
      rw [setPrevModeReg, if_neg fun hne => hne.2 rfl]
      have hset : StackSet s s.mode value
          { s with regs.r := Function.update s.regs.r regSp value } :=
        stackSet_r rfl rfl rfl fun _ _ => rfl
      exact hset.bank b i hi
    · rw [setPrevModeReg, if_pos ⟨rfl, fun he => h he.symm⟩]
      rfl
  sp := by
    funext m
    rw [sp_eq, stackFile_setPrevModeReg, get_set]
    by_cases hm : m = pm
    · subst hm
      simp
    · simp [hm, sp_eq]

/-- The words of MFPI SP and MFPD SP, and of MTPI SP and MTPD SP. -/
def mfpSp (dspace : Bool) : Word := if dspace then 0o106506 else 0o006506
def mtpSp (dspace : Bool) : Word := if dspace then 0o106606 else 0o006606

theorem execute_mfpSp (dspace : Bool) : execute (mfpSp dspace) = opMfp (mfpSp dspace) dspace := by
  cases dspace <;> rfl

theorem execute_mtpSp (dspace : Bool) : execute (mtpSp dspace) = opMtp (mtpSp dspace) dspace := by
  cases dspace <;> rfl

theorem decodeOperand_sp : decodeOperand 6 false = pure (.reg regSp) := rfl

/-- MFPI SP and MFPD SP push the previous mode's stack pointer, read before the push. -/
theorem mfpSp_apply (dspace : Bool) (m : Machine) :
    execute (mfpSp dspace) m =
      (do
        modifyCpu fun s => setNzV0 s (sp m.cpu (prevMode m.cpu.regs.psw)) false
        pushWord (sp m.cpu (prevMode m.cpu.regs.psw)) : M Unit) m := by
  have hspec : dstSpec (mfpSp dspace) = 6 := by cases dspace <;> rfl
  rw [execute_mfpSp, ← prevModeReg_sp]
  have h : opMfp (mfpSp dspace) dspace m = (do
      let src ← decodeOperand (dstSpec (mfpSp dspace)) false
      let value ← readPrevMode (prevMode m.cpu.regs.psw) m.cpu.mode dspace src
      modifyCpu fun s => setNzV0 s value false
      pushWord value : M Unit) m := rfl
  rw [h, hspec, decodeOperand_sp]
  rfl

/-- MTPI SP and MTPD SP pop a word, then make it the previous mode's stack pointer. -/
theorem mtpSp_apply (dspace : Bool) (m : Machine) :
    execute (mtpSp dspace) m =
      (do
        let value ← popWord
        modifyCpu fun s => setNzV0 s value false
        modifyCpu (setPrevModeReg (prevMode m.cpu.regs.psw) m.cpu.mode regSp value) : M Unit) m :=
          by
  have hspec : dstSpec (mtpSp dspace) = 6 := by cases dspace <;> rfl
  rw [execute_mtpSp]
  have h : opMtp (mtpSp dspace) dspace m = (do
      let value ← popWord
      modifyCpu fun s => setNzV0 s value false
      let dst ← decodeOperand (dstSpec (mtpSp dspace)) false
      writePrevMode (prevMode m.cpu.regs.psw) m.cpu.mode dspace value dst : M Unit) m := rfl
  rw [h, hspec, decodeOperand_sp]
  rfl

/-- Loading a PSW changes no logical register. MFPx SP pushes, and MTPx SP pops into, exactly the
stack pointer of the previous mode, and but for the push or the pop on the current stack no other
stack pointer changes, whether or not the instruction completes. -/
theorem banked_registers_refine :
    (∀ s psw, LogicalKept s (putPsw s psw)) ∧
    (∀ dspace m,
      let old := sp m.cpu (prevMode m.cpu.regs.psw)
      execute (mfpSp dspace) m =
          (do
            modifyCpu fun s => setNzV0 s old false
            pushWord old : M Unit) m ∧
        match execute (mfpSp dspace) m with
        | .ok _ m' => StackSet m.cpu m.cpu.mode (sp m.cpu m.cpu.mode - 2) m'.cpu
        | .error _ m' => ∃ v, StackSet m.cpu m.cpu.mode v m'.cpu) ∧
    ∀ dspace m,
      match popWord m with
      | .ok value m₁ =>
        StackSet m.cpu m.cpu.mode (sp m.cpu m.cpu.mode + 2) m₁.cpu ∧
          ∃ m', execute (mtpSp dspace) m = .ok () m' ∧
            StackSet m₁.cpu (prevMode m.cpu.regs.psw) value m'.cpu
      | .error e m₁ => execute (mtpSp dspace) m = .error e m₁ ∧ LogicalKept m.cpu m₁.cpu := by
  refine ⟨logical_putPsw, fun dspace m => ⟨mfpSp_apply dspace m, ?_⟩, fun dspace m => ?_⟩
  · rw [mfpSp_apply]
    generalize sp m.cpu (prevMode m.cpu.regs.psw) = old
    let m1 : Machine := { m with cpu := setNzV0 m.cpu old false }
    have hcodes : CodesOnly m.cpu m1.cpu := codesOnly_setNzV0 m.cpu old false
    have hm : m1.cpu.mode = m.cpu.mode := hcodes.fields.1
    have hp := pushWord_moved old m1
    have he : (do
        modifyCpu fun s => setNzV0 s old false
        pushWord old : M Unit) m = pushWord old m1 := rfl
    rw [he]
    rw [hm, hcodes.logical.sp] at hp
    cases hx : pushWord old m1 <;> simp only [hx] at hp ⊢
    · exact .kept_trans hcodes.logical hp
    · obtain ⟨v, hv⟩ := hp
      exact ⟨v, .kept_trans hcodes.logical hv⟩
  · have hp := popWord_moved m
    rw [mtpSp_apply]
    cases hx : popWord m with
    | error e m1 =>
      rw [hx] at hp
      exact ⟨bind_error hx, hp⟩
    | ok value m1 =>
      rw [hx] at hp
      obtain ⟨hmoved, hm⟩ := hp
      have hcodes := codesOnly_setNzV0 m1.cpu value false
      have hm2 : (setNzV0 m1.cpu value false).mode = m.cpu.mode := hcodes.fields.1.trans hm
      refine ⟨hmoved, _, bind_ok hx, .kept_trans hcodes.logical ?_⟩
      show StackSet _ _ value (setPrevModeReg _ m.cpu.mode regSp value (setNzV0 m1.cpu value false))
      rw [← hm2]
      exact setPrevModeReg_set _ _ value

end Pdp11
