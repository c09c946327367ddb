import Pdp11.UnitEffects
import Pdp11.BusOps

namespace Pdp11

open FaultState BitMask

/-! The registers a model restricts, against the masks of its descriptor. -/

/-- The models whose MMR0 has the instruction-complete bit and whose PDRs have both page flags. -/
def FullFlags (model : Model) : Prop := model = .m1145 ∨ model = .m1170

/-- The registers of a machine lie in the masks of its model. MMR0 and the PDRs are promised only
where the bits the machine sets by itself exist. -/
structure WithinModel (model : Model) (s : Cpu) : Prop where
  cfg : s.cfg.toModelInfo = modelLookup model
  psw : Within s.regs.psw (modelLookup model).pswMask
  unswapped : (modelLookup model).pswMask = 0o377 → s.regs.regfile = fun _ _ => 0
  mmr3 : Within s.mmu.mmr3 (modelLookup model).mmr3Mask
  par : ∀ i, Within (s.mmu.par i) (modelLookup model).parMask
  mmr0 : FullFlags model → Within s.mmu.mmr0 (modelLookup model).mmr0Mask
  pdr : FullFlags model → ∀ i, Within (s.mmu.pdr i) (modelLookup model).pdrMask

/-! ## The masks -/

/-- The low byte of the PSW exists everywhere. -/
theorem lowByte_within (model : Model) : Within (0o377 : Word) (modelLookup model).pswMask := by
  cases model <;> decide

theorem mmr0Flags_within {model : Model} (h : FullFlags model) :
    Within (mmr0Freeze ||| mmr0Page ||| mmr0Ic) (modelLookup model).mmr0Mask := by
  obtain rfl | rfl := h <;> decide

theorem pdrFlags_within {model : Model} (h : FullFlags model) :
    Within (pdrA ||| pdrW) (modelLookup model).pdrMask := by
  obtain rfl | rfl := h <;> decide

/-- A PSW in the low byte has Kernel as both modes, and register set 0. -/
theorem modeless {psw : Word} (h : Within psw 0o377) :
    curMode psw = 0 ∧ prevMode psw = 0 ∧ regSet psw = 0 := by
  have hz : psw &&& ~~~(0o377 : Word) = (0 : Word) &&& ~~~0o377 := h
  exact ⟨extractLsb'_eq hz 14 2 (by decide), extractLsb'_eq hz 12 2 (by decide),
    extractLsb'_eq hz 11 1 (by decide)⟩

/-- Loading a PSW that selects the mode and the register set already selected moves no register. -/
theorem putPsw_regs {s : Cpu} {psw : Word}
    (hm : curMode (psw &&& s.cfg.pswMask) = curMode s.regs.psw)
    (hr : regSet (psw &&& s.cfg.pswMask) = regSet s.regs.psw) :
    (putPsw s psw).regs = { s.regs with psw := psw &&& s.cfg.pswMask } := by
  simp only [putPsw, hm, hr, ne_eq, not_true_eq_false, if_false]

namespace WithinModel

variable {model : Model} {s t : Cpu}

theorem pswMask_eq (h : WithinModel model s) : s.cfg.pswMask = (modelLookup model).pswMask := by
  rw [← h.cfg]

/-- A change beside the PSW, the register sets and the page registers. -/
theorem same (h : WithinModel model s) (hcfg : t.cfg = s.cfg) (hpsw : t.regs.psw = s.regs.psw)
    (hfile : t.regs.regfile = s.regs.regfile)
    (hmmu : t.mmu = { s.mmu with mmr1 := t.mmu.mmr1, mmr2 := t.mmu.mmr2 }) :
    WithinModel model t := by
  have h0 : t.mmu.mmr0 = s.mmu.mmr0 := by rw [hmmu]
  have h3 : t.mmu.mmr3 = s.mmu.mmr3 := by rw [hmmu]
  have hpar : t.mmu.par = s.mmu.par := by rw [hmmu]
  have hpdr : t.mmu.pdr = s.mmu.pdr := by rw [hmmu]
  exact
    { cfg := hcfg ▸ h.cfg
      psw := hpsw ▸ h.psw
      unswapped := hfile ▸ h.unswapped
      mmr3 := h3 ▸ h.mmr3
      par := hpar ▸ h.par
      mmr0 := h0 ▸ h.mmr0
      pdr := hpdr ▸ h.pdr }

/-- A load of bits among the low byte of the PSW. -/
theorem lowPsw (h : WithinModel model s) {psw z : Word} (hz : Within z 0o377)
    (hpsw : psw &&& ~~~z = s.regs.psw &&& ~~~z) :
    WithinModel model { s with regs.psw := psw } :=
  { h with psw := h.psw.of_eq (hz.trans (lowByte_within model)) hpsw }

theorem putPsw_regfile (h : WithinModel model s) (psw : Word)
    (hmask : (modelLookup model).pswMask = 0o377) :
    (putPsw s psw).regs = { s.regs with psw := psw &&& s.cfg.pswMask } := by
  have hold := modeless (hmask ▸ h.psw)
  have hnew : Within (psw &&& s.cfg.pswMask) 0o377 := by
    rw [h.pswMask_eq, hmask]
    exact within_and psw _
  have hload := modeless hnew
  exact putPsw_regs (hload.1.trans hold.1.symm) (hload.2.2.trans hold.2.2.symm)

theorem loadPsw (h : WithinModel model s) (psw : Word) : WithinModel model (putPsw s psw) := by
  have hpsw : (putPsw s psw).regs.psw = psw &&& s.cfg.pswMask := rfl
  have hrest := putPsw_eq s psw
  exact
    { cfg := by rw [hrest]; exact h.cfg
      psw := by
        rw [hpsw, h.pswMask_eq]
        exact within_and psw _
      unswapped := fun hmask => by
        rw [h.putPsw_regfile psw hmask]
        exact h.unswapped hmask
      mmr3 := by rw [hrest]; exact h.mmr3
      par := by rw [hrest]; exact h.par
      mmr0 := by rw [hrest]; exact h.mmr0
      pdr := by rw [hrest]; exact h.pdr }

/-- MMR0 after the machine set some of its own bits. -/
theorem setMmr0 (h : WithinModel model s) {v : Word}
    (hv : ∀ m, Within s.mmu.mmr0 m → Within (mmr0Freeze ||| mmr0Page ||| mmr0Ic) m → Within v m) :
    WithinModel model { s with mmu.mmr0 := v } :=
  { h with mmr0 := fun hf => hv _ (h.mmr0 hf) (mmr0Flags_within hf) }

theorem capture (h : WithinModel model s) (idx : BitVec 6) {err : Word}
    (herr : err &&& ~~~mmr0Freeze = 0) : WithinModel model (captureMmu idx err s) := by
  unfold captureMmu
  split
  · refine h.setMmr0 fun m hold hflags => ?_
    have hidx : Within ((idx.setWidth 16 : Word) <<< 1) (mmr0Freeze ||| mmr0Page ||| mmr0Ic) := by
      revert idx
      decide
    have herr : Within err (mmr0Freeze ||| mmr0Page ||| mmr0Ic) :=
      Within.trans (y := mmr0Freeze) herr (by decide)
    exact ((hold.and _).or (hidx.trans hflags)).or (herr.trans hflags)
  · exact h

theorem complete (h : WithinModel model s) :
    WithinModel model { s with mmu.mmr0 := s.mmu.mmr0 ||| mmr0Ic } :=
  h.setMmr0 fun _ hold hflags =>
    hold.or (Within.trans (y := mmr0Freeze ||| mmr0Page ||| mmr0Ic) (by decide) hflags)

theorem mark (h : WithinModel model s) (idx : BitVec 6) (isWrite : Bool) :
    WithinModel model (markAccess idx isWrite s) := by
  refine { h with pdr := fun hf i => ?_ }
  have hflags := pdrFlags_within hf
  have ha : Within pdrA (modelLookup model).pdrMask :=
    Within.trans (y := pdrA ||| pdrW) (by decide) hflags
  have hw : Within pdrW (modelLookup model).pdrMask :=
    Within.trans (y := pdrA ||| pdrW) (by decide) hflags
  have hmarked : Within (if isWrite then s.mmu.pdr idx ||| pdrA ||| pdrW else s.mmu.pdr idx ||| pdrA)
      (modelLookup model).pdrMask := by
    split
    · exact ((h.pdr hf idx).or ha).or hw
    · exact (h.pdr hf idx).or ha
  by_cases hi : i = idx
  · subst hi
    simpa [markAccess] using hmarked
  · simpa [markAccess, hi] using h.pdr hf i

/-- A device operation. -/
theorem device (h : WithinModel model s) (hd : DeviceStep s t) : WithinModel model t := by
  rw [hd.rest]
  exact h.same rfl rfl rfl rfl

theorem aprWrite (h : WithinModel model s) (isPar : Bool) (idx : BitVec 6) (value : Word) :
    WithinModel model (aprWrite s isPar idx value) := by
  have hpar : s.cfg.parMask = (modelLookup model).parMask := by rw [← h.cfg]
  have hpdr : s.cfg.pdrMask = (modelLookup model).pdrMask := by rw [← h.cfg]
  unfold Pdp11.aprWrite
  split
  · refine { h with par := fun i => ?_ }
    by_cases hi : i = idx
    · subst hi
      simpa [hpar] using within_and value _
    · simpa [hi] using h.par i
  · refine { h with pdr := fun hf i => ?_ }
    by_cases hi : i = idx
    · subst hi
      simpa [hpdr] using (within_and value (modelLookup model).pdrMask).and (~~~(pdrA ||| pdrW))
    · simpa [hi] using h.pdr hf i

theorem sysregWrite (h : WithinModel model s) (a value : Word) :
    ∀ t ∈ sysregWrite s a value, WithinModel model t := by
  have hsys (sys : SysRegs) :
      ∀ t ∈ (some { s with sys := sys } : Option Cpu), WithinModel model t := by
    rintro _ ⟨⟩
    exact h.same rfl rfl rfl rfl
  have hnone : ∀ t ∈ (none : Option Cpu), WithinModel model t := by rintro _ ⟨⟩
  unfold Pdp11.sysregWrite
  split
  · exact hnone
  split
  · exact hsys _
  split
  · generalize ((a >>> 1) &&& 0o17).toNat = n
    split
    case h_13 => exact hnone
    all_goals first
      | exact hsys s.sys
      | exact hsys _
  · exact hnone

/-- Every register write masks what it stores. -/
theorem ioWriteReg (h : WithinModel model s) (a value : Word) :
    ∀ t ∈ ioWriteReg s a value, WithinModel model t := by
  have hite {c : Prop} [Decidable c] {x y : Option Cpu} (hx : ∀ t ∈ x, WithinModel model t)
      (hy : ∀ t ∈ y, WithinModel model t) : ∀ t ∈ (if c then x else y), WithinModel model t := by
    split
    · exact hx
    · exact hy
  have hsome {u : Cpu} (hu : WithinModel model u) : ∀ t ∈ some u, WithinModel model t := by
    rintro _ ⟨⟩
    exact hu
  have hdevice {u : Cpu} (hu : DeviceStep s u) : ∀ t ∈ some u, WithinModel model t :=
    hsome (h.device hu)
  have hr := DeviceStep.refl s
  have h0 : s.cfg.mmr0Mask = (modelLookup model).mmr0Mask := by rw [← h.cfg]
  have h3 : s.cfg.mmr3Mask = (modelLookup model).mmr3Mask := by rw [← h.cfg]
  have hpsw (psw : Word) : WithinModel model { putPsw s psw with ctl.ccFrozen := true } :=
    (h.loadPsw psw).same rfl rfl rfl rfl
  unfold Pdp11.ioWriteReg
  refine hite (hsome (h.same rfl rfl rfl rfl)) <| hite (hsome (hpsw _)) <|
    hite (hsome (h.same rfl rfl rfl rfl)) <| hite (hsome ?_) <| hite (hsome ?_) <|
    hite (hdevice (clkWrite_step hr value)) <| hite (hdevice (consoleWrite_step hr a value)) <|
    hite (hdevice (rkWrite_step hr a value)) <| hite (hdevice (tmWrite_step hr a value)) <|
    hite (hdevice (rlWrite_step hr a value)) <| hite (hdevice (rxWrite_step hr a value)) <|
    hite (hdevice (rpWrite_step hr a value)) ?_
  · exact { h with mmr0 := fun _ => h0 ▸ within_and value _ }
  · exact { h with mmr3 := h3 ▸ within_and value _ }
  · cases aprIndex a with
    | some p => exact hsome (h.aprWrite p.1 p.2 value)
    | none => exact h.sysregWrite a value

end WithinModel

/-! ## Programs -/

/-- Every run of a computation keeps the registers in the masks. -/
abbrev KeepsMasks (model : Model) {α : Type} (x : M α) : Prop :=
  Keeps (fun m => WithinModel model m.cpu) x

section

variable {α : Type} {model : Model} {x : M α}

theorem masks_modify {f : Cpu → Cpu} (hf : ∀ s, WithinModel model s → WithinModel model (f s)) :
    KeepsMasks model (modifyCpu f) := fun m => hf m.cpu

theorem masks_fault (vector : Word) : KeepsMasks model (cpuBusFault vector : M α) :=
  fun _ h => h.same rfl rfl rfl rfl

theorem masks_ioRead (a : Word) : KeepsMasks model (ioRead a) := by
  intro m h
  rw [ioRead_apply]
  cases hp : ioReadReg m.cpu a with
  | none => exact masks_fault vecBus m h
  | some p => exact h.device (ioReadReg_step m.cpu a p hp).1

theorem masks_ioWrite (a value : Word) : KeepsMasks model (ioWrite a value) := by
  intro m h
  rw [ioWrite_apply]
  cases hs : ioWriteReg m.cpu a value with
  | none => exact masks_fault vecBus _ h
  | some t => exact h.ioWriteReg a value t hs

theorem masks_readOp (hx : ReadOp α x) : KeepsMasks model x := by
  cases hx with
  | get => exact fun _ h => h
  | fault vector => exact masks_fault vector
  | capture idx err herr => exact masks_modify fun _ h => h.capture idx herr
  | mark idx isWrite => exact masks_modify fun _ h => h.mark idx isWrite
  | ioRead a => exact masks_ioRead a
  | cache pa => exact masks_modify fun _ h => h.same rfl rfl rfl rfl

theorem masks_read (hx : ReadBuilt x) : KeepsMasks model x := hx.keeps masks_readOp

theorem masks_ref (hx : RefBuilt x) : KeepsMasks model x := by
  refine hx.keeps fun h => ?_
  cases h with
  | read h => exact masks_readOp h
  | ioWrite a value => exact masks_ioWrite a value
  | mem f => exact masks_modify fun _ h => h.same rfl rfl rfl rfl

theorem masks_stackLimit (sp : Word) : KeepsMasks model (checkStackLimit sp) := by
  intro m h
  rw [checkStackLimit_apply]
  cases stackZone m.cpu sp with
  | fine => exact h
  | yellow => exact h.same rfl rfl rfl rfl
  | red => exact h.same rfl rfl rfl rfl

theorem masks_basicOp (hx : BasicOp α x) : KeepsMasks model x := by
  cases hx with
  | get => exact fun _ h => h
  | regs f => exact masks_modify fun _ h => h.same rfl rfl rfl rfl
  | codes f hf =>
    refine masks_modify fun s h => ?_
    obtain ⟨psw, hs, hpsw⟩ := hf s
    rw [hs]
    exact h.lowPsw (by decide) hpsw
  | track reg delta =>
    refine masks_modify fun s h => ?_
    unfold mmr1Track
    split
    · exact h
    · exact h.same rfl rfl rfl rfl
  | fp f => exact masks_modify fun _ h => h.same rfl rfl rfl rfl
  | extra ns _ => exact masks_modify fun _ h => h.same rfl rfl rfl rfl
  | stackLimit sp => exact masks_stackLimit sp
  | fetchWord va =>
    intro m
    exact masks_read (read_cpuReadWordGen va m.cpu.mode false) m
  | readWord va => exact masks_read (read_cpuReadWord va)
  | writeWord va value => exact masks_ref (ref_cpuWriteWord va value)
  | readByte va => exact masks_read (read_cpuReadByte va)
  | writeByte va value => exact masks_ref (ref_cpuWriteByte va value)

theorem masks_unitOp (hx : UnitOp α x) : KeepsMasks model x := by
  cases hx with
  | basic h => exact masks_basicOp h
  | read va mode dspace => exact masks_read (read_cpuReadWordGen va mode dspace)
  | write va mode dspace value => exact masks_ref (ref_cpuWriteWordMode va mode dspace value)
  | prevReg pm cm reg value =>
    refine masks_modify fun s h => ?_
    unfold setPrevModeReg
    split <;> exact h.same rfl rfl rfl rfl
  | loadPsw psw => exact masks_modify fun _ h => h.loadPsw psw
  | spl word =>
    refine masks_modify fun s h => ?_
    have hlevel : Within ((word &&& 7) <<< 5) 0o340 := by
      rw [BitVec.shiftLeft_and_distrib]
      exact within_and _ _
    have hpsw : ((s.regs.psw &&& ~~~(0o340 : Word)) ||| ((word &&& 7) <<< 5)) &&& ~~~(0o340 : Word) =
        s.regs.psw &&& ~~~0o340 := (or_and_not _ hlevel).trans (and_not_and_not _ (by decide))
    split
    · exact h.lowPsw (z := 0o340) (by decide) hpsw
    · exact h
  | ctl f => exact masks_modify fun _ h => h.same rfl rfl rfl rfl
  | complete => exact masks_modify fun _ h => h.complete
  | dispatch vector psw pc => exact fun _ h => h

end

/-- A call of the step keeps the registers in the masks of the model. -/
theorem cpuStep_within {model : Model} {s : Cpu} (h : WithinModel model s) :
    WithinModel model (cpuStep s).cpu := by
  refine cpuStep_keeps masks_unitOp ?_ ?_ h
  · exact fun s ctl dev acct mem h => h.same rfl rfl rfl rfl
  · intro s h
    unfold beginInstr
    dsimp only
    split <;> exact h.same rfl rfl rfl rfl

theorem cpuReset_within {model : Model} {s : Cpu} (h : s.cfg.toModelInfo = modelLookup model) :
    WithinModel model (cpuReset s) where
  cfg := h
  psw := within_zero _
  unswapped _ := rfl
  mmr3 := within_zero _
  par _ := within_zero _
  mmr0 _ := within_zero _
  pdr _ _ := within_zero _

theorem BusOp.within {model : Model} (op : BusOp) {s : Cpu} (h : WithinModel model s) :
    WithinModel model (op.apply s) := by
  have hr := DeviceStep.refl s
  cases op with
  | step => exact cpuStep_within h
  | reset => exact cpuReset_within h.cfg
  | init => exact h.same rfl rfl rfl rfl
  | read a =>
    show WithinModel model (((ioReadReg s a).map Prod.snd).getD s)
    cases hp : ioReadReg s a with
    | none => exact h
    | some p => exact h.device (ioReadReg_step s a p hp).1
  | write a value =>
    show WithinModel model ((ioWriteReg s a value).getD s)
    cases ht : ioWriteReg s a value with
    | none => exact h
    | some t => exact h.ioWriteReg a value t ht
  | tick => exact h.device (clkTick_step hr)
  | input ch => exact h.device (consoleInput_step hr ch)
  | txPoll => exact h.device (consoleTxPoll_step hr)
  | rkPoll => exact h.device (rkPoll_step hr)
  | rpPoll => exact h.device (rpPoll_step hr)
  | tmPoll => exact h.device (tmPoll_step hr)
  | rlPoll => exact h.device (rlPoll_step hr)
  | acknowledge d => exact h.same rfl rfl rfl rfl
  | load r mem => exact h.same rfl rfl rfl rfl
  | setHalted halted => exact h.same rfl rfl rfl rfl
  | rkAttach disk words => exact h.same rfl rfl rfl rfl
  | rpAttach disk words => exact h.same rfl rfl rfl rfl
  | tmAttach tape len wrp => exact h.same rfl rfl rfl rfl
  | rlAttach disk words => exact h.same rfl rfl rfl rfl
  | rxAttach disk bytes => exact h.same rfl rfl rfl rfl

theorem reached_within {model : Model} {s : Cpu} (h : Reached model s) : WithinModel model s :=
  h.invariant (cpuReset_within rfl) fun op _ hs => op.within hs

/-- EMT at location 0 and a stack below 01000, loaded into a machine just created. -/
def emulating (model : Model) : Cpu :=
  (BusOp.load (Function.update (fun _ => 0) regSp 0o1000)
    fun i => if i = 0 then 0o104000 else 0).apply (cpuCreateModel model)

theorem emulating_reached (model : Model) : Reached model (cpuStep (emulating model)).cpu :=
  ((Reached.create model).next _).next .step

/-! ## The PSW -/

/-- In every state reached the PSW lies in the mask of the model. A model whose mask is the low
byte stays in Kernel mode with register set 0: no load of the PSW moves a register, and the
inactive register set is never filled. -/
theorem psw_within_model {model : Model} {s : Cpu} (h : Reached model s) :
    s.regs.psw &&& ~~~(modelLookup model).pswMask = 0 ∧
      ((modelLookup model).pswMask = 0o377 →
        s.mode = 0 ∧ prevMode s.regs.psw = 0 ∧ regSet s.regs.psw = 0 ∧
          s.regs.regfile = (fun _ _ => 0) ∧
          ∀ psw, (putPsw s psw).regs = { s.regs with psw := psw &&& 0o377 }) := by
  have hw := reached_within h
  refine ⟨hw.psw, fun hmask => ?_⟩
  obtain ⟨hmode, hprev, hset⟩ := modeless (hmask ▸ hw.psw)
  refine ⟨hmode, hprev, hset, hw.unswapped hmask, fun psw => ?_⟩
  rw [hw.putPsw_regfile psw hmask, hw.pswMask_eq, hmask]

/-- An 11/20 after an EMT, which switches no mode. -/
theorem emulating_modeless :
    (cpuStep (emulating .m1120)).cpu.regs.psw &&& ~~~(modelLookup .m1120).pswMask = 0 ∧
      (cpuStep (emulating .m1120)).cpu.mode = 0 := by
  obtain ⟨hpsw, hmodeless⟩ := psw_within_model (emulating_reached .m1120)
  exact ⟨hpsw, (hmodeless rfl).1⟩

/-! ## Memory management -/

/-- MMR0, MMR3 and all page registers lie in the masks of the model. -/
structure MmuWithin (model : Model) (s : Cpu) : Prop where
  mmr0 : s.mmu.mmr0 &&& ~~~(modelLookup model).mmr0Mask = 0
  mmr3 : s.mmu.mmr3 &&& ~~~(modelLookup model).mmr3Mask = 0
  par : ∀ i, s.mmu.par i &&& ~~~(modelLookup model).parMask = 0
  pdr : ∀ i, s.mmu.pdr i &&& ~~~(modelLookup model).pdrMask = 0

/-- The trap sets the instruction-complete bit on every model. -/
theorem emulating_mmr0 (model : Model) : (cpuStep (emulating model)).cpu.mmu.mmr0 = mmr0Ic := by
  cases model <;> decide +kernel

theorem fullFlags_of_ic {model : Model} (h : mmr0Ic &&& ~~~(modelLookup model).mmr0Mask = 0) :
    FullFlags model := by
  cases model <;> first | exact .inl rfl | exact .inr rfl | exact absurd h (by decide)

/-- The memory-management registers of a model never leave its masks exactly when the model has
the instruction-complete bit and the page flags, which traps and references set unmasked. -/
theorem mmu_within_iff (model : Model) :
    (∀ s, Reached model s → MmuWithin model s) ↔ model = .m1145 ∨ model = .m1170 := by
  refine ⟨fun h => ?_, fun h s hs => ?_⟩
  · have hic := (h _ (emulating_reached model)).mmr0
    rw [emulating_mmr0] at hic
    exact fullFlags_of_ic hic
  · have hw := reached_within hs
    exact ⟨hw.mmr0 h, hw.mmr3, hw.par, hw.pdr h⟩

/-- An 11/20 has no MMR0, and reads 0200 there after an EMT. -/
theorem emulating_leaves_masks : Reached .m1120 (cpuStep (emulating .m1120)).cpu ∧
    ¬MmuWithin .m1120 (cpuStep (emulating .m1120)).cpu := by
  refine ⟨emulating_reached .m1120, fun h => ?_⟩
  have h0 := h.mmr0
  rw [emulating_mmr0] at h0
  exact absurd h0 (by decide)

end Pdp11
