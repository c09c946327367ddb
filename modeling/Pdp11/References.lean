import Pdp11.StepEffects

namespace Pdp11

open FaultState

/-! Memory references and stack checks as equations over the machine. -/

/-! ## Relocation -/

/-- Whether memory management relocates. -/
def mmeOn (s : Cpu) : Prop := s.mmu.mmr0 &&& mmr0Mme ≠ 0

instance (s : Cpu) : Decidable (mmeOn s) := inferInstanceAs (Decidable (_ ≠ _))

/-- The errors a reference raises. -/
def refError (s : Cpu) (va : Word) (isWrite : Bool) (mode : Mode) (dspace : Bool) : Word :=
  if mmeOn s then mmuError (s.mmu.pdr (mmuIndex s.mmu va mode dspace)) va isWrite else 0

/-- The physical address of a reference. -/
def refPhysical (s : Cpu) (va : Word) (mode : Mode) (dspace : Bool) : PhysAddr :=
  if mmeOn s then mmuPhysical s.mmu (mmuIndex s.mmu va mode dspace) va else unmappedPhysical va

/-- The page flags a reference leaves. -/
def markRef (va : Word) (isWrite : Bool) (mode : Mode) (dspace : Bool) (s : Cpu) : Cpu :=
  if mmeOn s then markAccess (mmuIndex s.mmu va mode dspace) isWrite s else s

/-- The status a refused reference leaves. -/
def captureRef (va : Word) (isWrite : Bool) (mode : Mode) (dspace : Bool) (s : Cpu) : Cpu :=
  captureMmu (mmuIndex s.mmu va mode dspace) (refError s va isWrite mode dspace) s

/-! ## Equal mappings -/

/-- The page flags a reference sets; the mapping does not depend on them. -/
abbrev pdrFlags : Word := pdrA ||| pdrW

/-- Two states relocate alike. -/
structure SameMap (s s' : Cpu) : Prop where
  mme : s'.mmu.mmr0 &&& mmr0Mme = s.mmu.mmr0 &&& mmr0Mme
  mmr3 : s'.mmu.mmr3 = s.mmu.mmr3
  par : s'.mmu.par = s.mmu.par
  pdr : ∀ i, s'.mmu.pdr i &&& ~~~pdrFlags = s.mmu.pdr i &&& ~~~pdrFlags

namespace SameMap

variable {s t u : Cpu}

theorem of_mmu (h : t.mmu = s.mmu) : SameMap s t := by
  constructor <;> simp [h]

theorem trans (h : SameMap s t) (h' : SameMap t u) : SameMap s u where
  mme := h'.mme.trans h.mme
  mmr3 := h'.mmr3.trans h.mmr3
  par := h'.par.trans h.par
  pdr i := (h'.pdr i).trans (h.pdr i)

theorem mmeOn_iff (h : SameMap s t) : mmeOn t ↔ mmeOn s := by
  unfold mmeOn
  rw [h.mme]

theorem mmuIndex_eq (h : SameMap s t) (va : Word) (mode : Mode) (dspace : Bool) :
    mmuIndex t.mmu va mode dspace = mmuIndex s.mmu va mode dspace := by
  unfold mmuIndex
  rw [h.mmr3]

theorem refPhysical_eq (h : SameMap s t) (va : Word) (mode : Mode) (dspace : Bool) :
    refPhysical t va mode dspace = refPhysical s va mode dspace := by
  unfold refPhysical mmuPhysical
  simp only [h.mmeOn_iff, h.mmuIndex_eq, h.mmr3, h.par]

theorem mmuError_eq {pdr pdr' : Word} (h : pdr' &&& ~~~pdrFlags = pdr &&& ~~~pdrFlags) (va : Word)
    (isWrite : Bool) : mmuError pdr' va isWrite = mmuError pdr va isWrite := by
  have hacf : pdr' &&& pdrAcf = pdr &&& pdrAcf := BitMask.and_eq h (by decide)
  have hed : pdr' &&& pdrEd = pdr &&& pdrEd := BitMask.and_eq h (by decide)
  have hplf : pdr' &&& pdrPlf = pdr &&& pdrPlf := BitMask.and_eq h (by decide)
  unfold mmuError pageLengthError
  rw [hacf, hed, hplf]

theorem refError_eq (h : SameMap s t) (va : Word) (isWrite : Bool) (mode : Mode) (dspace : Bool) :
    refError t va isWrite mode dspace = refError s va isWrite mode dspace := by
  unfold refError
  simp only [h.mmeOn_iff, h.mmuIndex_eq]
  rw [mmuError_eq (h.pdr _)]

end SameMap

theorem markAccess_map (idx : BitVec 6) (isWrite : Bool) (s : Cpu) :
    SameMap s (markAccess idx isWrite s) := by
  refine ⟨rfl, rfl, rfl, fun i => ?_⟩
  unfold markAccess
  by_cases hi : i = idx
  · subst hi
    dsimp only
    rw [Function.update_self]
    have ha : (s.mmu.pdr i ||| pdrA) &&& ~~~pdrFlags = s.mmu.pdr i &&& ~~~pdrFlags :=
      BitMask.or_and_not _ (by decide)
    split
    · exact (BitMask.or_and_not _ (by decide)).trans ha
    · exact ha
  · dsimp only
    rw [Function.update_of_ne hi]

theorem markRef_map (va : Word) (isWrite : Bool) (mode : Mode) (dspace : Bool) (s : Cpu) :
    SameMap s (markRef va isWrite mode dspace s) := by
  unfold markRef
  split
  · exact markAccess_map _ _ s
  · exact .of_mmu rfl

/-- Marking a page changes nothing but its register. -/
theorem markRef_rest (va : Word) (isWrite : Bool) (mode : Mode) (dspace : Bool) (s : Cpu) :
    markRef va isWrite mode dspace s =
      { s with mmu.pdr := (markRef va isWrite mode dspace s).mmu.pdr } := by
  unfold markRef
  split <;> rfl

section
variable (va : Word) (isWrite : Bool) (mode : Mode) (dspace : Bool) (m : Machine)

theorem mmuRelocate_apply :
    mmuRelocate va isWrite mode dspace m =
      if refError m.cpu va isWrite mode dspace ≠ 0 then
        (cpuBusFault vecMme : M PhysAddr)
          { m with cpu := captureRef va isWrite mode dspace m.cpu }
      else
        .ok (refPhysical m.cpu va mode dspace)
          { m with cpu := markRef va isWrite mode dspace m.cpu } := by
  let idx := mmuIndex m.cpu.mmu va mode dspace
  let err := mmuError (m.cpu.mmu.pdr idx) va isWrite
  have h : mmuRelocate va isWrite mode dspace m =
      (if mmeOn m.cpu then
        if err ≠ 0 then (do
          modifyCpu (captureMmu idx err)
          cpuBusFault vecMme : M PhysAddr)
        else (do
          modifyCpu (markAccess idx isWrite)
          pure (mmuPhysical m.cpu.mmu idx va))
      else pure (unmappedPhysical va)) m := rfl
  rw [h, captureRef, refError, refPhysical, markRef]
  by_cases hm : mmeOn m.cpu
  · simp only [if_pos hm]
    by_cases he : err ≠ 0
    · rw [if_pos he, if_pos he]
      rfl
    · rw [if_neg he, if_neg he]
      rfl
  · simp only [if_neg hm]
    rw [if_neg (not_not.2 rfl)]
    rfl

end

theorem checkNxm_apply (pa : PhysAddr) (m : Machine) :
    checkNxm pa m =
      if m.cpu.cfg.memTop ≤ pa then (cpuBusFault vecBus : M Unit) m else .ok () m := by
  have h : checkNxm pa m =
      (whenM (m.cpu.cfg.memTop ≤ pa) (cpuBusFault vecBus) : M Unit) m := rfl
  rw [h, whenM]
  split <;> rfl

/-- The word of a physical address as a read through the cache returns it. -/
def readPhysical (pa : PhysAddr) (m : Machine) : EStateM.Result Unit Machine Word :=
  if isIopage pa then ioRead (pa.setWidth 16) m
  else if m.cpu.cfg.memTop ≤ pa then (cpuBusFault vecBus : M Word) m
  else .ok (memReadWord m.cpu.mem pa) { m with cpu := cacheReadCpu pa m.cpu }

/-- A word stored at a physical address. -/
def writePhysical (pa : PhysAddr) (value : Word) (m : Machine) : EStateM.Result Unit Machine Unit :=
  if isIopage pa then ioWrite (pa.setWidth 16) value m
  else if m.cpu.cfg.memTop ≤ pa then (cpuBusFault vecBus : M Unit) m
  else .ok () { m with cpu := { m.cpu with mem := memWriteWord m.cpu.mem pa value } }

/-- A byte of an I/O-page register: the word is read, the byte merged, the word written. -/
def ioWriteByte (pa : PhysAddr) (value : Byte) : M Unit := do
  let reg := pa.setWidth 16 &&& 0o177776
  let w ← ioRead reg
  ioWrite reg (if pa &&& 1 ≠ 0 then (w &&& 0o377) ||| (value.setWidth 16 <<< 8)
    else (w &&& 0o177400) ||| value.setWidth 16)

/-- A byte stored at a physical address. -/
def writeBytePhysical (pa : PhysAddr) (value : Byte) (m : Machine) :
    EStateM.Result Unit Machine Unit :=
  if isIopage pa then ioWriteByte pa value m
  else if m.cpu.cfg.memTop ≤ pa then (cpuBusFault vecBus : M Unit) m
  else .ok () { m with cpu := { m.cpu with mem := memWriteByte m.cpu.mem pa value } }

/-- A reference refused before it has a physical address: an odd word address, or a page. -/
def refused (va : Word) (isWrite : Bool) (mode : Mode) (dspace : Bool) (s : Cpu) : Prop :=
  va &&& 1 ≠ 0 ∨ refError s va isWrite mode dspace ≠ 0

instance (va : Word) (isWrite : Bool) (mode : Mode) (dspace : Bool) (s : Cpu) :
    Decidable (refused va isWrite mode dspace s) := inferInstanceAs (Decidable (_ ∨ _))

/-- The fault of a refused reference. -/
def refusal {α : Type} (va : Word) (isWrite : Bool) (mode : Mode) (dspace : Bool) (m : Machine) :
    EStateM.Result Unit Machine α :=
  if va &&& 1 ≠ 0 then (cpuBusFault vecBus : M α) m
  else (cpuBusFault vecMme : M α) { m with cpu := captureRef va isWrite mode dspace m.cpu }

/-- A reference is refused, or goes on with its physical address. -/
theorem relocate_bind {α : Type} (va : Word) (isWrite : Bool) (mode : Mode) (dspace : Bool)
    (f : PhysAddr → M α) (m : Machine) :
    (do
      whenM (va &&& 1 ≠ 0) (cpuBusFault vecBus)
      let pa ← mmuRelocate va isWrite mode dspace
      f pa : M α) m =
      if refused va isWrite mode dspace m.cpu then refusal va isWrite mode dspace m
      else f (refPhysical m.cpu va mode dspace)
        { m with cpu := markRef va isWrite mode dspace m.cpu } := by
  by_cases ho : va &&& 1 ≠ 0
  · have hr : refused va isWrite mode dspace m.cpu := .inl ho
    rw [if_pos hr, refusal, if_pos ho]
    refine bind_error (e := ()) ?_
    rw [whenM, if_pos ho]
    rfl
  have hw : (whenM (va &&& 1 ≠ 0) (cpuBusFault vecBus) : M Unit) m = .ok () m := by
    rw [whenM, if_neg ho]
    rfl
  rw [bind_ok hw]
  have hm := mmuRelocate_apply va isWrite mode dspace m
  by_cases he : refError m.cpu va isWrite mode dspace ≠ 0
  · have hr : refused va isWrite mode dspace m.cpu := .inr he
    rw [if_pos he] at hm
    rw [if_pos hr, refusal, if_neg ho]
    exact bind_error hm
  · have hr : ¬refused va isWrite mode dspace m.cpu := not_or.2 ⟨ho, he⟩
    rw [if_neg he] at hm
    rw [if_neg hr]
    exact bind_ok hm

section
variable (va : Word) (mode : Mode) (dspace : Bool) (m : Machine)

theorem cpuReadWordGen_apply :
    cpuReadWordGen va mode dspace m =
      if refused va false mode dspace m.cpu then refusal va false mode dspace m
      else readPhysical (refPhysical m.cpu va mode dspace)
        { m with cpu := markRef va false mode dspace m.cpu } := by
  refine (relocate_bind va false mode dspace _ m).trans ?_
  split
  · rfl
  generalize refPhysical m.cpu va mode dspace = pa
  generalize (⟨markRef va false mode dspace m.cpu, m.events⟩ : Machine) = m1
  have hx := checkNxm_apply pa m1
  rw [readPhysical]
  split
  · rfl
  by_cases hn : m1.cpu.cfg.memTop ≤ pa
  · rw [if_pos hn] at hx ⊢
    exact bind_error hx
  · rw [if_neg hn] at hx ⊢
    exact bind_ok hx

theorem cpuWriteWordMode_apply (value : Word) :
    cpuWriteWordMode va mode dspace value m =
      if refused va true mode dspace m.cpu then refusal va true mode dspace m
      else writePhysical (refPhysical m.cpu va mode dspace) value
        { m with cpu := markRef va true mode dspace m.cpu } := by
  refine (relocate_bind va true mode dspace _ m).trans ?_
  split
  · rfl
  generalize refPhysical m.cpu va mode dspace = pa
  generalize (⟨markRef va true mode dspace m.cpu, m.events⟩ : Machine) = m1
  have hx := checkNxm_apply pa m1
  rw [writePhysical]
  split
  · rfl
  by_cases hn : m1.cpu.cfg.memTop ≤ pa
  · rw [if_pos hn] at hx ⊢
    exact bind_error hx
  · rw [if_neg hn] at hx ⊢
    exact bind_ok hx

end

/-- A byte store is refused by its page alone. -/
theorem cpuWriteByte_apply (va : Word) (value : Byte) (m : Machine) :
    cpuWriteByte va value m =
      if refError m.cpu va true m.cpu.mode true ≠ 0 then
        (cpuBusFault vecMme : M Unit)
          { m with cpu := captureRef va true m.cpu.mode true m.cpu }
      else writeBytePhysical (refPhysical m.cpu va m.cpu.mode true) value
        { m with cpu := markRef va true m.cpu.mode true m.cpu } := by
  have hbind : cpuWriteByte va value m = (mmuRelocate va true m.cpu.mode true >>= fun pa =>
      if isIopage pa then ioWriteByte pa value
      else do
        checkNxm pa
        modifyCpu fun s => { s with mem := memWriteByte s.mem pa value } : M Unit) m := rfl
  have hm := mmuRelocate_apply va true m.cpu.mode true m
  rw [hbind]
  by_cases he : refError m.cpu va true m.cpu.mode true ≠ 0
  · rw [if_pos he] at hm ⊢
    exact bind_error hm
  · rw [if_neg he] at hm ⊢
    rw [bind_ok hm, writeBytePhysical]
    generalize refPhysical m.cpu va m.cpu.mode true = pa
    generalize (⟨markRef va true m.cpu.mode true m.cpu, m.events⟩ : Machine) = m1
    have hx := checkNxm_apply pa m1
    split
    · rfl
    by_cases hn : m1.cpu.cfg.memTop ≤ pa
    · rw [if_pos hn] at hx ⊢
      exact bind_error hx
    · rw [if_neg hn] at hx ⊢
      exact bind_ok hx

/-! ## References to memory -/

/-- The words a reference may reach without an abort: even, allowed by the page, in memory. -/
structure RamRef (s : Cpu) (va : Word) (isWrite : Bool) (mode : Mode) (dspace : Bool) : Prop where
  even : va &&& 1 = 0
  page : refError s va isWrite mode dspace = 0
  ram : isIopage (refPhysical s va mode dspace) = false
  installed : refPhysical s va mode dspace < s.cfg.memTop

/-- What a reference to memory may change besides the word it stores: page flags and the cache. -/
structure RamStep (s s' : Cpu) : Prop where
  rest : s' = { s with mmu.pdr := s'.mmu.pdr, acct.cache := s'.acct.cache, mem := s'.mem }
  map : SameMap s s'

theorem cpuReadWordGen_ram {va : Word} {mode : Mode} {dspace : Bool} {m : Machine}
    (h : RamRef m.cpu va false mode dspace) :
    ∃ m', cpuReadWordGen va mode dspace m =
        .ok (memReadWord m.cpu.mem (refPhysical m.cpu va mode dspace)) m' ∧
      RamStep m.cpu m'.cpu ∧ m'.cpu.mem = m.cpu.mem ∧ m'.events = m.events := by
  have hr : ¬refused va false mode dspace m.cpu := by
    rintro (ho | he)
    · exact ho h.even
    · exact he h.page
  have hrest := markRef_rest va false mode dspace m.cpu
  have hcfg : (markRef va false mode dspace m.cpu).cfg = m.cpu.cfg := by rw [hrest]
  have hmem : (markRef va false mode dspace m.cpu).mem = m.cpu.mem := by rw [hrest]
  have hn : ¬(markRef va false mode dspace m.cpu).cfg.memTop ≤ refPhysical m.cpu va mode dspace := by
    rw [hcfg]
    exact BitVec.not_le.2 h.installed
  refine ⟨⟨cacheReadCpu (refPhysical m.cpu va mode dspace) (markRef va false mode dspace m.cpu),
    m.events⟩, ?_, ⟨?_, (markRef_map va false mode dspace m.cpu).trans (.of_mmu rfl)⟩, hmem, rfl⟩
  · rw [cpuReadWordGen_apply, if_neg hr, readPhysical, if_neg (by simp [h.ram]), if_neg hn]
    dsimp only
    rw [hmem]
  · rw [hrest]
    rfl

/-- A store that completes outside the I/O page is a store to memory. -/
theorem cpuWriteWordMode_ram {va value : Word} {mode : Mode} {dspace : Bool} {m m' : Machine}
    (h : cpuWriteWordMode va mode dspace value m = .ok () m')
    (hram : isIopage (refPhysical m.cpu va mode dspace) = false) :
    RamRef m.cpu va true mode dspace ∧ RamStep m.cpu m'.cpu ∧
      m'.cpu.mem = memWriteWord m.cpu.mem (refPhysical m.cpu va mode dspace) value ∧
      m'.events = m.events := by
  rw [cpuWriteWordMode_apply] at h
  have hrest := markRef_rest va true mode dspace m.cpu
  have hcfg : (markRef va true mode dspace m.cpu).cfg = m.cpu.cfg := by rw [hrest]
  have hmem : (markRef va true mode dspace m.cpu).mem = m.cpu.mem := by rw [hrest]
  by_cases hr : refused va true mode dspace m.cpu
  · rw [if_pos hr, refusal] at h
    split at h <;> cases h
  rw [if_neg hr, writePhysical, if_neg (by simp [hram])] at h
  dsimp only at h
  by_cases hn : (markRef va true mode dspace m.cpu).cfg.memTop ≤ refPhysical m.cpu va mode dspace
  · rw [if_pos hn] at h
    cases h
  rw [if_neg hn] at h
  obtain ⟨ho, he⟩ := not_or.1 hr
  cases h
  refine ⟨⟨not_not.1 ho, not_not.1 he, hram, ?_⟩, ⟨?_, ?_⟩, ?_, rfl⟩
  · rw [hcfg] at hn
    exact BitVec.not_le.1 hn
  · rw [hrest]
  · exact (markRef_map va true mode dspace m.cpu).trans (.of_mmu rfl)
  · rw [hmem]

/-! ## Stack limit -/

/-- What the stack limit check finds. -/
inductive StackZone
  | fine | yellow | red
  deriving DecidableEq, Repr

def stackZone (s : Cpu) (sp : Word) : StackZone :=
  if stackExempt s then .fine
  else if s.sys.stklim + stklYel ≤ sp then .fine
  else if s.cfg.hasStklf then .yellow
  else if s.cfg.hasStklr then
    if s.sys.stklim + stklRed ≤ sp then .yellow else .red
  else .fine

theorem checkStackLimit_apply (sp : Word) (m : Machine) :
    checkStackLimit sp m =
      match stackZone m.cpu sp with
      | .fine => .ok () m
      | .yellow => .ok () { m with cpu := stackYellow m.cpu }
      | .red => (cpuBusFault vecBus : M Unit) { m with cpu := stackRed m.cpu } := by
  have h : checkStackLimit sp m =
      (if stackExempt m.cpu then pure ()
      else if m.cpu.sys.stklim + stklYel ≤ sp then pure ()
      else if m.cpu.cfg.hasStklf then modifyCpu stackYellow
      else if m.cpu.cfg.hasStklr then
        if m.cpu.sys.stklim + stklRed ≤ sp then modifyCpu stackYellow
        else do
          modifyCpu stackRed
          cpuBusFault vecBus
      else pure () : M Unit) m := rfl
  rw [h, stackZone]
  split_ifs <;> rfl

/-- The red zone exists in Kernel mode only. -/
theorem mode_of_red {s : Cpu} {sp : Word} (h : stackZone s sp = .red) : s.mode = 0 := by
  by_contra hm
  have he : stackExempt s = true := decide_eq_true (.inr hm)
  rw [stackZone, if_pos he] at h
  cases h

/-- A stack check that passes leaves all but the yellow-zone warning alone. -/
theorem checkStackLimit_ok {sp : Word} {m m' : Machine} (h : checkStackLimit sp m = .ok () m') :
    m'.cpu = m.cpu ∨ m'.cpu = stackYellow m.cpu := by
  rw [checkStackLimit_apply] at h
  cases hz : stackZone m.cpu sp <;> rw [hz] at h <;> cases h
  · exact .inl rfl
  · exact .inr rfl

/-- A register holding `v`. -/
def withReg (i : Field3) (v : Word) (m : Machine) : Machine :=
  { m with cpu := { m.cpu with regs.r := Function.update m.cpu.regs.r i v } }

/-- The address a push stores at. -/
def pushAddr (s : Cpu) : Word := s.regs.r regSp - 2

/-- A push: lower R6, check the limit, store. -/
theorem pushWord_apply (value : Word) (m : Machine) :
    let va := pushAddr m.cpu
    let m₁ := withReg regSp va m
    pushWord value m =
      match stackZone m₁.cpu va with
      | .fine => cpuWriteWordMode va m₁.cpu.mode true value m₁
      | .yellow =>
        cpuWriteWordMode va m₁.cpu.mode true value { m₁ with cpu := stackYellow m₁.cpu }
      | .red => (cpuBusFault vecBus : M Unit) { m₁ with cpu := stackRed m₁.cpu } := by
  intro va m₁
  have hva : m.cpu.regs.r regSp + (-2) = va := BitVec.add_neg_eq_sub
  have hsp : m₁.cpu.regs.r regSp = va := by
    show Function.update m.cpu.regs.r regSp va regSp = va
    rw [Function.update_self]
  have hpush : pushWord value m = (do
      let sp ← getReg regSp
      checkStackLimit sp
      let sp ← getReg regSp
      cpuWriteWord sp value : M Unit) (withReg regSp (m.cpu.regs.r regSp + (-2)) m) := rfl
  have hget : getReg regSp m₁ = .ok va m₁ := by
    rw [← hsp]
    rfl
  have hc := checkStackLimit_apply va m₁
  rw [hpush, hva, bind_ok hget]
  cases hz : stackZone m₁.cpu va <;> rw [hz] at hc
  case fine =>
    rw [bind_ok hc, bind_ok hget]
    rfl
  case yellow =>
    have hget' : getReg regSp { m₁ with cpu := stackYellow m₁.cpu } =
        .ok va { m₁ with cpu := stackYellow m₁.cpu } := by
      rw [← hsp]
      rfl
    rw [bind_ok hc, bind_ok hget']
    rfl
  case red => exact bind_error hc

/-- A pop: load, raise R6. -/
theorem popWord_apply (m : Machine) :
    popWord m = match cpuReadWordGen (m.cpu.regs.r regSp) m.cpu.mode true m with
      | .ok v m' => .ok v (withReg regSp (m'.cpu.regs.r regSp + 2) m')
      | .error e m' => .error e m' := by
  have hpop : popWord m = (cpuReadWordGen (m.cpu.regs.r regSp) m.cpu.mode true >>= fun value => do
      addReg regSp 2
      pure value : M Word) m := rfl
  rw [hpop, bind_apply]
  cases cpuReadWordGen (m.cpu.regs.r regSp) m.cpu.mode true m <;> rfl

end Pdp11
