import Pdp11.StepEffects

namespace Pdp11

open FaultState

/-- What a management abort leaves for its handler: MMR0<15:13>, the page field MMR0<6:1>, the
register log MMR1 and the instruction address MMR2. -/
structure FaultStatus where
  errors : BitVec 3
  page : BitVec 6
  mmr1 : Word
  mmr2 : Word

def faultStatus (s : Cpu) : FaultStatus :=
  ⟨s.mmu.mmr0.extractLsb' 13 3, s.mmu.mmr0.extractLsb' 1 6, s.mmu.mmr1, s.mmu.mmr2⟩

/-- MMR0 holds an error. -/
def FaultHeld (s : Cpu) : Prop := (faultStatus s).errors ≠ 0

theorem freeze_ne_zero {s : Cpu} (h : FaultHeld s) : s.mmu.mmr0 &&& mmr0Freeze ≠ 0 := by
  intro h0
  refine h ?_
  ext i hi
  have hi' := congrArg (fun v : Word => v.getLsbD (13 + i)) h0
  simp only [faultStatus, ← BitVec.getLsbD_eq_getElem, BitVec.getLsbD_extractLsb', hi, decide_true,
    Bool.true_and]
  obtain rfl | rfl | rfl : i = 0 ∨ i = 1 ∨ i = 2 := by omega
  all_goals simpa using hi'

/-- A write of MMR0 happened, or a held fault status is as it was. -/
def HeldOrWritten (m m' : Machine) : Prop :=
  (∀ e ∈ m.events, e ∈ m'.events) ∧
    ((∃ v, Event.ioWrite iopageMmr0 v ∈ m'.events) ∨
      (FaultHeld m.cpu → faultStatus m'.cpu = faultStatus m.cpu))

theorem heldOrWritten_refl (m : Machine) : HeldOrWritten m m := ⟨fun _ h => h, .inr fun _ => rfl⟩

theorem heldOrWritten_trans (m₁ m₂ m₃ : Machine) (h : HeldOrWritten m₁ m₂)
    (h' : HeldOrWritten m₂ m₃) : HeldOrWritten m₁ m₃ := by
  refine ⟨fun e he => h'.1 e (h.1 e he), ?_⟩
  obtain ⟨v, hv⟩ | hk := h.2
  · exact .inl ⟨v, h'.1 _ hv⟩
  obtain hw | hk' := h'.2
  · exact .inl hw
  refine .inr fun hf => ?_
  have heq := hk hf
  exact (hk' (by rwa [FaultHeld, heq])).trans heq

section
variable {α : Type}

theorem held_modify {f : Cpu → Cpu} (h : ∀ s, FaultHeld s → faultStatus (f s) = faultStatus s) :
    Respects HeldOrWritten (modifyCpu f) :=
  fun m => ⟨fun _ he => he, .inr (h m.cpu)⟩

theorem held_fault (vector : Word) : Respects HeldOrWritten (cpuBusFault vector : M α) :=
  fun _ => ⟨fun _ he => List.mem_append_left _ he, .inr fun _ => rfl⟩

theorem held_emit (e : Event) : Respects HeldOrWritten (emit e) :=
  fun _ => ⟨fun _ he => List.mem_append_left _ he, .inr fun _ => rfl⟩

theorem captureMmu_held (idx : BitVec 6) (err : Word) {s : Cpu} (h : FaultHeld s) :
    captureMmu idx err s = s := by
  rw [captureMmu, if_neg (freeze_ne_zero h)]

theorem mmr1Track_held (reg : Field3) (delta : Word) {s : Cpu} (h : FaultHeld s) :
    mmr1Track reg delta s = s := by
  rw [mmr1Track, if_pos (.inr (.inr (freeze_ne_zero h)))]

theorem beginInstr_held {s : Cpu} (h : FaultHeld s) :
    faultStatus (beginInstr s) = faultStatus s := by
  rw [beginInstr]
  have hf := freeze_ne_zero h
  simp only [hf, and_false, if_false]
  rfl

/-- The instruction-complete bit lies outside the fault status. -/
theorem faultStatus_complete (s : Cpu) :
    faultStatus { s with mmu.mmr0 := s.mmu.mmr0 ||| mmr0Ic } = faultStatus s := by
  have h := BitMask.or_and_not s.mmu.mmr0 (by decide : mmr0Ic &&& ~~~mmr0Ic = 0)
  simp only [faultStatus, BitMask.extractLsb'_eq h 13 3 (by decide),
    BitMask.extractLsb'_eq h 1 6 (by decide)]

theorem held_ioRead (a : Word) : Respects HeldOrWritten (ioRead a) := by
  intro m
  rw [ioRead_apply]
  cases h : ioReadReg m.cpu a with
  | none => exact held_fault _ m
  | some p =>
    have hp := (ioReadReg_step m.cpu a p h).1.rest
    refine ⟨fun _ he => he, .inr fun _ => ?_⟩
    simp only [final_ok]
    rw [hp]
    rfl

theorem held_ioWrite (a value : Word) : Respects HeldOrWritten (ioWrite a value) := by
  intro m
  have hm (e : Event) (he : e ∈ m.events) : e ∈ m.events ++ [.ioWrite a value] :=
    List.mem_append_left _ he
  rw [ioWrite_apply]
  cases h : ioWriteReg m.cpu a value with
  | none =>
    let m1 : Machine := ⟨m.cpu, m.events ++ [.ioWrite a value]⟩
    have hf : HeldOrWritten m1 (final ((cpuBusFault vecBus : M Unit) m1)) := held_fault vecBus m1
    exact heldOrWritten_trans m m1 _ ⟨hm, .inr fun _ => rfl⟩ hf
  | some s' =>
    obtain ⟨hs, h0⟩ := ioWriteReg_step m.cpu a value s' h
    refine ⟨hm, ?_⟩
    by_cases ha : a = iopageMmr0
    · exact .inl ⟨value, by simp [ha]⟩
    · refine .inr fun _ => ?_
      simp only [final_ok, faultStatus, h0 ha, hs.mmr1, hs.mmr2]

end

theorem held_core {α : Type} {x : M α} (h : CoreOp α x) : Respects HeldOrWritten x := by
  cases h with
  | get => exact heldOrWritten_refl
  | fault vector => exact held_fault vector
  | capture idx err => exact held_modify fun s hs => by rw [captureMmu_held idx err hs]
  | mark idx isWrite => exact held_modify fun _ _ => rfl
  | ioRead a => exact held_ioRead a
  | ioWrite a value => exact held_ioWrite a value
  | mem f => exact held_modify fun _ _ => rfl
  | cache pa => exact held_modify fun _ _ => rfl
  | regs f => exact held_modify fun _ _ => rfl
  | ctl f => exact held_modify fun _ _ => rfl
  | fp f => exact held_modify fun _ _ => rfl
  | track reg delta => exact held_modify fun s hs => by rw [mmr1Track_held reg delta hs]
  | complete => exact held_modify fun s _ => faultStatus_complete s
  | yellow => exact held_modify fun _ _ => rfl
  | red => exact held_modify fun _ _ => rfl
  | extra ns _ => exact held_modify fun _ _ => rfl
  | init => exact held_modify fun _ _ => rfl
  | dispatch vector psw pc => exact held_emit _

theorem held_step {α : Type} {x : M α} (h : StepOp α x) : Respects HeldOrWritten x := by
  cases h with
  | core h => exact held_core h
  | acknowledge p => cases p <;> exact held_modify fun _ _ => rfl
  | count => exact held_modify fun _ _ => rfl
  | begin => exact held_modify fun _ hs => beginInstr_held hs
  | setjmp => exact held_emit _

theorem faultStatus_finishInstr (word : Word) (s : Cpu) :
    faultStatus (finishInstr word s) = faultStatus s := by
  rw [finishInstr, serviceDueEvents_rest]
  rfl

theorem faultStatus_idleSkip (s : Cpu) : faultStatus (idleSkip s) = faultStatus s := by
  unfold idleSkip
  dsimp only
  split
  · rw [serviceDueEvents_rest]
    split <;> rfl
  · rfl

/-- One step writes MMR0 or leaves a held fault status alone. -/
theorem cpuStep_held {s : Cpu} (h : FaultHeld s)
    (hw : ∀ v, Event.ioWrite iopageMmr0 v ∉ (cpuStep s).events) :
    faultStatus (cpuStep s).cpu = faultStatus s := by
  obtain hr | ⟨m, word, hr, hc, he⟩ | ⟨hc, -⟩ :=
    cpuStep_outcome heldOrWritten_refl heldOrWritten_trans held_step s
  · obtain ⟨v, hv⟩ | hk := hr.2
    · exact absurd hv (hw v)
    · exact hk h
  · rw [hc, faultStatus_finishInstr]
    obtain ⟨v, hv⟩ | hk := hr.2
    · exact absurd (he ▸ hv) (hw v)
    · exact hk h
  · rw [hc, faultStatus_idleSkip]

/-- A captured fault status stays over any number of steps, until a program writes MMR0. -/
theorem fault_status_frozen (s : Cpu) (n : ℕ) (h : s.mmu.mmr0.extractLsb' 13 3 ≠ 0)
    (hw : ∀ k < n, ∀ v, Event.ioWrite iopageMmr0 v ∉ (cpuStep (cpuRun s k)).events) :
    faultStatus (cpuRun s n) = faultStatus s := by
  induction n with
  | zero => rfl
  | succ n ih =>
    have hn : faultStatus (cpuRun s n) = faultStatus s := ih fun k hk => hw k (by omega)
    have hf : FaultHeld (cpuRun s n) := by
      rw [FaultHeld, hn]
      exact h
    exact (cpuStep_held hf (hw n (by omega))).trans hn

/-- A held abort, with `TST (R1)+` at location 0 and HALT behind it. -/
def heldFault : Cpu :=
  { cpuCreate with
    mmu := { cpuCreate.mmu with mmr0 := 0o100000, mmr1 := 0o000021, mmr2 := 0o001000 }
    mem := fun i => if i = 0 then 0o005721 else 0 }

theorem heldFault_frozen :
    heldFault.mmu.mmr0.extractLsb' 13 3 ≠ 0 ∧
      faultStatus (cpuRun heldFault 2) = faultStatus heldFault := by
  refine ⟨by decide +kernel, fault_status_frozen heldFault 2 (by decide +kernel) fun k hk v => ?_⟩
  have h : (cpuStep (cpuRun heldFault k)).events = [.setjmp] := by
    obtain rfl | rfl : k = 0 ∨ k = 1 := by omega
    · decide +kernel
    · decide +kernel
  rw [h]
  simp

end Pdp11
