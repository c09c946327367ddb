import Pdp11.References

namespace Pdp11

open FaultState

/-! The floating registers are not touched while an operand is found, read or stored in memory. -/

abbrev KeepsFp {α : Type} (x : M α) : Prop := Respects (fun m m' => m'.cpu.fp = m.cpu.fp) x

section
variable {α β : Type} {x : M α}

theorem KeepsFp.bind {f : α → M β} (hx : KeepsFp x) (hf : ∀ a, KeepsFp (f a)) :
    KeepsFp (x >>= f) := Respects.bind (fun _ _ _ h h' => h'.trans h) hx hf

theorem keepsFp_modify {f : Cpu → Cpu} (hf : ∀ s, (f s).fp = s.fp) : KeepsFp (modifyCpu f) :=
  fun m => hf m.cpu

theorem keepsFp_fault (vector : Word) : KeepsFp (cpuBusFault vector : M α) := fun _ => rfl

theorem keepsFp_built {P : (α : Type) → M α → Prop}
    (hop : ∀ {α : Type} {x : M α}, P α x → KeepsFp x) (hx : Built P α x) : KeepsFp x := by
  refine hx.respects (R := fun m m' => m'.cpu.fp = m.cpu.fp) (fun _ => rfl) ?_ fun h => hop h
  intro _ _ _ h h'
  exact h'.trans h

theorem keepsFp_refOp (hx : RefOp α x) : KeepsFp x := by
  cases hx with
  | read h =>
    cases h with
    | get => exact fun _ => rfl
    | fault vector => exact keepsFp_fault vector
    | capture idx err _ =>
      refine keepsFp_modify fun s => ?_
      unfold captureMmu
      split <;> rfl
    | mark idx isWrite => exact keepsFp_modify fun _ => rfl
    | ioRead a =>
      intro m
      rw [ioRead_apply]
      cases hp : ioReadReg m.cpu a with
      | none => exact keepsFp_fault (α := Word) vecBus m
      | some p => rw [final_ok, (ioReadReg_step m.cpu a p hp).1.rest]
    | cache pa => exact keepsFp_modify fun _ => rfl
  | ioWrite a value =>
    intro m
    rw [ioWrite_apply]
    cases hs : ioWriteReg m.cpu a value with
    | none => exact keepsFp_fault (α := Unit) vecBus ⟨m.cpu, _⟩
    | some t => exact (ioWriteReg_step m.cpu a value t hs).1.fp
  | mem f => exact keepsFp_modify fun _ => rfl

theorem keepsFp_ref (hx : RefBuilt x) : KeepsFp x := keepsFp_built keepsFp_refOp hx

theorem keepsFp_operandOp (hx : OperandOp α x) : KeepsFp x := by
  cases hx with
  | get => exact fun _ => rfl
  | regs f => exact keepsFp_modify fun _ => rfl
  | track reg delta =>
    refine keepsFp_modify fun s => ?_
    unfold mmr1Track
    split <;> rfl
  | stackLimit sp =>
    intro m
    rw [checkStackLimit_apply]
    cases stackZone m.cpu sp <;> rfl
  | fetchWord va =>
    intro m
    exact keepsFp_ref (ofRead (read_cpuReadWordGen va m.cpu.mode false)) m
  | readWord va => exact keepsFp_ref (ofRead (read_cpuReadWord va))
  | readByte va => exact keepsFp_ref (ofRead (read_cpuReadByte va))

theorem keepsFp_operand (hx : OperandBuilt x) : KeepsFp x := keepsFp_built keepsFp_operandOp hx

end

end Pdp11
