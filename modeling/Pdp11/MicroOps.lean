import Pdp11.Lib.FaultState
import Pdp11.Lib.BitMask
import Pdp11.Step
import Mathlib.Tactic.SplitIfs
import Mathlib.Tactic.Common

namespace Pdp11

open FaultState

/-! ## Condition-code updates -/

/-- Only the condition codes of the PSW differ. -/
def CodesOnly (s s' : Cpu) : Prop :=
  ∃ psw, s' = { s with regs.psw := psw } ∧ psw &&& ~~~0o17 = s.regs.psw &&& ~~~0o17

theorem CodesOnly.refl (s : Cpu) : CodesOnly s s := ⟨s.regs.psw, rfl, rfl⟩

theorem CodesOnly.trans {s t u : Cpu} (h : CodesOnly s t) (h' : CodesOnly t u) :
    CodesOnly s u := by
  obtain ⟨p, rfl, hp⟩ := h
  obtain ⟨q, rfl, hq⟩ := h'
  exact ⟨q, rfl, hq.trans hp⟩

/-- Setting and clearing bits among the low four. -/
theorem codesOnly_or (s : Cpu) {flag : Word} (h : flag &&& ~~~0o17 = 0) :
    CodesOnly s { s with regs.psw := s.regs.psw ||| flag } :=
  ⟨_, rfl, BitMask.or_and_not _ h⟩

theorem codesOnly_andNot (s : Cpu) {flag : Word} (h : flag &&& ~~~0o17 = 0) :
    CodesOnly s { s with regs.psw := s.regs.psw &&& ~~~flag } :=
  ⟨_, rfl, BitMask.and_not_and_not _ h⟩

/-- Replacing the low four bits. -/
theorem codesOnly_replace (s : Cpu) {cc : Word} (h : cc &&& ~~~0o17 = 0) :
    CodesOnly s { s with regs.psw := (s.regs.psw &&& ~~~fpsCc) ||| cc } :=
  ⟨_, rfl, (BitMask.or_and_not _ h).trans (BitMask.and_not_and_not _ (by decide))⟩

section
variable {s t : Cpu}

theorem CodesOnly.setFlag (h : CodesOnly s t) {flag : Word} (hf : flag &&& ~~~0o17 = 0)
    (on : Bool) : CodesOnly s (setFlag t flag on) := by
  refine h.trans ?_
  unfold Pdp11.setFlag
  split
  · exact .refl t
  · cases on
    · exact codesOnly_andNot t hf
    · exact codesOnly_or t hf

theorem CodesOnly.setN (h : CodesOnly s t) (on : Bool) : CodesOnly s (Pdp11.setFlag t pswN on) :=
  h.setFlag (by decide) on

theorem CodesOnly.setZ (h : CodesOnly s t) (on : Bool) : CodesOnly s (Pdp11.setFlag t pswZ on) :=
  h.setFlag (by decide) on

theorem CodesOnly.setV (h : CodesOnly s t) (on : Bool) : CodesOnly s (Pdp11.setFlag t pswV on) :=
  h.setFlag (by decide) on

theorem CodesOnly.setC (h : CodesOnly s t) (on : Bool) : CodesOnly s (Pdp11.setFlag t pswC on) :=
  h.setFlag (by decide) on

theorem CodesOnly.setNz (h : CodesOnly s t) (result : Word) (bytemode : Bool) :
    CodesOnly s (setNz t result bytemode) :=
  (h.setN _).setZ _

theorem CodesOnly.setVFromNc (h : CodesOnly s t) : CodesOnly s (setVFromNc t) := h.setV _

end

theorem codesOnly_setNzV0 (s : Cpu) (result : Word) (bytemode : Bool) :
    CodesOnly s (setNzV0 s result bytemode) :=
  ((CodesOnly.refl s).setNz _ _).setV _

theorem codesOnly_setNzvc (s : Cpu) (n z v c : Bool) : CodesOnly s (setNzvc s n z v c) :=
  ((((CodesOnly.refl s).setN _).setZ _).setV _).setC _

theorem codesOnly_aluAdd (s : Cpu) (x y : Word) (bytemode : Bool) :
    CodesOnly s (aluAdd s x y bytemode).2 :=
  (((CodesOnly.refl s).setNz _ _).setV _).setC _

theorem codesOnly_aluSub (s : Cpu) (x y : Word) (bytemode : Bool) :
    CodesOnly s (aluSub s x y bytemode).2 :=
  (((CodesOnly.refl s).setNz _ _).setV _).setC _

theorem codesOnly_ite {s : Cpu} {c : Prop} [Decidable c] {x y : Word × Bool × Cpu}
    (hx : CodesOnly s x.2.2) (hy : CodesOnly s y.2.2) : CodesOnly s (if c then x else y).2.2 := by
  split
  · exact hx
  · exact hy

theorem codesOnly_singleOpAlu (s : Cpu) (base : BitVec 9) (d : Word) (bytemode : Bool) :
    CodesOnly s (singleOpAlu s base d bytemode).2.2 := by
  have h := CodesOnly.refl s
  have swab (t : Cpu) (ht : CodesOnly s t) :
      CodesOnly s (if t.cfg.model ≠ .m1120 then setFlag t pswV false else t) := by
    split
    · exact ht.setV _
    · exact ht
  unfold singleOpAlu
  refine codesOnly_ite ((((h.setN _).setZ _).setV _).setC _) ?_ -- CLR
  refine codesOnly_ite (((h.setNz _ _).setV _).setC _) ?_ -- COM
  refine codesOnly_ite ((h.setNz _ _).setV _) ?_ -- INC
  refine codesOnly_ite ((h.setNz _ _).setV _) ?_ -- DEC
  refine codesOnly_ite (((h.setNz _ _).setV _).setC _) ?_ -- NEG
  refine codesOnly_ite (((h.setNz _ _).setV _).setC _) ?_ -- ADC
  refine codesOnly_ite (((h.setNz _ _).setV _).setC _) ?_ -- SBC
  refine codesOnly_ite (((h.setNz _ _).setV _).setC _) ?_ -- TST
  refine codesOnly_ite ((h.setC _).setNz _ _).setVFromNc ?_ -- ROR
  refine codesOnly_ite ((h.setC _).setNz _ _).setVFromNc ?_ -- ROL
  refine codesOnly_ite ((h.setC _).setNz _ _).setVFromNc ?_ -- ASR
  refine codesOnly_ite ((h.setC _).setNz _ _).setVFromNc ?_ -- ASL
  refine codesOnly_ite ((swab _ ((h.setN _).setZ _)).setC _) ?_ -- SWAB
  exact codesOnly_ite ((h.setZ _).setV _) h -- SXT

/-! ## Primitive effects -/

/-- The primitive effects all instructions and dispatches are built from. -/
inductive CoreOp : (α : Type) → M α → Prop
  | get : CoreOp Cpu getCpu
  | fault {α : Type} (vector : Word) : CoreOp α (cpuBusFault vector)
  | capture (idx : BitVec 6) (err : Word) : CoreOp Unit (modifyCpu (captureMmu idx err))
  | mark (idx : BitVec 6) (isWrite : Bool) : CoreOp Unit (modifyCpu (markAccess idx isWrite))
  | ioRead (a : Word) : CoreOp Word (ioRead a)
  | ioWrite (a value : Word) : CoreOp Unit (ioWrite a value)
  | mem (f : Mem → Mem) : CoreOp Unit (modifyCpu fun s => { s with mem := f s.mem })
  | cache (pa : PhysAddr) : CoreOp Unit (modifyCpu (cacheReadCpu pa))
  | regs (f : Cpu → RegFile) : CoreOp Unit (modifyCpu fun s => { s with regs := f s })
  | ctl (f : Cpu → Control) : CoreOp Unit (modifyCpu fun s => { s with ctl := f s })
  | fp (f : FpRegs → FpRegs) : CoreOp Unit (modifyFp f)
  | track (reg : Field3) (delta : Word) : CoreOp Unit (modifyCpu (mmr1Track reg delta))
  | complete : CoreOp Unit (modifyCpu fun s => { s with mmu.mmr0 := s.mmu.mmr0 ||| mmr0Ic })
  | yellow : CoreOp Unit (modifyCpu stackYellow)
  | red : CoreOp Unit (modifyCpu stackRed)
  | extra (ns : BitVec 32) (h : ns ≤ 6150) : CoreOp Unit (setEisExtra ns)
  | init : CoreOp Unit (modifyCpu busInit)
  | dispatch (vector psw pc : Word) : CoreOp Unit (emit (.dispatch vector psw pc))

/-- The effects of a memory reference that reads. -/
inductive ReadOp : (α : Type) → M α → Prop
  | get : ReadOp Cpu getCpu
  | fault {α : Type} (vector : Word) : ReadOp α (cpuBusFault vector)
  | capture (idx : BitVec 6) (err : Word) (h : err &&& ~~~mmr0Freeze = 0) :
      ReadOp Unit (modifyCpu (captureMmu idx err))
  | mark (idx : BitVec 6) (isWrite : Bool) : ReadOp Unit (modifyCpu (markAccess idx isWrite))
  | ioRead (a : Word) : ReadOp Word (ioRead a)
  | cache (pa : PhysAddr) : ReadOp Unit (modifyCpu (cacheReadCpu pa))

/-- The effects of any memory reference. -/
inductive RefOp : (α : Type) → M α → Prop
  | read {α : Type} {x : M α} : ReadOp α x → RefOp α x
  | ioWrite (a value : Word) : RefOp Unit (ioWrite a value)
  | mem (f : Mem → Mem) : RefOp Unit (modifyCpu fun s => { s with mem := f s.mem })

/-- The effects of resolving and reading operands. -/
inductive OperandOp : (α : Type) → M α → Prop
  | get : OperandOp Cpu getCpu
  | regs (f : Cpu → Field3 → Word) : OperandOp Unit (modifyCpu fun s => { s with regs.r := f s })
  | track (reg : Field3) (delta : Word) : OperandOp Unit (modifyCpu (mmr1Track reg delta))
  | stackLimit (sp : Word) : OperandOp Unit (checkStackLimit sp)
  | fetchWord (va : Word) : OperandOp Word (cpuFetchWord va)
  | readWord (va : Word) : OperandOp Word (cpuReadWord va)
  | readByte (va : Word) : OperandOp Byte (cpuReadByte va)

/-- The effects of ordinary instructions; the word references are those of the current mode. -/
inductive BasicOp : (α : Type) → M α → Prop
  | get : BasicOp Cpu getCpu
  | regs (f : Cpu → Field3 → Word) : BasicOp Unit (modifyCpu fun s => { s with regs.r := f s })
  | codes (f : Cpu → Cpu) (h : ∀ s, CodesOnly s (f s)) : BasicOp Unit (modifyCpu f)
  | track (reg : Field3) (delta : Word) : BasicOp Unit (modifyCpu (mmr1Track reg delta))
  | fp (f : FpRegs → FpRegs) : BasicOp Unit (modifyFp f)
  | extra (ns : BitVec 32) (h : ns ≤ 6150) : BasicOp Unit (setEisExtra ns)
  | stackLimit (sp : Word) : BasicOp Unit (checkStackLimit sp)
  | fetchWord (va : Word) : BasicOp Word (cpuFetchWord va)
  | readWord (va : Word) : BasicOp Word (cpuReadWord va)
  | writeWord (va value : Word) : BasicOp Unit (cpuWriteWord va value)
  | readByte (va : Word) : BasicOp Byte (cpuReadByte va)
  | writeByte (va : Word) (value : Byte) : BasicOp Unit (cpuWriteByte va value)

/-- The effects of an instruction that does not wait: ordinary ones, SPL, the previous-mode moves
and traps. -/
inductive ActiveOp : (α : Type) → M α → Prop
  | basic {α : Type} {x : M α} : BasicOp α x → ActiveOp α x
  | spl (word : Word) : ActiveOp Unit (opSpl word)
  | mfp (word : Word) (dspace : Bool) : ActiveOp Unit (opMfp word dspace)
  | mtp (word : Word) (dspace : Bool) : ActiveOp Unit (opMtp word dspace)
  | trap (vector : Word) : ActiveOp Unit (doTrap vector)

/-- The effects a program may have in any mode: ordinary ones, WAIT, SPL, the previous-mode moves
and traps. -/
inductive UserOp : (α : Type) → M α → Prop
  | basic {α : Type} {x : M α} : BasicOp α x → UserOp α x
  | wait : UserOp Unit (modifyCpu fun s => { s with ctl.waiting := true })
  | spl (word : Word) : UserOp Unit (opSpl word)
  | mfp (word : Word) (dspace : Bool) : UserOp Unit (opMfp word dspace)
  | mtp (word : Word) (dspace : Bool) : UserOp Unit (opMtp word dspace)
  | trap (vector : Word) : UserOp Unit (doTrap vector)

end Pdp11
