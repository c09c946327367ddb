import Pdp11.ConditionCodes
import Pdp11.IntegerOrder
import Pdp11.OperandDecoders
import Pdp11.TrapReturn

namespace Pdp11

open FaultState

/-! MARK undoes the stack frame its caller built. -/

/-! ## A stack area in memory, management off -/

/-- A word of the memory that addresses reach with management off. -/
def ramWord (s : Cpu) (va : Word) : Word := memReadWord s.mem (unmappedPhysical va)

/-- The `i`-th word pushed below `top`. -/
def slot (top : Word) (i : ℕ) : Word := top - BitVec.ofNat 16 (2 * i)

/-- An area of `k` words for a stack that starts at `top`, all of them memory. -/
structure StackArea (top : Word) (k : ℕ) (s : Cpu) : Prop where
  off : ¬mmeOn s
  even : top &&& 1 = 0
  room : 2 * k ≤ top.toNat
  below : top.toNat ≤ 0o160000
  installed : top.toNat ≤ s.cfg.memTop.toNat

/-- The stack area holds the same words. -/
def AreaKept (top : Word) (k : ℕ) (s t : Cpu) : Prop :=
  ∀ i, 1 ≤ i → i ≤ k → ramWord t (slot top i) = ramWord s (slot top i)

theorem even_iff (x : Word) : x &&& 1 = 0 ↔ x.toNat % 2 = 0 := by
  rw [← BitVec.toNat_inj, BitVec.toNat_and]
  exact Eq.congr (Nat.and_one_is_mod _) rfl

theorem refPhysical_off {s : Cpu} (h : ¬mmeOn s) (va : Word) (mode : Mode) (dspace : Bool) :
    refPhysical s va mode dspace = unmappedPhysical va := if_neg h

theorem unmapped_toNat (va : Word) (h : va.toNat < 0o160000) :
    (unmappedPhysical va).toNat = va.toNat := by
  have hwidth : (va.setWidth 32 : PhysAddr).toNat = va.toNat := by
    rw [BitVec.toNat_setWidth, Nat.mod_eq_of_lt (by omega)]
  have hlow : ¬(0o160000 : PhysAddr) ≤ va.setWidth 32 := by
    rw [BitVec.le_def, hwidth]
    exact Nat.not_le.2 h
  unfold unmappedPhysical
  dsimp only
  rw [if_neg hlow, hwidth]

namespace StackArea

variable {top : Word} {k i j : ℕ} {s t : Cpu} (h : StackArea top k s)
include h

theorem toNat_slot (hi : i ≤ k) : (slot top i).toNat = top.toNat - 2 * i := by
  have hroom := h.room
  have htop := top.isLt
  have hoff : (BitVec.ofNat 16 (2 * i)).toNat = 2 * i := by
    rw [BitVec.toNat_ofNat, Nat.mod_eq_of_lt (by omega)]
  unfold slot
  rw [BitVec.toNat_sub_of_le, hoff]
  rw [BitVec.le_def, hoff]
  omega

/-- One word up from a slot is the slot before it. -/
theorem slot_add_two (hi : i + 1 ≤ k) : slot top (i + 1) + 2 = slot top i := by
  have hroom := h.room
  have htop := top.isLt
  apply BitVec.eq_of_toNat_eq
  rw [BitVec.toNat_add, h.toNat_slot hi, h.toNat_slot (by omega)]
  show (_ + 2) % 2 ^ 16 = _
  omega

theorem slot_sub_two (hi : i + 1 ≤ k) : slot top i - 2 = slot top (i + 1) := by
  rw [← h.slot_add_two hi, BitVec.add_sub_cancel]

/-- Every word of the area can be read and written. -/
theorem ramRef (hi : 1 ≤ i) (hik : i ≤ k) (isWrite : Bool) (mode : Mode) (dspace : Bool) :
    RamRef s (slot top i) isWrite mode dspace := by
  have hslot := h.toNat_slot hik
  have hroom := h.room
  have hbelow := h.below
  have hinstalled := h.installed
  have hpa := unmapped_toNat (slot top i) (by omega)
  have htop : (iopageTop : PhysAddr).toNat = 0o17760000 := rfl
  refine ⟨?_, if_neg h.off, ?_, ?_⟩
  · have heven := (even_iff top).1 h.even
    rw [even_iff, hslot]
    omega
  · rw [refPhysical_off h.off]
    refine decide_eq_false ?_
    rw [BitVec.le_def, hpa, htop]
    omega
  · rw [refPhysical_off h.off, BitVec.lt_def, hpa]
    omega

/-- Different words of the area are different words of memory. -/
theorem apart (hi : i ≤ k) (hj : j ≤ k) (hi' : 1 ≤ i) (hj' : 1 ≤ j) (hne : i ≠ j) :
    memIndex (unmappedPhysical (slot top i)) ≠ memIndex (unmappedPhysical (slot top j)) := by
  have hslot := h.toNat_slot hi
  have hslot' := h.toNat_slot hj
  have hroom := h.room
  have hbelow := h.below
  have hpa := unmapped_toNat (slot top i) (by omega)
  have hpa' := unmapped_toNat (slot top j) (by omega)
  have heven := (even_iff top).1 h.even
  intro heq
  have hidx := congrArg BitVec.toNat heq
  rw [memIndex_toNat, memIndex_toNat] at hidx
  omega

theorem congr (hoff : ¬mmeOn t) (hcfg : t.cfg = s.cfg) : StackArea top k t :=
  ⟨hoff, h.even, h.room, h.below, by rw [hcfg]; exact h.installed⟩

end StackArea

/-! ## The caller -/

/-- Words pushed one after the other. -/
def pushAll : List Word → M Unit
  | [] => pure ()
  | w :: ws => do
    pushWord w
    pushAll ws

/-- `MARK n`. -/
def markWord (n : ℕ) : Word := 0o006400 + BitVec.ofNat 16 n

/-- The caller's frame: R5, the parameters and a MARK pushed, and R5 left at the MARK. -/
def pushFrame (params : List Word) : M Unit := do
  let r5 ← getReg 5
  pushAll (r5 :: params ++ [markWord params.length])
  let sp ← getReg regSp
  setReg 5 sp

theorem StackStep.trans {s t u : Cpu} {v w : Word} (h : StackStep s t v) (h' : StackStep t u w) :
    StackStep s u w where
  rest := by
    have hr : Function.update t.regs.r regSp w = Function.update s.regs.r regSp w := by
      rw [h.rest]
      exact Function.update_idem (β := fun _ => Word) v w s.regs.r
    rw [h'.rest, hr]
    conv_lhs => rw [h.rest]
  map := h.map.trans h'.map

theorem StackStep.stackZone {s t : Cpu} {v : Word} (h : StackStep s t v) (sp : Word) :
    stackZone t sp = stackZone s sp := by
  have hexempt : stackExempt t = stackExempt s := by
    unfold stackExempt
    rw [h.mode, h.ctl]
  have hsys : t.sys = s.sys := by rw [h.rest]
  unfold Pdp11.stackZone
  rw [hexempt, hsys, h.cfg]

theorem StackStep.area {top : Word} {k : ℕ} {s t : Cpu} {v : Word} (h : StackStep s t v)
    (harea : StackArea top k s) : StackArea top k t :=
  harea.congr (fun ht => harea.off (h.map.mmeOn_iff.1 ht)) h.cfg

section
variable {top : Word} {k i : ℕ} {m : Machine}

/-- A push into the area, clear of the stack limit. -/
theorem pushWord_slot (value : Word) (h : StackArea top k m.cpu) (hi : i + 1 ≤ k)
    (hsp : m.cpu.regs.r regSp = slot top i) (hclear : stackZone m.cpu (slot top (i + 1)) = .fine) :
    ∃ m', pushWord value m = .ok () m' ∧ StackStep m.cpu m'.cpu (slot top (i + 1)) ∧
      ramWord m'.cpu (slot top (i + 1)) = value ∧ AreaKept top i m.cpu m'.cpu := by
  have haddr : pushAddr m.cpu = slot top (i + 1) := by rw [pushAddr, hsp, h.slot_sub_two hi]
  let m₁ := withReg regSp (slot top (i + 1)) m
  have harea : StackArea top k m₁.cpu := h.congr h.off rfl
  have href := harea.ramRef (Nat.le_add_left 1 i) hi true m₁.cpu.mode true
  have hpush := pushWord_apply value m
  dsimp only at hpush
  rw [haddr, show stackZone (withReg regSp (slot top (i + 1)) m).cpu (slot top (i + 1)) = .fine
    from hclear] at hpush
  have hrefused : ¬refused (slot top (i + 1)) true m₁.cpu.mode true m₁.cpu := by
    rintro (ho | he)
    · exact ho href.even
    · exact he href.page
  have hmark : markRef (slot top (i + 1)) true m₁.cpu.mode true m₁.cpu = m₁.cpu :=
    if_neg harea.off
  have hstore : cpuWriteWordMode (slot top (i + 1)) m₁.cpu.mode true value m₁ =
      .ok () { m₁ with cpu := { m₁.cpu with
        mem := memWriteWord m₁.cpu.mem (unmappedPhysical (slot top (i + 1))) value } } := by
    have hinstalled := href.installed
    have hram := href.ram
    rw [refPhysical_off harea.off] at hinstalled hram
    rw [cpuWriteWordMode_apply, if_neg hrefused, hmark, refPhysical_off harea.off, writePhysical,
      if_neg (by simp [hram]), if_neg (BitVec.not_le.2 hinstalled)]
  refine ⟨_, hpush.trans hstore, ⟨rfl, .of_mmu rfl⟩, ?_, ?_⟩
  · unfold ramWord memReadWord memWriteWord
    exact Function.update_self _ _ _
  · intro j hj hji
    unfold ramWord memReadWord memWriteWord
    exact Function.update_of_ne (h.apart (by omega) hi hj (by omega) (by omega)) _ _

/-- The words pushed lie in the area in turn, under what was there. -/
theorem pushAll_slots (ws : List Word) : ∀ {i : ℕ} {m : Machine}, StackArea top k m.cpu →
    i + ws.length ≤ k → m.cpu.regs.r regSp = slot top i →
    (∀ j, j ≤ k → stackZone m.cpu (slot top j) = .fine) →
    ∃ m', pushAll ws m = .ok () m' ∧ StackStep m.cpu m'.cpu (slot top (i + ws.length)) ∧
      (∀ j (hj : j < ws.length), ramWord m'.cpu (slot top (i + 1 + j)) = ws[j]) ∧
      AreaKept top i m.cpu m'.cpu := by
  induction ws with
  | nil =>
    intro i m harea hlen hsp hclear
    refine ⟨m, rfl, ⟨?_, .of_mmu rfl⟩, fun j hj => absurd hj (Nat.not_lt_zero j), fun j _ _ => rfl⟩
    rw [List.length_nil, Nat.add_zero, ← hsp, Function.update_eq_self]
  | cons w ws ih =>
    intro i m harea hlen hsp hclear
    rw [List.length_cons] at hlen
    obtain ⟨m₁, hpush, hstep, hword, hkept⟩ :=
      pushWord_slot w harea (by omega) hsp (hclear (i + 1) (by omega))
    obtain ⟨m₂, hrest, hstep', hwords, hkept'⟩ := ih (hstep.area harea) (by omega) hstep.r_sp
      fun j hj => (hstep.stackZone _).trans (hclear j hj)
    have hlength : i + (w :: ws).length = i + 1 + ws.length := by
      rw [List.length_cons]
      omega
    refine ⟨m₂, (bind_ok hpush).trans hrest, ?_, ?_, ?_⟩
    · rw [hlength]
      exact hstep.trans hstep'
    · intro j hj
      cases j with
      | zero => exact (hkept' (i + 1) (by omega) (by omega)).trans hword
      | succ j =>
        rw [List.length_cons] at hj
        rw [show i + 1 + (j + 1) = i + 1 + 1 + j by omega, hwords j (by omega)]
        rfl
    · intro j hj hji
      exact (hkept' j hj (by omega)).trans (hkept j hj hji)

end

/-- The frame is in place: the old R5 on top, `MARK n` at the bottom, R5 and R6 at the MARK. -/
structure Framed (top : Word) (n : ℕ) (old : Word) (s : Cpu) : Prop where
  area : StackArea top (n + 3) s
  kept : ramWord s (slot top 1) = old
  mark : ramWord s (slot top (n + 2)) = markWord n
  r5 : s.regs.r 5 = slot top (n + 2)
  sp : s.regs.r regSp = slot top (n + 2)

theorem pushFrame_framed {params : List Word} {top : Word} {m : Machine}
    (harea : StackArea top (params.length + 3) m.cpu) (hsp : m.cpu.regs.r regSp = top)
    (hclear : ∀ j, j ≤ params.length + 3 → stackZone m.cpu (slot top j) = .fine) :
    ∃ m', pushFrame params m = .ok () m' ∧ m'.cpu.cfg = m.cpu.cfg ∧
      Framed top params.length (m.cpu.regs.r 5) m'.cpu := by
  let words := m.cpu.regs.r 5 :: params ++ [markWord params.length]
  have hlength : words.length = params.length + 2 := by simp [words]
  have htop : m.cpu.regs.r regSp = slot top 0 := by rw [hsp, slot, BitVec.sub_zero]
  obtain ⟨m₁, hpush, hstep, hwords, -⟩ := pushAll_slots words harea (by omega) htop hclear
  have hne : (5 : Field3) ≠ regSp := by decide
  have hsp₁ : m₁.cpu.regs.r regSp = slot top (params.length + 2) := by
    rw [hstep.r_sp, Nat.zero_add, hlength]
  let m' := withReg 5 (slot top (params.length + 2)) m₁
  have hrun : pushFrame params m = .ok () m' := by
    have hframe : pushFrame params m = (pushAll words >>= fun _ => do
        let sp ← getReg regSp
        setReg 5 sp : M Unit) m := rfl
    rw [hframe, bind_ok hpush]
    show EStateM.Result.ok () (withReg 5 (m₁.cpu.regs.r regSp) m₁) = _
    rw [hsp₁]
  refine ⟨m', hrun, hstep.cfg, ?_⟩
  constructor
  case area => exact (hstep.area harea).congr (hstep.area harea).off rfl
  case kept =>
    have hold := hwords 0 (by omega)
    rw [Nat.zero_add] at hold
    exact hold
  case mark =>
    have hlast := hwords (params.length + 1) (by omega)
    rw [show 0 + 1 + (params.length + 1) = params.length + 2 by omega] at hlast
    exact hlast.trans (by simp [words])
  case r5 => exact Function.update_self 5 _ m₁.cpu.regs.r
  case sp =>
    show Function.update m₁.cpu.regs.r 5 (slot top (params.length + 2)) regSp = _
    rw [Function.update_of_ne hne.symm, hsp₁]

/-! ## The call -/

/-- Memory, its mapping, what the stack check looks at and that the machine runs stay as they
were. -/
structure ContextKept (s t : Cpu) : Prop where
  cfg : t.cfg = s.cfg
  mem : t.mem = s.mem
  limit : t.sys.stklim = s.sys.stklim
  psw : t.regs.psw = s.regs.psw
  push : t.ctl.inTrapPush = s.ctl.inTrapPush
  halted : t.ctl.halted = s.ctl.halted
  waiting : t.ctl.waiting = s.ctl.waiting
  map : SameMap s t

namespace ContextKept

variable {s t u : Cpu}

theorem refl (s : Cpu) : ContextKept s s := ⟨rfl, rfl, rfl, rfl, rfl, rfl, rfl, .of_mmu rfl⟩

theorem trans (h : ContextKept s t) (h' : ContextKept t u) : ContextKept s u :=
  ⟨h'.cfg.trans h.cfg, h'.mem.trans h.mem, h'.limit.trans h.limit, h'.psw.trans h.psw,
    h'.push.trans h.push, h'.halted.trans h.halted, h'.waiting.trans h.waiting, h.map.trans h'.map⟩

theorem of_read (h : ReadKept s t) : ContextKept s t := by
  refine ⟨h.cfg, h.mem, ?_, ?_, ?_, ?_, ?_, h.map⟩ <;> rw [h.rest]

theorem stackZone (h : ContextKept s t) (sp : Word) : stackZone t sp = stackZone s sp := by
  have hexempt : stackExempt t = stackExempt s := by
    unfold stackExempt Cpu.mode
    rw [h.push, h.psw]
  unfold Pdp11.stackZone
  rw [hexempt, h.limit, h.cfg]

end ContextKept

theorem context_stackLimit (sp : Word) :
    Respects (fun m m' => ContextKept m.cpu m'.cpu) (checkStackLimit sp) := by
  intro m
  rw [checkStackLimit_apply]
  cases hzone : stackZone m.cpu sp with
  | fine => exact .refl m.cpu
  | yellow => exact ⟨rfl, rfl, rfl, rfl, rfl, rfl, rfl, .of_mmu rfl⟩
  | red =>
    -- a red zone is found outside a trap only
    have hpush : m.cpu.ctl.inTrapPush = false := by
      by_contra hx
      have he : stackExempt m.cpu = true := decide_eq_true (.inl (Bool.not_eq_false _ ▸ hx))
      rw [stackZone, if_pos he] at hzone
      cases hzone
    exact ⟨rfl, rfl, rfl, rfl, hpush.symm, rfl, rfl, .of_mmu rfl⟩

theorem context_operand {α : Type} {x : M α} (h : OperandBuilt x) :
    Respects (fun m m' => ContextKept m.cpu m'.cpu) x := by
  refine h.respects (fun m => .refl m.cpu) (fun _ _ _ h h' => h.trans h') ?_
  intro α x hx m
  cases hx with
  | get => exact .refl m.cpu
  | regs f => exact ⟨rfl, rfl, rfl, rfl, rfl, rfl, rfl, .of_mmu rfl⟩
  | track reg delta =>
    show ContextKept m.cpu (mmr1Track reg delta m.cpu)
    unfold mmr1Track
    split
    · exact .refl m.cpu
    · exact ⟨rfl, rfl, rfl, rfl, rfl, rfl, rfl, rfl, rfl, rfl, fun _ => rfl⟩
  | stackLimit sp => exact context_stackLimit sp m
  | fetchWord va => exact .of_read (read_kept (read_cpuReadWordGen va m.cpu.mode false) m)
  | readWord va => exact .of_read (read_kept (read_cpuReadWord va) m)
  | readByte va => exact .of_read (read_kept (read_cpuReadByte va) m)

/-- One register moves, by `d`. -/
def RegMoved (reg : Field3) (d : Word) (s t : Cpu) : Prop :=
  t.regs.r = Function.update s.regs.r reg (s.regs.r reg + d)

theorem fetch_moves {word : Word} {m m' : Machine} (h : fetch m = .ok word m') :
    RegMoved regPc 2 m.cpu m'.cpu := by
  have hfetch : fetch m = (cpuReadWordGen (m.cpu.regs.r regPc) m.cpu.mode false >>= fun word => do
      addReg regPc 2
      pure word : M Word) m := rfl
  rw [hfetch] at h
  obtain ⟨v, m1, hread, h⟩ := bind_eq_ok.1 h
  have hregs := ((read_kept (read_cpuReadWordGen _ _ _)).of_ok hread).regs
  cases h
  show Function.update m1.cpu.regs.r regPc (m1.cpu.regs.r regPc + 2) = _
  rw [hregs]

theorem read_moves {va v : Word} {m m' : Machine} (h : cpuReadWord va m = .ok v m') :
    m'.cpu.regs.r = m.cpu.regs.r :=
  congrArg RegFile.r ((read_kept (read_cpuReadWord va)).of_ok h).regs

theorem mmr1Track_r (reg : Field3) (delta : Word) (s : Cpu) :
    (mmr1Track reg delta s).regs.r = s.regs.r := by
  rw [mmr1Track_rest]

/-- A destination that leaves R5, R6 and, past the words of the instruction, PC. -/
def PlainTarget (spec : BitVec 6) : Prop :=
  let mode : Field3 := spec.extractLsb' 3 3
  let reg : Field3 := spec.extractLsb' 0 3
  mode ≠ 0 ∧ (mode = 2 ∨ mode = 3 → reg ≠ 5 ∧ reg ≠ regSp) ∧
    (mode = 4 ∨ mode = 5 → reg ≠ 5 ∧ reg ≠ regSp ∧ reg ≠ regPc)

instance (spec : BitVec 6) : Decidable (PlainTarget spec) := by
  unfold PlainTarget
  infer_instance

/-- The bytes that follow the instruction word for a destination. -/
def targetBytes (spec : BitVec 6) : Word :=
  let mode : Field3 := spec.extractLsb' 3 3
  let reg : Field3 := spec.extractLsb' 0 3
  if mode = 6 ∨ mode = 7 ∨ (mode = 2 ∨ mode = 3) ∧ reg = regPc then 2 else 0

theorem mode_cases (mode : Field3) : mode = 0 ∨ mode = 1 ∨ mode = 2 ∨ mode = 3 ∨ mode = 4 ∨
    mode = 5 ∨ mode = 6 ∨ mode = 7 := by
  revert mode
  decide

/-- A plain destination is not a register, and moves at most one register. -/
theorem decode_plain {spec : BitVec 6} {dst : Operand} {m m' : Machine} (h : PlainTarget spec)
    (hx : decodeOperand spec false m = .ok dst m') :
    (∀ r, dst ≠ .reg r) ∧ ∃ reg d, RegMoved reg d m.cpu m'.cpu ∧ reg ≠ 5 ∧ reg ≠ regSp ∧
      (if reg = regPc then d else 0) = targetBytes spec := by
  obtain ⟨hmode, hincr, hdecr⟩ := h
  unfold targetBytes
  unfold decodeOperand at hx
  dsimp only at hx hincr hdecr ⊢
  generalize spec.extractLsb' 0 3 = reg at hx hincr hdecr ⊢
  obtain h | h | h | h | h | h | h | h := mode_cases (spec.extractLsb' 3 3)
  all_goals rw [h] at hx hmode hincr hdecr ⊢
  · -- a register destination is not plain
    exact absurd rfl hmode
  · cases hx
    -- deferred: nothing moves, said as PC by 0
    refine ⟨fun r => Operand.noConfusion, regPc, 0, ?_, by decide, by decide, rfl⟩
    unfold RegMoved
    have hzero : m.cpu.regs.r regPc + 0 = m.cpu.regs.r regPc := BitVec.add_zero _
    rw [hzero, Function.update_eq_self]
  · by_cases hpc : reg = regPc
    · rw [if_neg (by decide), if_neg (by decide), if_pos rfl, if_pos hpc] at hx
      obtain ⟨addr, m1, hget, hx⟩ := bind_eq_ok.1 hx
      cases hget
      obtain ⟨value, m1, hfetch, hx⟩ := bind_eq_ok.1 hx
      cases hx
      refine ⟨fun r => Operand.noConfusion, regPc, 2, fetch_moves hfetch, by decide, by decide, ?_⟩
      rw [hpc]
      rfl
    · -- the register steps, and no word follows the instruction
      obtain ⟨h5, hsp⟩ := hincr (.inl rfl)
      rw [if_neg (by decide), if_neg (by decide), if_pos rfl, if_neg hpc] at hx
      cases hx
      refine ⟨fun r => Operand.noConfusion, reg, _, mmr1Track_r _ _ _, h5, hsp, ?_⟩
      rw [if_neg hpc, if_neg]
      rintro (h | h | ⟨-, h⟩)
      · exact absurd h (by decide)
      · exact absurd h (by decide)
      · exact hpc h
  · by_cases hpc : reg = regPc
    · rw [if_neg (by decide), if_neg (by decide), if_neg (by decide), if_pos rfl, if_pos hpc] at hx
      obtain ⟨addr, m1, hfetch, hx⟩ := bind_eq_ok.1 hx
      cases hx
      refine ⟨fun r => Operand.noConfusion, regPc, 2, fetch_moves hfetch, by decide, by decide, ?_⟩
      rw [hpc]
      rfl
    · obtain ⟨h5, hsp⟩ := hincr (.inr rfl)
      rw [if_neg (by decide), if_neg (by decide), if_neg (by decide), if_pos rfl, if_neg hpc] at hx
      -- the pointer is read before its register steps
      obtain ⟨ptr, m1, hget, hx⟩ := bind_eq_ok.1 hx
      cases hget
      obtain ⟨addr, m1, hread, hx⟩ := bind_eq_ok.1 hx
      cases hx
      refine ⟨fun r => Operand.noConfusion, reg, 2, ?_, h5, hsp, ?_⟩
      · unfold RegMoved
        rw [← read_moves hread]
        exact mmr1Track_r _ _ _
      · rw [if_neg hpc, if_neg]
        rintro (h | h | ⟨-, h⟩)
        · exact absurd h (by decide)
        · exact absurd h (by decide)
        · exact hpc h
  · -- no limit check, since the register is not SP
    obtain ⟨h5, hsp, hpc⟩ := hdecr (.inl rfl)
    rw [if_neg (by decide), if_neg (by decide), if_neg (by decide), if_neg (by decide),
      if_pos rfl] at hx
    obtain ⟨⟨⟩, m1, hadd, hx⟩ := bind_eq_ok.1 hx
    obtain ⟨addr, m2, hget, hx⟩ := bind_eq_ok.1 hx
    cases hget
    obtain ⟨⟨⟩, m2, htrack, hx⟩ := bind_eq_ok.1 hx
    rw [bind_ok (checkDecrement_ne hsp m2)] at hx
    cases hx
    refine ⟨fun r => Operand.noConfusion, reg, -operandStep reg false, ?_, h5, hsp, ?_⟩
    · cases htrack
      cases hadd
      exact mmr1Track_r _ _ _
    · rw [if_neg hpc]
      rfl
  · obtain ⟨h5, hsp, hpc⟩ := hdecr (.inr rfl)
    rw [if_neg (by decide), if_neg (by decide), if_neg (by decide), if_neg (by decide),
      if_neg (by decide), if_pos rfl] at hx
    obtain ⟨⟨⟩, m1, hadd, hx⟩ := bind_eq_ok.1 hx
    rw [bind_ok (checkDecrement_ne hsp m1)] at hx
    obtain ⟨ptr, m2, hget, hx⟩ := bind_eq_ok.1 hx
    cases hget
    obtain ⟨addr, m2, hread, hx⟩ := bind_eq_ok.1 hx
    cases hx
    refine ⟨fun r => Operand.noConfusion, reg, -2, ?_, h5, hsp, ?_⟩
    · cases hadd
      exact (mmr1Track_r _ _ _).trans (read_moves hread)
    · rw [if_neg hpc]
      rfl
  · obtain ⟨base, m1, hfetch, hx⟩ := bind_eq_ok.1 hx
    cases hx
    exact ⟨fun r => Operand.noConfusion, regPc, 2, fetch_moves hfetch, by decide, by decide, rfl⟩
  · obtain ⟨base, m1, hfetch, hx⟩ := bind_eq_ok.1 hx
    obtain ⟨x, m2, hget, hx⟩ := bind_eq_ok.1 hx
    cases hget
    obtain ⟨addr, m2, hread, hx⟩ := bind_eq_ok.1 hx
    cases hx
    refine ⟨fun r => Operand.noConfusion, regPc, 2, ?_, by decide, by decide, rfl⟩
    exact (read_moves hread).trans (fetch_moves hfetch)

/-- `JSR PC,sub`. -/
def jsrWord (sub : BitVec 6) : Word := 0o004700 + sub.setWidth 16

theorem dstSpec_jsrWord (sub : BitVec 6) : dstSpec (jsrWord sub) = sub := by
  revert sub
  decide

theorem regField_jsrWord (sub : BitVec 6) : regField (jsrWord sub) = regPc := by
  revert sub
  decide

theorem jsrWord_base (sub : BitVec 6) : (jsrWord sub).extractLsb' 6 9 = 0o047#9 := by
  revert sub
  decide +kernel

theorem execute_jsr (sub : BitVec 6) : execute (jsrWord sub) = opJsr (jsrWord sub) := by
  have hbyte : highByte (jsrWord sub) = 9 := by
    revert sub
    decide +kernel
  have hbranch : isBranch 9 = false := by decide
  have hmask : jsrWord sub &&& 0o177000 = 0o004000 := by
    revert sub
    decide +kernel
  have hle : ¬jsrWord sub ≤ 0o000277 := by
    revert sub
    decide +kernel
  have hlow {k : Word} (hk : k ≤ 0o000277) : ¬jsrWord sub ≤ k :=
    fun hw => hle (BitVec.le_trans hw hk)
  have htry : trySingleOp (jsrWord sub) = none := by
    have hne (k : BitVec 9) (hk : 0o047 < k ∨ k < 0o047) : 0o047#9 ≠ k := by
      rintro rfl
      exact absurd hk (by decide)
    unfold trySingleOp
    rw [jsrWord_base]
    dsimp only
    rw [if_neg fun h => hne _ (by decide) h.1, if_neg fun h => hne _ (by decide) h.1,
      if_neg (hne _ (by decide)), if_neg (hne _ (by decide)), if_neg (by decide),
      if_neg fun h => hne _ (by decide) h.2]
  rw [execute_misc (jsrWord_base sub) (by decide), decodeMisc, htry]
  dsimp only
  rw [hbyte, hbranch, if_neg Bool.false_ne_true, if_neg fun hw => hlow (by decide) hw.2,
    if_neg fun hw => hlow (by decide) hw.2, if_neg fun hw => hlow (by decide) hw.2,
    if_neg fun hw => hlow (by decide) hw.2, if_pos hmask]

theorem execute_mark {n : ℕ} (h : n ≤ 63) :
    execute (markWord n) = orReserved (·.hasMark) (opMark (markWord n)) := by
  have hbase : (markWord n).extractLsb' 6 9 = 0o064#9 := by
    revert n
    decide +kernel
  have hword : (markWord n).getLsbD 15 = false := by
    revert n
    decide +kernel
  have htry : trySingleOp (markWord n) = some (orReserved (·.hasMark) (opMark (markWord n))) := by
    unfold trySingleOp
    rw [hbase, hword]
    dsimp only
    rw [if_neg (by decide), if_pos (by decide)]
  rw [execute_misc hbase (by decide), decodeMisc, htry]

/-- `RTS R5`. -/
abbrev rtsR5 : Word := 0o000205

theorem execute_rtsR5 : execute rtsR5 = opRts rtsR5 := by
  have htop : (rtsR5).extractLsb' 12 4 = 0#4 := rfl
  have hbase : (rtsR5).extractLsb' 6 9 = 2#9 := rfl
  have hbranch : isBranch (highByte rtsR5) = false := by decide
  have htry : trySingleOp rtsR5 = none := by
    unfold trySingleOp
    rw [hbase]
    decide
  rw [execute_misc hbase (by decide), decodeMisc, htry]
  dsimp only
  rw [hbranch, if_neg Bool.false_ne_true, if_neg (by decide), if_pos (by decide)]

/-! ## One instruction at a time -/

section
variable {top : Word} {k i : ℕ} {m m' : Machine}

/-- A state an instruction of the sequence leaves: the area's words below `i` are as they were. -/
structure AreaStep (top : Word) (i : ℕ) (s t : Cpu) : Prop where
  cfg : t.cfg = s.cfg
  off : ¬mmeOn t
  kept : AreaKept top i s t

/-- The link is pushed under what the stack holds. -/
theorem opJsr_links {sub : BitVec 6} (hsub : PlainTarget sub) (harea : StackArea top k m.cpu)
    (hi : i + 1 ≤ k) (hsp : m.cpu.regs.r regSp = slot top i)
    (hclear : stackZone m.cpu (slot top (i + 1)) = .fine) (h : opJsr (jsrWord sub) m = .ok () m') :
    AreaStep top i m.cpu m'.cpu ∧ m'.cpu.regs.r 5 = m.cpu.regs.r 5 ∧
      m'.cpu.regs.r regSp = slot top (i + 1) ∧
      ramWord m'.cpu (slot top (i + 1)) = m.cpu.regs.r regPc + targetBytes sub := by
  obtain ⟨dst, m₁, hdst, h⟩ := bind_eq_ok.1 h
  rw [dstSpec_jsrWord] at hdst
  obtain ⟨hmem, reg, d, hmoves, h5, h6, hd⟩ := decode_plain hsub hdst
  have hctx := (context_operand (operand_decodeOperand sub false)).of_ok hdst
  have hlink : m₁.cpu.regs.r regPc = m.cpu.regs.r regPc + targetBytes sub := by
    rw [hmoves, ← hd]
    by_cases hpc : reg = regPc
    · rw [if_pos hpc, hpc, Function.update_self]
    · rw [if_neg hpc, Function.update_of_ne (Ne.symm hpc)]
      exact (BitVec.add_zero _).symm
  have hr₁ {j : Field3} (hj : j ≠ regPc) (hjr : reg ≠ j) : m₁.cpu.regs.r j = m.cpu.regs.r j := by
    rw [hmoves, Function.update_of_ne (Ne.symm hjr)]
  have harea₁ : StackArea top k m₁.cpu :=
    harea.congr (fun ht => harea.off (hctx.map.mmeOn_iff.1 ht)) hctx.cfg
  have hsp₁ : m₁.cpu.regs.r regSp = slot top i := (hr₁ (by decide) h6).trans hsp
  obtain ⟨m₂, hpush, hstep, hword, hkept⟩ := pushWord_slot (m₁.cpu.regs.r regPc) harea₁ hi hsp₁
    ((hctx.stackZone _).trans hclear)
  -- what follows the push only moves PC
  have hend : ∃ target, m'.cpu = { m₂.cpu with
      regs.r := Function.update m₂.cpu.regs.r regPc target } := by
    have htail (target : Word) (hrun : (do
        let link ← getReg (regField (jsrWord sub))
        pushWord link
        let pc ← getReg regPc
        setReg (regField (jsrWord sub)) pc
        setReg regPc target : M Unit) m₁ = .ok () m') : ∃ target, m'.cpu = { m₂.cpu with
          regs.r := Function.update m₂.cpu.regs.r regPc target } := by
      rw [regField_jsrWord] at hrun
      have hget : getReg regPc m₁ = .ok (m₁.cpu.regs.r regPc) m₁ := rfl
      rw [bind_ok hget, bind_ok hpush] at hrun
      cases hrun
      refine ⟨target, ?_⟩
      show { m₂.cpu with regs.r := Function.update (Function.update m₂.cpu.regs.r regPc
        (m₂.cpu.regs.r regPc)) regPc target } = _
      rw [Function.update_idem (β := fun _ => Word)]
    cases dst with
    | reg r => exact absurd rfl (hmem r)
    | imm value addr => exact htail _ h
    | mem addr => exact htail _ h
  obtain ⟨target, hm'⟩ := hend
  have hother {j : Field3} (hj : j ≠ regPc) : m'.cpu.regs.r j = m₂.cpu.regs.r j := by
    rw [hm']
    exact Function.update_of_ne hj target m₂.cpu.regs.r
  have hmem' : m'.cpu.mem = m₂.cpu.mem := by rw [hm']
  refine ⟨⟨?_, ?_, ?_⟩, ?_, ?_, ?_⟩
  · rw [hm']
    exact hstep.cfg.trans hctx.cfg
  · rw [hm']
    exact (hstep.area harea₁).off
  · intro j hj hji
    unfold ramWord
    rw [hmem']
    exact (hkept j hj hji).trans (by unfold ramWord; rw [hctx.mem])
  · rw [hother (by decide), hstep.r_of_ne (by decide), hr₁ (by decide) h5]
  · rw [hother (by decide), hstep.r_sp]
  · unfold ramWord at hword ⊢
    rw [hmem', hword, hlink]

/-- The return pops the link into R5, and goes to what R5 points at. -/
theorem opRts_returns (harea : StackArea top k m.cpu) (hi : i + 1 ≤ k)
    (hsp : m.cpu.regs.r regSp = slot top (i + 1)) :
    ∃ m', opRts rtsR5 m = .ok () m' ∧ AreaStep top k m.cpu m'.cpu ∧ m'.cpu.ctl = m.cpu.ctl ∧
      m'.cpu.regs.r regPc = m.cpu.regs.r 5 ∧
      m'.cpu.regs.r 5 = ramWord m.cpu (slot top (i + 1)) ∧ m'.cpu.regs.r regSp = slot top i := by
  let m₁ := withReg regPc (m.cpu.regs.r 5) m
  have hsp₁ : m₁.cpu.regs.r regSp = slot top (i + 1) := by
    have hne : regSp ≠ regPc := by decide
    show Function.update m.cpu.regs.r regPc (m.cpu.regs.r 5) regSp = _
    rw [Function.update_of_ne hne, hsp]
  have harea₁ : StackArea top k m₁.cpu := harea.congr harea.off rfl
  have href := harea₁.ramRef (Nat.le_add_left 1 i) hi false m₁.cpu.mode true
  rw [← hsp₁] at href
  obtain ⟨m₂, hpop, hstep, hmem⟩ := popWord_ram href
  rw [hsp₁, refPhysical_off harea₁.off] at hpop
  let value := ramWord m.cpu (slot top (i + 1))
  refine ⟨withReg 5 value m₂, ?_, ⟨hstep.cfg, (hstep.area harea₁).off, ?_⟩, hstep.ctl, ?_, ?_, ?_⟩
  · have hrun : opRts rtsR5 m = (popWord >>= setReg 5 : M Unit) m₁ := rfl
    rw [hrun, bind_ok hpop]
    rfl
  · intro j _ _
    exact congrArg (memReadWord · (unmappedPhysical (slot top j))) hmem
  · have hne : regPc ≠ 5 := by decide
    show Function.update m₂.cpu.regs.r 5 value regPc = _
    rw [Function.update_of_ne hne, hstep.r_of_ne (by decide)]
    exact Function.update_self regPc _ m.cpu.regs.r
  · exact Function.update_self 5 value m₂.cpu.regs.r
  · have hne : regSp ≠ 5 := by decide
    show Function.update m₂.cpu.regs.r 5 value regSp = _
    rw [Function.update_of_ne hne, hstep.r_sp, hsp₁, harea.slot_add_two hi]

theorem dstSpec_markWord {n : ℕ} (h : n ≤ 63) :
    2 * (dstSpec (markWord n)).setWidth 16 = BitVec.ofNat 16 (2 * n) := by
  revert n
  decide +kernel

/-- MARK steps over the parameters to the R5 that was pushed first. -/
theorem opMark_unwinds {n : ℕ} (hn : n ≤ 63) (hk : n + 1 ≤ k) (harea : StackArea top k m.cpu)
    (hpc : m.cpu.regs.r regPc = slot top (n + 1)) :
    ∃ m', opMark (markWord n) m = .ok () m' ∧ m'.cpu.regs.r regPc = m.cpu.regs.r 5 ∧
      m'.cpu.regs.r 5 = ramWord m.cpu (slot top 1) ∧ m'.cpu.regs.r regSp = top := by
  have hfirst : slot top (n + 1) + BitVec.ofNat 16 (2 * n) = slot top 1 := by
    have hroom := harea.room
    have htop := top.isLt
    apply BitVec.eq_of_toNat_eq
    rw [BitVec.toNat_add, harea.toNat_slot hk, harea.toNat_slot (by omega), BitVec.toNat_ofNat]
    omega
  let m₁ := withReg regPc (m.cpu.regs.r 5) m
  have harea₁ : StackArea top k m₁.cpu := harea.congr harea.off rfl
  have href := harea₁.ramRef (Nat.le_refl 1) (by omega) false m₁.cpu.mode true
  obtain ⟨m₂, hread, hstep, -, -⟩ := cpuReadWordGen_ram href
  rw [refPhysical_off harea₁.off] at hread
  let value := ramWord m.cpu (slot top 1)
  have hrun : opMark (markWord n) m = (do
      let v ← cpuReadWord (m.cpu.regs.r regPc + 2 * (dstSpec (markWord n)).setWidth 16)
      setReg 5 v
      setReg regSp (m.cpu.regs.r regPc + 2 * (dstSpec (markWord n)).setWidth 16 + 2) : M Unit) m₁ :=
    rfl
  have hregs : m₂.cpu.regs = m₁.cpu.regs := by rw [hstep.rest]
  have hlast : slot top 1 + 2 = top := by
    have hzero := harea.slot_add_two (i := 0) (by omega)
    rw [hzero, slot, BitVec.sub_zero]
  refine ⟨withReg regSp top (withReg 5 value m₂), ?_, ?_, ?_, ?_⟩
  · rw [hrun, dstSpec_markWord hn, hpc, hfirst, hlast]
    exact bind_ok hread
  · have hne : regPc ≠ regSp := by decide
    have hne' : regPc ≠ 5 := by decide
    show Function.update (Function.update m₂.cpu.regs.r 5 value) regSp top regPc = _
    rw [Function.update_of_ne hne, Function.update_of_ne hne', hregs]
    exact Function.update_self regPc _ m.cpu.regs.r
  · have hne : (5 : Field3) ≠ regSp := by decide
    show Function.update (Function.update m₂.cpu.regs.r 5 value) regSp top 5 = _
    rw [Function.update_of_ne hne, Function.update_self]
  · show Function.update (Function.update m₂.cpu.regs.r 5 value) regSp top regSp = top
    rw [Function.update_self]

end

/-! ## The sequence -/

theorem context_begin (s : Cpu) : ContextKept s (beginInstr (armTrace s)) := by
  unfold beginInstr armTrace
  dsimp only
  split_ifs <;> exact ⟨rfl, rfl, rfl, rfl, rfl, rfl, rfl, rfl, rfl, rfl, fun _ => rfl⟩

theorem finishInstr_cfg (word : Word) (s : Cpu) :
    (finishInstr word s).cfg = s.cfg ∧ (finishInstr word s).mmu = s.mmu := by
  unfold finishInstr
  rw [serviceDueEvents_rest]
  exact ⟨rfl, rfl⟩

namespace Fetches

variable {s : Cpu} {word : Word} {m m' : Machine}

theorem executed (h : Fetches s word m) (hrun : execute word m = .ok () m') :
    Executed s word m m' := ⟨h.running, h.due, h.active, h.fetched, hrun⟩

theorem moves (h : Fetches s word m) : RegMoved regPc 2 s m.cpu := by
  have hm := fetch_moves h.fetched
  unfold RegMoved at hm ⊢
  rw [hm, (begin_kept s).2.1]

theorem context (h : Fetches s word m) : ContextKept s m.cpu :=
  (context_begin s).trans ((context_operand operand_fetch).of_ok h.fetched)

end Fetches

namespace Executed

variable {s : Cpu} {word : Word} {m m' : Machine} {top : Word} {k i : ℕ}

theorem fetches (h : Executed s word m m') : Fetches s word m :=
  ⟨h.running, h.due, h.active, h.fetched⟩

/-- The end of a step keeps registers, configuration, mapping and control flags. -/
theorem kept (h : Executed s word m m') :
    (Pdp11.cpuStep s).cpu.cfg = m'.cpu.cfg ∧ (Pdp11.cpuStep s).cpu.mmu = m'.cpu.mmu ∧
      (Pdp11.cpuStep s).cpu.ctl = m'.cpu.ctl := by
  rw [h.cpuStep]
  exact ⟨(finishInstr_cfg word m'.cpu).1, (finishInstr_cfg word m'.cpu).2,
    (finishInstr_kept word m'.cpu).2⟩

end Executed

section
variable {s : Cpu} {top : Word} {k i : ℕ} {m m' : Machine}

theorem Fetches.area {word : Word} (h : Fetches s word m) (harea : StackArea top k s) :
    StackArea top k m.cpu :=
  harea.congr (fun ht => harea.off (h.context.map.mmeOn_iff.1 ht)) h.context.cfg

theorem Fetches.r_of_ne {word : Word} (h : Fetches s word m) {j : Field3} (hj : j ≠ regPc) :
    m.cpu.regs.r j = s.regs.r j := by
  rw [h.moves, Function.update_of_ne hj]

theorem ramWord_congr {s t : Cpu} (h : t.mem = s.mem) (va : Word) : ramWord t va = ramWord s va :=
  congrArg (memReadWord · (unmappedPhysical va)) h

/-- The step of the return. -/
theorem step_rts (h : Fetches s rtsR5 m) (harea : StackArea top k s) (hi : i + 1 ≤ k)
    (hsp : s.regs.r regSp = slot top (i + 1)) :
    let t := (cpuStep s).cpu
    t.cfg = s.cfg ∧ ¬mmeOn t ∧ t.ctl.halted = false ∧ t.ctl.waiting = false ∧
      t.regs.r regPc = s.regs.r 5 ∧ t.regs.r 5 = ramWord s (slot top (i + 1)) ∧
      t.regs.r regSp = slot top i := by
  intro t
  have hctx := h.context
  obtain ⟨m', hrts, hstep, hctl, hpc, h5, h6⟩ := opRts_returns (h.area harea) hi
    ((h.r_of_ne (by decide)).trans hsp)
  have hexec : Executed s rtsR5 m m' := h.executed (by rw [execute_rtsR5, hrts])
  obtain ⟨hcfg, hmmu, hctl'⟩ := hexec.kept
  refine ⟨hcfg.trans (hstep.cfg.trans hctx.cfg), ?_, ?_, ?_, ?_, ?_, ?_⟩
  · unfold mmeOn
    rw [hmmu]
    exact hstep.off
  · rw [hctl', hctl, hctx.halted, h.running]
  · rw [hctl', hctl, hctx.waiting, h.active]
  · rw [hexec.regs, hpc, h.r_of_ne (by decide)]
  · rw [hexec.regs, h5, ramWord_congr hctx.mem]
  · rw [hexec.regs, h6]

/-- The step of the MARK on the stack. -/
theorem step_mark {n : ℕ} (hn : n ≤ 63) (hmark : s.cfg.hasMark = true)
    (hrunning : s.ctl.halted = false) (hdue : pendingDispatch s = none)
    (hactive : s.ctl.waiting = false) (harea : StackArea top k s) (hk : n + 2 ≤ k)
    (hpc : s.regs.r regPc = slot top (n + 2))
    (hword : ramWord s (slot top (n + 2)) = markWord n) :
    let t := (cpuStep s).cpu
    t.regs.r regPc = s.regs.r 5 ∧ t.regs.r 5 = ramWord s (slot top 1) ∧ t.regs.r regSp = top := by
  intro t
  let b := beginInstr (armTrace s)
  have hctx : ContextKept s b := context_begin s
  have hregs : b.regs = s.regs := (begin_kept s).2.1
  have hareab : StackArea top k b :=
    harea.congr (fun ht => harea.off (hctx.map.mmeOn_iff.1 ht)) hctx.cfg
  have href := hareab.ramRef (Nat.le_add_left 1 (n + 1)) hk false b.mode false
  obtain ⟨m₁, hread, hstep, -, -⟩ := cpuReadWordGen_ram (m := ⟨b, [.setjmp]⟩) href
  have hvalue : memReadWord b.mem (refPhysical b (slot top (n + 2)) b.mode false) = markWord n := by
    rw [refPhysical_off hareab.off]
    exact (ramWord_congr hctx.mem _).trans hword
  let m := withReg regPc (m₁.cpu.regs.r regPc + 2) m₁
  -- the MARK is fetched from the stack itself
  have hfetch : fetch ⟨b, [.setjmp]⟩ = .ok (markWord n) m := by
    have hrun : fetch ⟨b, [.setjmp]⟩ = (do
        let word ← cpuReadWordGen (b.regs.r regPc) b.mode false
        addReg regPc 2
        pure word : M Word) ⟨b, [.setjmp]⟩ := rfl
    rw [hrun, hregs, hpc, bind_ok hread, ← hvalue]
    rfl
  have h : Fetches s (markWord n) m := ⟨hrunning, hdue, hactive, hfetch⟩
  have hpc' : m.cpu.regs.r regPc = slot top (n + 1) := by
    rw [h.moves, Function.update_self, hpc, harea.slot_add_two hk]
  obtain ⟨m', hmarked, hpc₂, h5, h6⟩ := opMark_unwinds hn (by omega) (h.area harea) hpc'
  have hexecute : execute (markWord n) m = .ok () m' := by
    have hcap : m.cpu.cfg.hasMark = true := by rw [h.context.cfg, hmark]
    have hres : orReserved (·.hasMark) (opMark (markWord n)) m =
      (if m.cpu.cfg.hasMark then opMark (markWord n) else doTrap vecReserved) m := rfl
    rw [execute_mark hn, hres, if_pos hcap, hmarked]
  have hexec := h.executed hexecute
  refine ⟨?_, ?_, ?_⟩
  · rw [hexec.regs, hpc₂, h.r_of_ne (by decide)]
  · rw [hexec.regs, h5, ramWord_congr h.context.mem]
  · rw [hexec.regs, h6]

end

/-- The frame, R5 and R6 are as `s` has them. -/
structure FrameKept (top : Word) (k : ℕ) (s t : Cpu) : Prop where
  cfg : t.cfg = s.cfg
  off : ¬mmeOn t
  r5 : t.regs.r 5 = s.regs.r 5
  sp : t.regs.r regSp = s.regs.r regSp
  area : AreaKept top k s t

theorem Framed.of_kept {top old : Word} {n : ℕ} {s t : Cpu} (h : Framed top n old s)
    (hkept : FrameKept top (n + 3) s t) : Framed top n old t where
  area := h.area.congr hkept.off hkept.cfg
  kept := (hkept.area 1 (by omega) (by omega)).trans h.kept
  mark := (hkept.area (n + 2) (by omega) (by omega)).trans h.mark
  r5 := hkept.r5.trans h.r5
  sp := hkept.sp.trans h.sp

/-- The state a subroutine starts in: the frame, and the link under it. -/
structure Called (top : Word) (n : ℕ) (old link : Word) (s : Cpu) : Prop where
  area : StackArea top (n + 3) s
  kept : ramWord s (slot top 1) = old
  mark : ramWord s (slot top (n + 2)) = markWord n
  link : ramWord s (slot top (n + 3)) = link
  r5 : s.regs.r 5 = slot top (n + 2)
  sp : s.regs.r regSp = slot top (n + 3)

theorem Called.of_kept {top old link : Word} {n : ℕ} {s t : Cpu} (h : Called top n old link s)
    (hkept : FrameKept top (n + 3) s t) : Called top n old link t where
  area := h.area.congr hkept.off hkept.cfg
  kept := (hkept.area 1 (by omega) (by omega)).trans h.kept
  mark := (hkept.area (n + 2) (by omega) (by omega)).trans h.mark
  link := (hkept.area (n + 3) (by omega) (by omega)).trans h.link
  r5 := hkept.r5.trans h.r5
  sp := hkept.sp.trans h.sp

/-- The step of the call. Nothing but the call stores in the area. -/
theorem step_jsr {top old : Word} {n : ℕ} {s : Cpu} {sub : BitVec 6} {m m' : Machine}
    (h : Executed s (jsrWord sub) m m') (hframe : Framed top n old s) (hsub : PlainTarget sub)
    (hclear : stackZone s (slot top (n + 3)) = .fine)
    (hquiet : AreaKept top (n + 3) m'.cpu (cpuStep s).cpu) :
    (cpuStep s).cpu.cfg = s.cfg ∧
      Called top n old (s.regs.r regPc + 2 + targetBytes sub) (cpuStep s).cpu := by
  have hctx := h.fetches.context
  have hrun : opJsr (jsrWord sub) m = .ok () m' := by rw [← execute_jsr, h.executed]
  obtain ⟨hstep, h5, h6, hlink⟩ := opJsr_links hsub (h.fetches.area hframe.area) (Nat.le_refl _)
    ((h.fetches.r_of_ne (by decide)).trans hframe.sp) ((hctx.stackZone _).trans hclear) hrun
  obtain ⟨hcfg, hmmu, -⟩ := h.kept
  have hcfg' : (Pdp11.cpuStep s).cpu.cfg = s.cfg := hcfg.trans (hstep.cfg.trans hctx.cfg)
  have hoff : ¬mmeOn (Pdp11.cpuStep s).cpu := by
    unfold mmeOn
    rw [hmmu]
    exact hstep.off
  have hold {i : ℕ} (hi : 1 ≤ i) (hin : i ≤ n + 2) :
      ramWord (Pdp11.cpuStep s).cpu (slot top i) = ramWord s (slot top i) := by
    rw [hquiet i hi (by omega), hstep.kept i hi hin, ramWord_congr hctx.mem]
  refine ⟨hcfg', hframe.area.congr hoff hcfg', ?_, ?_, ?_, ?_, ?_⟩
  · exact (hold (by omega) (by omega)).trans hframe.kept
  · exact (hold (by omega) (by omega)).trans hframe.mark
  · rw [hquiet (n + 3) (by omega) (by omega), hlink, h.fetches.moves, Function.update_self]
  · rw [h.regs, h5, h.fetches.r_of_ne (by decide), hframe.r5]
  · rw [h.regs, h6]

/-- The MARK convention balances. A frame is pushed and the subroutine called; from any later state
that still has the frame, R5 and R6, `RTS R5` and the MARK on the stack lead behind the call, with
the old R5 and the stack pointer the frame was pushed from. Devices leave the stack area alone. -/
theorem mark_call_balances (params : List Word) {top : Word} {m : Machine}
    (hmark : m.cpu.cfg.hasMark = true) (hfew : params.length ≤ 63)
    (harea : StackArea top (params.length + 3) m.cpu) (hsp : m.cpu.regs.r regSp = top)
    (hclear : ∀ j, j ≤ params.length + 3 → stackZone m.cpu (slot top j) = .fine) :
    ∃ m₁, pushFrame params m = .ok () m₁ ∧
      ∀ s sub m₂ m₃, FrameKept top (params.length + 3) m₁.cpu s →
        stackZone s (slot top (params.length + 3)) = .fine → PlainTarget sub →
        Executed s (jsrWord sub) m₂ m₃ →
        AreaKept top (params.length + 3) m₃.cpu (cpuStep s).cpu →
        ∀ u m₄, FrameKept top (params.length + 3) (cpuStep s).cpu u → Fetches u rtsR5 m₄ →
          AreaKept top (params.length + 3) u (cpuStep u).cpu →
          pendingDispatch (cpuStep u).cpu = none →
          let t := (cpuRun u 2)
          t.regs.r regPc = s.regs.r regPc + 2 + targetBytes sub ∧
            t.regs.r 5 = m.cpu.regs.r 5 ∧ t.regs.r regSp = top := by
  obtain ⟨m₁, hpush, hcfg, hframe⟩ := pushFrame_framed harea hsp hclear
  refine ⟨m₁, hpush, ?_⟩
  intro s sub m₂ m₃ hkept hclear' hsub hjsr hquiet u m₄ hbody hrts hquiet' hdue t
  obtain ⟨hcfg', hcalled⟩ := step_jsr hjsr (hframe.of_kept hkept) hsub hclear' hquiet
  have hreturn := hcalled.of_kept hbody
  obtain ⟨hcfg₂, hoff, hrunning, hactive, hpc, h5, h6⟩ :=
    step_rts hrts hreturn.area (Nat.le_refl _) hreturn.sp
  have harea₂ : StackArea top (params.length + 3) (cpuStep u).cpu :=
    hreturn.area.congr hoff hcfg₂
  have hword (i : ℕ) (hi : 1 ≤ i) (hin : i ≤ params.length + 3) :
      ramWord (cpuStep u).cpu (slot top i) = ramWord u (slot top i) := hquiet' i hi hin
  have hhas : (cpuStep u).cpu.cfg.hasMark = true := by
    rw [hcfg₂, hbody.cfg, hcfg', hkept.cfg, hcfg, hmark]
  obtain ⟨hpc₂, h5₂, h6₂⟩ := step_mark hfew hhas hrunning hdue hactive harea₂ (by omega)
    (hpc.trans hreturn.r5) ((hword _ (by omega) (by omega)).trans hreturn.mark)
  refine ⟨?_, ?_, h6₂⟩
  · exact hpc₂.trans (h5.trans hreturn.link)
  · exact h5₂.trans ((hword 1 (by omega) (by omega)).trans hreturn.kept)

/-- An 11/40 that calls a subroutine of one instruction with one parameter. -/
def calling : Machine :=
  { cpu := { cpuCreateModel .m1140 with
      regs := { resetRegs with
        r := fun i => if i = regPc then 0o1000 else if i = regSp then 0o2000 else 0o123 }
      mem := fun i => if i = 0o400 then 0o004737 else if i = 0o401 then 0o1100
        else if i = 0o440 then rtsR5 else 0 }
    events := [] }

theorem calling_returns : ∃ m₁, pushFrame [7] calling = .ok () m₁ ∧
    (cpuRun (cpuStep m₁.cpu).cpu 2).regs.r regPc = 0o1004 ∧
    (cpuRun (cpuStep m₁.cpu).cpu 2).regs.r 5 = 0o123 ∧
    (cpuRun (cpuStep m₁.cpu).cpu 2).regs.r regSp = 0o2000 := by
  let framed := (final (pushFrame [7] calling)).cpu
  let called := (cpuStep framed).cpu
  let atCall := final (fetch ⟨beginInstr (armTrace framed), [.setjmp]⟩)
  have harea : StackArea 0o2000 4 calling.cpu := by constructor <;> decide +kernel
  obtain ⟨m₁, hpush, hrun⟩ :=
    mark_call_balances [7] (by decide +kernel) (by decide) harea
      (by decide +kernel) (by decide +kernel)
  have hm₁ : m₁.cpu = framed := by
    show _ = (final (pushFrame [7] calling)).cpu
    rw [hpush, final_ok]
  rw [hm₁] at hrun
  refine ⟨m₁, hpush, ?_⟩
  rw [hm₁]
  have hjsr : Executed framed (jsrWord 0o37) atCall (final (execute (jsrWord 0o37) atCall)) :=
    ⟨by decide +kernel, by decide +kernel, by decide +kernel, eq_ok_of_value (by decide +kernel),
      eq_ok_of_value (by decide +kernel)⟩
  have hrts : Fetches called rtsR5 (final (fetch ⟨beginInstr (armTrace called), [.setjmp]⟩)) :=
    ⟨by decide +kernel, by decide +kernel, by decide +kernel, eq_ok_of_value (by decide +kernel)⟩
  have hquiet : ∀ i < 5, ramWord called (slot 0o2000 i) =
      ramWord (final (execute (jsrWord 0o37) atCall)).cpu (slot 0o2000 i) := by decide +kernel
  have hquiet' : ∀ i < 5, ramWord (cpuStep called).cpu (slot 0o2000 i) =
      ramWord called (slot 0o2000 i) := by decide +kernel
  exact hrun framed 0o37 _ _ ⟨rfl, by decide +kernel, rfl, rfl, fun _ _ _ => rfl⟩
    (by decide +kernel) (by decide) hjsr (fun i _ hi => hquiet i (Nat.lt_succ_of_le hi)) called _
    ⟨rfl, by decide +kernel, rfl, rfl, fun _ _ _ => rfl⟩ hrts
    (fun i _ hi => hquiet' i (Nat.lt_succ_of_le hi)) (by decide +kernel)

end Pdp11
