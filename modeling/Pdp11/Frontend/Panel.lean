import Pdp11.Step
import Mathlib.Data.List.FinRange
import Mathlib.Tactic.Common

namespace Pdp11

/-! The console panel of the interactive frontend. -/

/-- The switch register, the address register, and the word last examined or deposited. -/
structure PanelState where
  sr : Word
  addr : Word
  data : Word
  deriving DecidableEq, Repr

/-- What a click on the panel operates: a toggle of the switch register, counted from the left, or
a function button. -/
inductive PanelOp
  | toggle (idx : Fin 16)
  | halt
  | cont
  | start
  | step
  | ladr
  | exam
  | dep
  deriving DecidableEq, Repr

/-- The console has its own path to core: EXAM and DEP address physical memory. -/
def panelClick (op : PanelOp) (cpu : Cpu) (ps : PanelState) : Cpu × PanelState :=
  match op with
  | .toggle idx => (cpu, { ps with sr := ps.sr ^^^ (1#16 <<< (15 - idx.val)) })
  | .halt => ({ cpu with ctl.halted := true }, ps)
  | .cont => ({ cpu with ctl.halted := false }, ps)
  | .start =>
    ({ cpu with
      regs.r := Function.update cpu.regs.r regPc ps.addr
      ctl.halted := false }, ps)
  | .step =>
    let cpu := (cpuStep { cpu with ctl.halted := false }).cpu
    ({ cpu with ctl.halted := true }, ps)
  | .ladr => (cpu, { ps with addr := ps.sr })
  | .exam =>
    (cpu, { ps with
      data := memReadWord cpu.mem (ps.addr.setWidth 32)
      addr := ps.addr + 2 })
  | .dep =>
    ({ cpu with mem := memWriteWord cpu.mem (ps.addr.setWidth 32) ps.sr },
      { ps with
        data := ps.sr
        addr := ps.addr + 2 })

def panelClicks (ops : List PanelOp) (cpu : Cpu) (ps : PanelState) : Cpu × PanelState :=
  ops.foldl (fun s op => panelClick op s.1 s.2) (cpu, ps)

theorem panelClicks_append (ops ops' : List PanelOp) (cpu : Cpu) (ps : PanelState) :
    panelClicks (ops ++ ops') cpu ps =
      panelClicks ops' (panelClicks ops cpu ps).1 (panelClicks ops cpu ps).2 := by
  simp [panelClicks, List.foldl_append]

/-! ## The switch register -/

/-- The toggles that turn the switches from `sr` to `w`. -/
def keyIn (sr w : Word) : List PanelOp :=
  ((List.finRange 16).filter fun i => sr.getLsbD (15 - i.val) != w.getLsbD (15 - i.val)).map
    PanelOp.toggle

theorem toggle_bit : ∀ i j : Fin 16,
    (1#16 <<< (15 - i.val)).getLsbD (15 - j.val) = decide (j = i) := by decide

/-- Switches toggled from a list without repetition are inverted, and no others. -/
theorem panelClicks_toggles (l : List (Fin 16)) (hl : l.Nodup) (cpu : Cpu) (ps : PanelState) :
    (panelClicks (l.map PanelOp.toggle) cpu ps).1 = cpu ∧
      (panelClicks (l.map PanelOp.toggle) cpu ps).2.addr = ps.addr ∧
      ∀ j : Fin 16, (panelClicks (l.map PanelOp.toggle) cpu ps).2.sr.getLsbD (15 - j.val) =
        (ps.sr.getLsbD (15 - j.val) ^^ decide (j ∈ l)) := by
  induction l generalizing ps with
  | nil => simp [panelClicks]
  | cons i l ih =>
    obtain ⟨hi, hl⟩ := List.nodup_cons.1 hl
    obtain ⟨hcpu, haddr, hbits⟩ := ih hl { ps with sr := ps.sr ^^^ (1#16 <<< (15 - i.val)) }
    refine ⟨hcpu, haddr, ?_⟩
    intro j
    refine (hbits j).trans ?_
    rw [BitVec.getLsbD_xor, toggle_bit, Bool.xor_assoc]
    congr 1
    by_cases hji : j = i
    · subst hji
      simp [hi]
    · simp [hji]

theorem keyIn_sr (cpu : Cpu) (ps : PanelState) (w : Word) :
    (panelClicks (keyIn ps.sr w) cpu ps).1 = cpu ∧
      (panelClicks (keyIn ps.sr w) cpu ps).2.addr = ps.addr ∧
      (panelClicks (keyIn ps.sr w) cpu ps).2.sr = w := by
  obtain ⟨hcpu, haddr, hbits⟩ := panelClicks_toggles _
    ((List.nodup_finRange 16).filter fun i => ps.sr.getLsbD (15 - i.val) != w.getLsbD (15 - i.val))
    cpu ps
  refine ⟨hcpu, haddr, ?_⟩
  apply BitVec.eq_of_getLsbD_eq
  intro k hk
  have hbit := hbits ⟨15 - k, by omega⟩
  have hback : 15 - (15 - k) = k := by omega
  dsimp only at hbit
  rw [hback] at hbit
  refine hbit.trans ?_
  simp only [List.mem_filter, List.mem_finRange, hback, true_and]
  cases ps.sr.getLsbD k <;> cases w.getLsbD k <;> rfl

/-! ## Program entry -/

/-- The clicks that load the address register, from the switches as they stand. -/
def loadAddress (sr a : Word) : List PanelOp := keyIn sr a ++ [.ladr]

/-- The clicks that deposit words one after the other. -/
def depositAll (sr : Word) : List Word → List PanelOp
  | [] => []
  | w :: ws => keyIn sr w ++ .dep :: depositAll w ws

theorem loadAddress_clicks (cpu : Cpu) (ps : PanelState) (a : Word) :
    (panelClicks (loadAddress ps.sr a) cpu ps).1 = cpu ∧
      (panelClicks (loadAddress ps.sr a) cpu ps).2.addr = a ∧
      (panelClicks (loadAddress ps.sr a) cpu ps).2.sr = a := by
  obtain ⟨hcpu, -, hsr⟩ := keyIn_sr cpu ps a
  rw [loadAddress, panelClicks_append]
  exact ⟨hcpu, hsr, hsr⟩

/-- The memory word the panel addresses `i` words from `a`. -/
def panelCell (a : Word) (i : ℕ) : BitVec 21 :=
  memIndex ((a + BitVec.ofNat 16 (2 * i)).setWidth 32)

theorem panelCell_zero (a : Word) : panelCell a 0 = memIndex (a.setWidth 32) := by
  rw [panelCell, Nat.mul_zero, BitVec.add_zero]

theorem panelCell_succ (a : Word) (i : ℕ) : panelCell a (i + 1) = panelCell (a + 2) i := by
  have hoff : BitVec.ofNat 16 (2 * (i + 1)) = 2 + BitVec.ofNat 16 (2 * i) := by
    rw [Nat.mul_succ, Nat.add_comm, BitVec.ofNat_add]
    rfl
  rw [panelCell, panelCell, hoff, BitVec.add_assoc]

/-- The 32768 words from any address, around the end of the 16-bit space, are different ones. -/
theorem panelCell_inj (a : Word) {i j : ℕ} (hi : i < 2 ^ 15) (hj : j < 2 ^ 15)
    (h : panelCell a i = panelCell a j) : i = j := by
  have hcell (k : ℕ) (hk : k < 2 ^ 15) :
      (panelCell a k).toNat = (a.toNat + 2 * k) % 2 ^ 16 / 2 := by
    rw [panelCell, memIndex_toNat, BitVec.toNat_setWidth, BitVec.toNat_add, BitVec.toNat_ofNat]
    omega
  have hidx := congrArg BitVec.toNat h
  have ha := a.isLt
  rw [hcell i hi, hcell j hj] at hidx
  omega

theorem deposit_click (cpu : Cpu) (ps : PanelState) (w : Word) :
    panelClicks (keyIn ps.sr w ++ [.dep]) cpu ps =
      ({ cpu with mem := memWriteWord cpu.mem (ps.addr.setWidth 32) w },
        { sr := w, addr := ps.addr + 2, data := w }) := by
  obtain ⟨hcpu, haddr, hsr⟩ := keyIn_sr cpu ps w
  rw [panelClicks_append]
  show panelClick .dep (panelClicks (keyIn ps.sr w) cpu ps).1
    (panelClicks (keyIn ps.sr w) cpu ps).2 = _
  simp only [panelClick, hcpu, haddr, hsr]

/-- Deposits store in turn from the address register, and nowhere else. -/
theorem depositAll_clicks (ws : List Word) (hws : ws.length ≤ 2 ^ 15) (cpu : Cpu)
    (ps : PanelState) :
    let t := panelClicks (depositAll ps.sr ws) cpu ps
    t.1 = { cpu with mem := t.1.mem } ∧
      (∀ i (hi : i < ws.length), t.1.mem (panelCell ps.addr i) = ws[i]) ∧
      ∀ k, (∀ i < ws.length, k ≠ panelCell ps.addr i) → t.1.mem k = cpu.mem k := by
  induction ws generalizing cpu ps with
  | nil => exact ⟨rfl, fun i hi => absurd hi (Nat.not_lt_zero i), fun _ _ => rfl⟩
  | cons w ws ih =>
    rw [List.length_cons] at hws
    intro t
    let cpu' : Cpu := { cpu with mem := memWriteWord cpu.mem (ps.addr.setWidth 32) w }
    let ps' : PanelState := { sr := w, addr := ps.addr + 2, data := w }
    have hops : depositAll ps.sr (w :: ws) = keyIn ps.sr w ++ [.dep] ++ depositAll w ws := by
      simp [depositAll]
    have ht : t = panelClicks (depositAll ps'.sr ws) cpu' ps' := by
      show panelClicks (depositAll ps.sr (w :: ws)) cpu ps = _
      rw [hops, panelClicks_append, deposit_click]
    obtain ⟨hrest, hwords, hkept⟩ := ih (by omega) cpu' ps'
    rw [← ht] at hrest hwords hkept
    have hfirst : ∀ i < ws.length, panelCell ps.addr 0 ≠ panelCell ps'.addr i := by
      intro i hi heq
      rw [← panelCell_succ] at heq
      exact absurd (panelCell_inj ps.addr (by decide) (by omega) heq) (by omega)
    refine ⟨hrest, ?_, ?_⟩
    · intro i hi
      cases i with
      | zero =>
        rw [hkept _ hfirst, panelCell_zero]
        exact Function.update_self _ _ _
      | succ i =>
        rw [List.length_cons] at hi
        rw [panelCell_succ]
        exact hwords i (by omega)
    · intro k hk
      have hzero := hk 0 (Nat.succ_pos _)
      rw [panelCell_zero] at hzero
      rw [hkept k fun i hi => ?_]
      · exact Function.update_of_ne hzero _ _
      · have hsucc := hk (i + 1) (by rw [List.length_cons]; omega)
        rwa [panelCell_succ] at hsucc

/-- EXAM shows the words from the address register on. -/
theorem exam_clicks (n : ℕ) (cpu : Cpu) (ps : PanelState) :
    (panelClicks (List.replicate (n + 1) .exam) cpu ps).2.data = cpu.mem (panelCell ps.addr n) := by
  induction n generalizing ps with
  | zero =>
    rw [panelCell_zero]
    rfl
  | succ n ih =>
    rw [panelCell_succ]
    exact ih { ps with data := memReadWord cpu.mem (ps.addr.setWidth 32), addr := ps.addr + 2 }

/-- Up to 32768 words keyed in from any address are what EXAM shows from that address; the entry
changes no other word of memory, and nothing else of the machine. -/
theorem panel_entry_reads_back (cpu : Cpu) (ps : PanelState) (a : Word) (ws : List Word)
    (hws : ws.length ≤ 2 ^ 15) :
    let t := panelClicks (loadAddress ps.sr a ++ depositAll a ws) cpu ps
    let u := panelClicks (loadAddress t.2.sr a) t.1 t.2
    t.1 = { cpu with mem := t.1.mem } ∧
      (∀ k, (∀ i < ws.length, k ≠ panelCell a i) → t.1.mem k = cpu.mem k) ∧
      ∀ i (hi : i < ws.length),
        (panelClicks (List.replicate (i + 1) .exam) u.1 u.2).2.data = ws[i] := by
  intro t u
  obtain ⟨hcpu, haddr, hsr⟩ := loadAddress_clicks cpu ps a
  have ht : t = panelClicks (depositAll (panelClicks (loadAddress ps.sr a) cpu ps).2.sr ws) cpu
      (panelClicks (loadAddress ps.sr a) cpu ps).2 := by
    show panelClicks (loadAddress ps.sr a ++ depositAll a ws) cpu ps = _
    rw [panelClicks_append, hcpu, hsr]
  obtain ⟨hrest, hwords, hkept⟩ := depositAll_clicks ws hws cpu
    (panelClicks (loadAddress ps.sr a) cpu ps).2
  rw [← ht, haddr] at hwords hkept
  rw [← ht] at hrest
  obtain ⟨hcpu', haddr', -⟩ := loadAddress_clicks t.1 t.2 a
  refine ⟨hrest, hkept, ?_⟩
  intro i hi
  rw [exam_clicks, hcpu', haddr', hwords i hi]

theorem two_words_read_back :
    let t := panelClicks (loadAddress 0 0o1000 ++ depositAll 0o1000 [0o123456, 0o7]) cpuCreate
      ⟨0, 0, 0⟩
    let u := panelClicks (loadAddress t.2.sr 0o1000) t.1 t.2
    (panelClicks (List.replicate 2 .exam) u.1 u.2).2.data = 0o7 :=
  (panel_entry_reads_back cpuCreate ⟨0, 0, 0⟩ 0o1000 [0o123456, 0o7] (by decide)).2.2 1 (by decide)

end Pdp11
