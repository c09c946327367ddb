import Pdp11.Shifts

namespace Pdp11

open FaultState

/-! MUL and DIV against the arithmetic of integers. -/

/-- The signed number in a register pair. -/
def pairValue (r : Field3 → Word) (reg : Field3) : ℤ := (r reg ++ r (pairReg reg)).toInt

/-- The integers that a word can hold. -/
def FitsWord (i : ℤ) : Prop := -32768 ≤ i ∧ i ≤ 32767

instance (i : ℤ) : Decidable (FitsWord i) := inferInstanceAs (Decidable (_ ∧ _))

theorem fitsWord_toInt (x : Word) : FitsWord x.toInt := by
  have hlo := x.le_toInt
  have hhi := x.toInt_lt
  constructor <;> omega

/-- The check that both instructions make of a 32-bit result. -/
theorem not_fitsWord_iff (x : BitVec 32) :
    (32767#32).slt x = true ∨ x.slt (-32768#32) = true ↔ ¬FitsWord x.toInt := by
  have hhi : (32767#32).toInt = 32767 := rfl
  have hlo : (-32768#32).toInt = -32768 := rfl
  rw [BitVec.slt_iff_toInt_lt, BitVec.slt_iff_toInt_lt, hhi, hlo, FitsWord]
  omega

theorem toInt_low {x : BitVec 32} (h : FitsWord x.toInt) :
    (x.setWidth 16 : Word).toInt = x.toInt := by
  obtain ⟨hlo, hhi⟩ := h
  have hwrap : ((x.toNat : ℤ)).bmod (2 ^ 16) = x.toInt.bmod (2 ^ 16) := by
    rw [BitVec.toInt_eq_toNat_bmod]
    exact (Int.bmod_bmod_of_dvd (pow_dvd_pow 2 (by decide))).symm
  rw [BitVec.toInt_setWidth, hwrap]
  apply Int.bmod_eq_of_le_mul_two
  · push_cast
    omega
  · push_cast
    omega

theorem toInt_extend (x : Word) : (x.signExtend 32).toInt = x.toInt :=
  BitVec.toInt_signExtend_of_le (by decide)

theorem product_bound {i j : ℤ} (hi : FitsWord i) (hj : FitsWord j) :
    (i * j).natAbs ≤ 32768 * 32768 := by
  obtain ⟨hilo, hihi⟩ := hi
  obtain ⟨hjlo, hjhi⟩ := hj
  rw [Int.natAbs_mul]
  apply Nat.mul_le_mul <;> omega

/-- A product of words fits in 32 bits. -/
theorem toInt_mul {x y : BitVec 32} (hx : FitsWord x.toInt) (hy : FitsWord y.toInt) :
    (x * y).toInt = x.toInt * y.toInt := by
  have hbound := product_bound hx hy
  rw [BitVec.toInt_mul]
  apply Int.bmod_eq_of_le_mul_two
  · push_cast
    omega
  · push_cast
    omega

theorem toInt_product (a b : Word) :
    (a.signExtend 32 * b.signExtend 32).toInt = a.toInt * b.toInt := by
  rw [toInt_mul, toInt_extend, toInt_extend]
  · rw [toInt_extend]
    exact fitsWord_toInt a
  · rw [toInt_extend]
    exact fitsWord_toInt b

theorem execute_mul {word : Word} (h : word &&& 0o177000 = 0o070000) :
    execute word = orReserved (·.hasEis) (opMul word) := by
  have hop := opcode_eq h
  have hnat : (0o070000 : Word).toNat / 512 = 56 := rfl
  obtain ⟨hmisc, htry, hbranch, hle⟩ := execute_eis word (by omega)
  rw [hmisc, decodeMisc, htry]
  dsimp only
  rw [hbranch, if_neg Bool.false_ne_true, if_neg fun hw => hle _ (by decide) hw.2,
    if_neg fun hw => hle _ (by decide) hw.2, if_neg fun hw => hle _ (by decide) hw.2,
    if_neg fun hw => hle _ (by decide) hw.2, h, if_neg (by decide), if_pos rfl]

theorem execute_div {word : Word} (h : word &&& 0o177000 = 0o071000) :
    execute word = orReserved (·.hasEis) (opDiv word) := by
  have hop := opcode_eq h
  have hnat : (0o071000 : Word).toNat / 512 = 57 := rfl
  obtain ⟨hmisc, htry, hbranch, hle⟩ := execute_eis word (by omega)
  rw [hmisc, decodeMisc, htry]
  dsimp only
  rw [hbranch, if_neg Bool.false_ne_true, if_neg fun hw => hle _ (by decide) hw.2,
    if_neg fun hw => hle _ (by decide) hw.2, if_neg fun hw => hle _ (by decide) hw.2,
    if_neg fun hw => hle _ (by decide) hw.2, h, if_neg (by decide), if_neg (by decide),
    if_pos rfl]

/-- What MUL makes of the registers and the status, the operand read. -/
def mulCpu (s : Cpu) (reg : Field3) (value : Word) : Cpu :=
  let dst : BitVec 32 := (s.regs.r reg).signExtend 32 * value.signExtend 32
  let s := { s with regs.r := Function.update (Function.update s.regs.r reg
    ((dst >>> 16).setWidth 16)) (pairReg reg) (dst.setWidth 16) }
  setNzvc s (dst.slt 0) (dst = 0) false ((32767#32).slt dst ∨ dst.slt (-32768#32))

theorem opMul_apply {word value : Word} {op : Operand} {m m₁ m₂ : Machine}
    (hop : decodeOperand (dstSpec word) false m = .ok op m₁)
    (hvalue : readOperand op false m₁ = .ok value m₂) :
    opMul word m = .ok () { m₂ with cpu := mulCpu m₂.cpu (regField word) value } := by
  rw [opMul, bind_ok hop, bind_ok hvalue]
  rfl

/-- MUL leaves the exact product, and C when it does not fit in a word. -/
theorem opMul_product {word value : Word} {op : Operand} {m m₁ m₂ m' : Machine}
    (hfree : m₂.cpu.ctl.ccFrozen = false) (heven : (regField word).getLsbD 0 = false)
    (hop : decodeOperand (dstSpec word) false m = .ok op m₁)
    (hvalue : readOperand op false m₁ = .ok value m₂) (hrun : opMul word m = .ok () m') :
    let product := (m₂.cpu.regs.r (regField word)).toInt * value.toInt
    pairValue m'.cpu.regs.r (regField word) = product ∧
      ((codes m'.cpu).c = true ↔ ¬FitsWord product) := by
  intro product
  let reg := regField word
  let dst : BitVec 32 := (m₂.cpu.regs.r reg).signExtend 32 * value.signExtend 32
  let hi : Word := (dst >>> 16).setWidth 16
  let lo : Word := dst.setWidth 16
  let u : Cpu := { m₂.cpu with
    regs.r := Function.update (Function.update m₂.cpu.regs.r reg hi) (pairReg reg) lo }
  have hcpu : m'.cpu = setNzvc u (dst.slt 0) (dst = 0) false
      ((32767#32).slt dst ∨ dst.slt (-32768#32)) := by
    rw [opMul_apply hop hvalue] at hrun
    cases hrun
    rfl
  have hu : u.ctl.ccFrozen = false := hfree
  have hdst : dst.toInt = product := toInt_product _ _
  rw [hcpu, codes_setNzvc hu]
  constructor
  · have hr : (setNzvc u (dst.slt 0) (dst = 0) false
        ((32767#32).slt dst ∨ dst.slt (-32768#32))).regs.r = u.regs.r := by
      simp [setNzvc]
    obtain ⟨hhi, hlo⟩ := update_pair m₂.cpu.regs.r heven hi lo
    rw [hr, pairValue, show u.regs.r (regField word) = hi from hhi,
      show u.regs.r (pairReg (regField word)) = lo from hlo, halves_append, hdst]
  · rw [← hdst, decide_eq_true_iff]
    exact not_fitsWord_iff dst

/-! ## Division -/

/-- The quotient that DIV computes of a dividend it does not refuse. -/
theorem toInt_quotient {src : BitVec 32} {divisor : Word}
    (h : ¬(src = 0o20000000000 ∧ divisor = 0o177777)) :
    (src.sdiv (divisor.signExtend 32)).toInt = src.toInt.tdiv divisor.toInt := by
  rw [BitVec.toInt_sdiv_of_ne_or_ne, toInt_extend]
  rw [← not_and_or]
  rintro ⟨hsrc, hdivisor⟩
  refine h ⟨hsrc, ?_⟩
  have hone := congrArg (BitVec.setWidth 16) hdivisor
  rwa [signExtend_low] at hone

/-- A quotient and a remainder of a truncating division. -/
structure Divides (dividend divisor q r : ℤ) : Prop where
  sum : dividend = q * divisor + r
  small : r.natAbs < divisor.natAbs
  sign : r = 0 ∨ r.sign = dividend.sign

theorem divides_tdiv (dividend : ℤ) {divisor : ℤ} (h : divisor ≠ 0) :
    Divides dividend divisor (dividend.tdiv divisor) (dividend.tmod divisor) where
  sum := (Int.tdiv_mul_add_tmod dividend divisor).symm
  small := by
    rw [Int.natAbs_tmod]
    exact Nat.mod_lt _ (Int.natAbs_pos.2 h)
  sign := by
    by_cases hr : dividend.tmod divisor = 0
    · exact .inl hr
    · refine .inr ?_
      obtain hneg | rfl | hpos := Int.lt_trichotomy dividend 0
      · have hge := Int.tmod_nonneg divisor (by omega : 0 ≤ -dividend)
        rw [Int.neg_tmod] at hge
        rw [Int.sign_eq_neg_one_of_neg hneg, Int.sign_eq_neg_one_of_neg (by omega)]
      · exact absurd (Int.zero_tmod _) hr
      · have hge : 0 ≤ dividend.tmod divisor := Int.tmod_nonneg _ hpos.le
        rw [Int.sign_eq_one_of_pos hpos, Int.sign_eq_one_of_pos (by omega)]

/-- What DIV makes of the registers and the status, the divisor read. -/
def divCpu (s : Cpu) (reg : Field3) (divisor : Word) : Cpu :=
  let src : BitVec 32 := s.regs.r reg ++ s.regs.r (pairReg reg)
  if divisor = 0 then setNzvc s false true true true
  else
    let s := { s with acct.eisExtraNs := 6150 }
    if src = 0o20000000000 ∧ divisor = 0o177777 then
      setFlag (setFlag (setFlag (setFlag s pswV true) pswN false) pswZ false) pswC false
    else
      let dst := src.sdiv (divisor.signExtend 32)
      if (32767#32).slt dst ∨ dst.slt (-32768#32) then
        setFlag (setFlag (setFlag (setFlag s pswN (dst.slt 0)) pswV true) pswZ false) pswC false
      else
        let s := setFlag s pswN (dst.slt 0)
        let s := { s with regs.r := Function.update (Function.update s.regs.r reg
          (dst.setWidth 16)) (pairReg reg) ((src - divisor.signExtend 32 * dst).setWidth 16) }
        setFlag (setFlag (setFlag s pswZ (dst = 0)) pswV false) pswC false

/-- The remainder, computed from the quotient in 32 bits. -/
theorem toInt_remainder {src dst : BitVec 32} {divisor : Word} (hzero : divisor ≠ 0)
    (hdst : dst.toInt = src.toInt.tdiv divisor.toInt) :
    ((src - divisor.signExtend 32 * dst).setWidth 16 : Word).toInt =
      src.toInt.tmod divisor.toInt := by
  have hne : divisor.toInt ≠ 0 := by
    intro h
    exact hzero (BitVec.toInt_inj.1 h)
  obtain ⟨hlo, hhi⟩ := fitsWord_toInt divisor
  have hsmall := (divides_tdiv src.toInt hne).small
  have hrem : src.toInt - divisor.toInt * src.toInt.tdiv divisor.toInt =
      src.toInt.tmod divisor.toInt := by
    have hsum := Int.mul_tdiv_add_tmod src.toInt divisor.toInt
    omega
  have hfull : (src - divisor.signExtend 32 * dst).toInt = src.toInt.tmod divisor.toInt := by
    rw [BitVec.toInt_sub, BitVec.toInt_mul, toInt_extend, hdst, Int.sub_bmod_bmod, hrem]
    apply Int.bmod_eq_of_le_mul_two
    · push_cast
      omega
    · push_cast
      omega
  rw [toInt_low, hfull]
  rw [hfull]
  constructor <;> omega

section
variable {s : Cpu} {reg : Field3} {divisor : Word}

/-- A division is refused and leaves the registers, or leaves its quotient and its remainder. -/
theorem divCpu_cases (hfree : s.ctl.ccFrozen = false) (heven : reg.getLsbD 0 = false) :
    let t := divCpu s reg divisor
    let q := (pairValue s.regs.r reg).tdiv divisor.toInt
    ((divisor = 0 ∨ ¬FitsWord q) ∧ (codes t).v = true ∧ t.regs.r = s.regs.r) ∨
      (divisor ≠ 0 ∧ FitsWord q ∧ (codes t).v = false ∧ (t.regs.r reg).toInt = q ∧
        (t.regs.r (pairReg reg)).toInt = (pairValue s.regs.r reg).tmod divisor.toInt) := by
  intro t q
  by_cases hzero : divisor = 0
  · have ht : t = setNzvc s false true true true := if_pos hzero
    rw [ht, codes_setNzvc hfree]
    exact .inl ⟨.inl hzero, rfl, by simp [setNzvc]⟩
  let src : BitVec 32 := s.regs.r reg ++ s.regs.r (pairReg reg)
  let u : Cpu := { s with acct.eisExtraNs := 6150 }
  have hu : u.ctl.ccFrozen = false := hfree
  -- the one quotient outside 32 bits is refused before the division
  by_cases hlowest : src = 0o20000000000 ∧ divisor = 0o177777
  · have ht : t = setFlag (setFlag (setFlag (setFlag u pswV true) pswN false) pswZ false) pswC
        false := (if_neg hzero).trans (if_pos hlowest)
    have hq : q = 2147483648 := by
      show src.toInt.tdiv divisor.toInt = _
      rw [hlowest.1, hlowest.2]
      rfl
    rw [ht, codes_setC (by simp [hu]), codes_setZ (by simp [hu]), codes_setN (by simp [hu]),
      codes_setV hu, hq]
    exact .inl ⟨.inr (by decide), rfl, by simp [u]⟩
  let dst := src.sdiv (divisor.signExtend 32)
  have hdst : dst.toInt = q := toInt_quotient hlowest
  have hfits := not_fitsWord_iff dst
  rw [hdst] at hfits
  by_cases hout : ¬FitsWord q
  · have ht : t = setFlag (setFlag (setFlag (setFlag u pswN (dst.slt 0)) pswV true) pswZ false) pswC
        false := (if_neg hzero).trans ((if_neg hlowest).trans (if_pos (hfits.2 hout)))
    rw [ht, codes_setC (by simp [hu]), codes_setZ (by simp [hu]), codes_setV (by simp [hu])]
    exact .inl ⟨.inr hout, rfl, by simp [u]⟩
  · have hin : FitsWord q := not_not.1 hout
    let rem : Word := (src - divisor.signExtend 32 * dst).setWidth 16
    let w : Cpu := { setFlag u pswN (dst.slt 0) with
      regs.r := Function.update (Function.update (setFlag u pswN (dst.slt 0)).regs.r reg
        (dst.setWidth 16)) (pairReg reg) rem }
    have hw : w.ctl.ccFrozen = false := by
      show (setFlag u pswN (dst.slt 0)).ctl.ccFrozen = false
      simp [hu]
    have ht : t = setFlag (setFlag (setFlag w pswZ (dst = 0)) pswV false) pswC false :=
      (if_neg hzero).trans ((if_neg hlowest).trans (if_neg (mt hfits.1 hout)))
    obtain ⟨hquotient, hremainder⟩ :=
      update_pair (setFlag u pswN (dst.slt 0)).regs.r heven (dst.setWidth 16) rem
    have hreg : t.regs.r = w.regs.r := by rw [ht, setFlag_r, setFlag_r, setFlag_r]
    have hv : (codes t).v = false := by
      rw [ht, codes_setC (by simp [hw]), codes_setV (by simp [hw])]
    refine .inr ⟨hzero, hin, hv, ?_, ?_⟩
    · rw [hreg]
      show (w.regs.r reg).toInt = q
      rw [show w.regs.r reg = dst.setWidth 16 from hquotient, toInt_low (by rwa [hdst]), hdst]
    · rw [hreg, show w.regs.r (pairReg reg) = rem from hremainder]
      exact toInt_remainder hzero hdst

end

section
variable {word value : Word} {op : Operand} {m m₁ m₂ m' : Machine}

theorem opDiv_apply (hop : decodeOperand (dstSpec word) false m = .ok op m₁)
    (hvalue : readOperand op false m₁ = .ok value m₂) :
    opDiv word m = .ok () { m₂ with cpu := divCpu m₂.cpu (regField word) value } := by
  rw [opDiv, bind_ok hop, bind_ok hvalue]
  refine (bind_ok (x := getReg (regField word)) rfl).trans ?_
  refine (bind_ok (x := getReg (pairReg (regField word))) rfl).trans ?_
  unfold divCpu
  by_cases hzero : value = 0
  · rw [if_pos hzero, if_pos hzero]
    rfl
  rw [if_neg hzero, if_neg hzero]
  refine (bind_ok (x := setEisExtra 6150) rfl).trans ?_
  dsimp only
  split_ifs <;> rfl

end

/-- A step that completes the EIS instruction `word`, its operand `value` read in machine `m`. -/
structure EisStep (s : Cpu) (word value : Word) (m : Machine) : Prop where
  eis : s.cfg.hasEis = true
  even : (regField word).getLsbD 0 = false
  runs : ∃ op m₀ m₁ m', Executed s word m₀ m' ∧ decodeOperand (dstSpec word) false m₀ = .ok op m₁ ∧
    readOperand op false m₁ = .ok value m

section
variable {s t : Cpu} {word word' value : Word} {m n : Machine}

theorem EisStep.product (h : EisStep s word value m) (hword : word &&& 0o177000 = 0o070000) :
    let product := (m.cpu.regs.r (regField word)).toInt * value.toInt
    pairValue (cpuStep s).cpu.regs.r (regField word) = product ∧
      ((codes (cpuStep s).cpu).c = true ↔ ¬FitsWord product) := by
  obtain ⟨op, m₀, m₁, m', hexecuted, hop, hvalue⟩ := h.runs
  have hcap : m₀.cpu.cfg.hasEis = true := by rw [hexecuted.start.2.2, h.eis]
  have hrun := hexecuted.executed
  rw [execute_mul hword, orReserved_apply hcap] at hrun
  rw [codes_congr hexecuted.regs, hexecuted.regs]
  exact opMul_product (hexecuted.count_free hop hvalue).1 h.even hop hvalue hrun

theorem EisStep.quotient (h : EisStep s word value m) (hword : word &&& 0o177000 = 0o071000) :
    let t := (cpuStep s).cpu
    let q := (pairValue m.cpu.regs.r (regField word)).tdiv value.toInt
    ((value = 0 ∨ ¬FitsWord q) ∧ (codes t).v = true ∧ t.regs.r = m.cpu.regs.r) ∨
      (value ≠ 0 ∧ FitsWord q ∧ (codes t).v = false ∧ (t.regs.r (regField word)).toInt = q ∧
        (t.regs.r (pairReg (regField word))).toInt =
          (pairValue m.cpu.regs.r (regField word)).tmod value.toInt) := by
  obtain ⟨op, m₀, m₁, m', hexecuted, hop, hvalue⟩ := h.runs
  have hcap : m₀.cpu.cfg.hasEis = true := by rw [hexecuted.start.2.2, h.eis]
  have hrun := hexecuted.executed
  rw [execute_div hword, orReserved_apply hcap, opDiv_apply hop hvalue] at hrun
  cases hrun
  dsimp only
  rw [codes_congr hexecuted.regs, hexecuted.regs]
  exact divCpu_cases (hexecuted.count_free hop hvalue).1 h.even

end

/-- MUL leaves the exact product and sets C when it does not fit in a word. DIV sets V when the
divisor is zero or the truncated quotient does not fit, and then leaves the registers; otherwise it
leaves the quotient and the remainder. A division by the same number undoes a multiplication. -/
theorem mul_div_exact :
    (∀ (s : Cpu) (word value : Word) (m : Machine), EisStep s word value m →
      (word &&& 0o177000 = 0o070000 →
        let product := (m.cpu.regs.r (regField word)).toInt * value.toInt
        pairValue (cpuStep s).cpu.regs.r (regField word) = product ∧
          ((codes (cpuStep s).cpu).c = true ↔ ¬FitsWord product)) ∧
      (word &&& 0o177000 = 0o071000 →
        let t := (cpuStep s).cpu
        let dividend := pairValue m.cpu.regs.r (regField word)
        let q := dividend.tdiv value.toInt
        ((codes t).v = true ↔ value = 0 ∨ ¬FitsWord q) ∧
        ((codes t).v = true → t.regs.r = m.cpu.regs.r) ∧
        ((codes t).v = false → (t.regs.r (regField word)).toInt = q ∧
          Divides dividend value.toInt q (t.regs.r (pairReg (regField word))).toInt))) ∧
    (∀ (s t : Cpu) (word word' value : Word) (m n : Machine),
      EisStep s word value m → word &&& 0o177000 = 0o070000 →
      EisStep t word' value n → word' &&& 0o177000 = 0o071000 → regField word' = regField word →
      value ≠ 0 → pairValue n.cpu.regs.r (regField word) =
        pairValue (cpuStep s).cpu.regs.r (regField word) →
      (cpuStep t).cpu.regs.r (regField word) = m.cpu.regs.r (regField word) ∧
        (cpuStep t).cpu.regs.r (pairReg (regField word)) = 0 ∧
        (codes (cpuStep t).cpu).v = false) := by
  constructor
  · intro s word value m h
    refine ⟨h.product, fun hword => ?_⟩
    intro t dividend q
    obtain ⟨hrefused, hv, hr⟩ | ⟨hzero, hfits, hv, hq, hrem⟩ := h.quotient hword
    · refine ⟨iff_of_true hv hrefused, fun _ => hr, fun hv' => ?_⟩
      exact absurd (hv.symm.trans hv') (by decide)
    · have hne : value.toInt ≠ 0 := fun hne => hzero (BitVec.toInt_inj.1 hne)
      refine ⟨iff_of_false ?_ ?_, fun hv' => ?_, fun _ => ⟨hq, ?_⟩⟩
      · exact fun hv' => absurd (hv.symm.trans hv') (by decide)
      · exact fun hrefused => hrefused.elim hzero fun h => h hfits
      · exact absurd (hv.symm.trans hv') (by decide)
      · rw [hrem]
        exact divides_tdiv _ hne
  · intro s t word word' value m n hmul hword hdiv hword' hreg hzero hpair
    have hne : value.toInt ≠ 0 := fun hne => hzero (BitVec.toInt_inj.1 hne)
    have hq : (pairValue n.cpu.regs.r (regField word)).tdiv value.toInt =
        (m.cpu.regs.r (regField word)).toInt := by
      rw [hpair, (hmul.product hword).1, Int.mul_tdiv_cancel _ hne]
    have hr : (pairValue n.cpu.regs.r (regField word)).tmod value.toInt = 0 := by
      rw [hpair, (hmul.product hword).1, Int.mul_tmod_left]
    -- the product is a multiple of the divisor whose quotient fits, so the division is not refused
    have hcases := hdiv.quotient hword'
    rw [hreg] at hcases
    dsimp only at hcases
    rw [hq, hr] at hcases
    obtain ⟨hrefused, -⟩ | ⟨-, -, hv, hquotient, hrem⟩ := hcases
    · exact absurd hrefused fun h => h.elim hzero fun h => h (fitsWord_toInt _)
    · exact ⟨BitVec.toInt_inj.1 hquotient, BitVec.toInt_inj.1 hrem, hv⟩

/-- `DIV R2, R0` at location 0, with the lowest word in the pair. -/
def lowestOverOne : Cpu :=
  { cpuCreate with
    regs := { cpuCreate.regs with r := fun i =>
      if i = 0 then 0o177777 else if i = 1 then 0o100000 else if i = 2 then 1 else 0 }
    mem := fun i => if i = 0 then 0o071002 else 0 }

theorem lowest_times_one_over_one :
    pairValue (cpuStep (twoWords 0o070001)).cpu.regs.r 0 = -32768 ∧
      (cpuStep lowestOverOne).cpu.regs.r 0 = 0o100000 := by
  have hmul : EisStep (twoWords 0o070001) 0o070001 1 _ :=
    ⟨rfl, rfl, .reg 1, _, _, _, ⟨rfl, rfl, rfl, rfl, rfl⟩, rfl, rfl⟩
  have hdiv : EisStep lowestOverOne 0o071002 1 _ :=
    ⟨rfl, rfl, .reg 2, _, _, _, ⟨rfl, rfl, rfl, rfl, rfl⟩, rfl, rfl⟩
  constructor
  · exact ((mul_div_exact.1 _ _ _ _ hmul).1 rfl).1
  · exact (mul_div_exact.2 _ _ _ _ _ _ _ hmul rfl hdiv rfl rfl (by decide) (by decide +kernel)).1

end Pdp11
