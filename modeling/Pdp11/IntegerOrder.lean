import Pdp11.ConditionCodes

namespace Pdp11

open FaultState

/-! Comparisons, carries and overflow agree with the order and the arithmetic of integers. -/

/-! ## Decoding -/

theorem execute_cmp {word : Word} {bytemode : Bool}
    (h : word.extractLsb' 12 4 = if bytemode then 0o12 else 0o02) :
    execute word = opCmp word bytemode := by
  cases bytemode <;> simp only [if_true, Bool.false_eq_true, if_false] at h <;> simp [execute, h]

theorem execute_add {word : Word} (h : word.extractLsb' 12 4 = 0o06) :
    execute word = opAdd word := by
  simp [execute, h]

theorem execute_sub {word : Word} (h : word.extractLsb' 12 4 = 0o16) :
    execute word = opSub word := by
  simp [execute, h]

/-- The words with a small base are decoded behind the double-operand instructions. -/
theorem execute_misc {word : Word} {base : BitVec 9} (h : word.extractLsb' 6 9 = base)
    (hbase : base.toNat < 64) : execute word = decodeMisc word := by
  have hn := congrArg BitVec.toNat h
  rw [BitVec.extractLsb'_toNat, Nat.shiftRight_eq_div_pow] at hn
  -- the digit above the base is 0 or 10
  have htop (k : BitVec 4) (hk : k.toNat % 8 ≠ 0) : word.extractLsb' 12 4 ≠ k := by
    intro hw
    have hw' := congrArg BitVec.toNat hw
    rw [BitVec.extractLsb'_toNat, Nat.shiftRight_eq_div_pow] at hw'
    omega
  unfold execute
  dsimp only
  rw [if_neg (htop _ (by decide)), if_neg (htop _ (by decide)), if_neg (htop _ (by decide)),
    if_neg (htop _ (by decide)), if_neg (htop _ (by decide)), if_neg (htop _ (by decide)),
    if_neg (htop _ (by decide)), if_neg (htop _ (by decide)), if_neg (htop _ (by decide)),
    if_neg (htop _ (by decide)), if_neg (htop _ (by decide)), if_neg (htop _ (by decide)),
    if_neg (htop _ (by decide))]

/-- The words of the regular single-operand instructions, CLR to ASL. -/
theorem execute_single {word : Word} {base : BitVec 9} (h : word.extractLsb' 6 9 = base)
    (hlo : 0o050 ≤ base) (hhi : base ≤ 0o063) :
    execute word = singleOp word base (word.getLsbD 15) := by
  have hlo' : 40 ≤ base.toNat := hlo
  have hhi' : base.toNat ≤ 51 := hhi
  have hne (k : BitVec 9) (hk : k.toNat < 40 ∨ 51 < k.toNat) : base ≠ k := by
    rintro rfl
    omega
  have htry : trySingleOp word = some (singleOp word base (word.getLsbD 15)) := by
    unfold trySingleOp
    dsimp only
    rw [h, if_neg fun hb => hne _ (by decide) hb.1, if_neg fun hb => hne _ (by decide) hb.1,
      if_neg (hne _ (by decide)), if_neg (hne _ (by decide)), if_pos ⟨hlo, hhi⟩]
  rw [execute_misc h (by omega), decodeMisc, htry]

/-! ## Branches after a comparison -/

/-- The conditional branches test the order of `src` and `dst`, signed and unsigned. -/
structure BranchesOrder (s : Cpu) (bytemode : Bool) (src dst : Word) : Prop where
  beq : branchTaken s 0o003 = true ↔ signedValue bytemode src = signedValue bytemode dst
  bne : branchTaken s 0o002 = true ↔ signedValue bytemode src ≠ signedValue bytemode dst
  blt : branchTaken s 0o005 = true ↔ signedValue bytemode src < signedValue bytemode dst
  bge : branchTaken s 0o004 = true ↔ signedValue bytemode dst ≤ signedValue bytemode src
  bgt : branchTaken s 0o006 = true ↔ signedValue bytemode dst < signedValue bytemode src
  ble : branchTaken s 0o007 = true ↔ signedValue bytemode src ≤ signedValue bytemode dst
  blo : branchTaken s 0o207 = true ↔ unsignedValue bytemode src < unsignedValue bytemode dst
  bhis : branchTaken s 0o206 = true ↔ unsignedValue bytemode dst ≤ unsignedValue bytemode src
  bhi : branchTaken s 0o202 = true ↔ unsignedValue bytemode dst < unsignedValue bytemode src
  blos : branchTaken s 0o203 = true ↔ unsignedValue bytemode src ≤ unsignedValue bytemode dst

theorem codes_congr {s t : Cpu} (h : s.regs = t.regs) : codes s = codes t := by
  unfold codes flagSet
  rw [h]

/-- The codes of a difference order the operands. -/
theorem branchesOrder_of_codes {s t : Cpu} (h : s.ctl.ccFrozen = false) (x y : Word)
    (bytemode : Bool) (ht : codes t = codes (aluSub s x y bytemode).2) :
    BranchesOrder t bytemode x y := by
  have hr : unsignedValue bytemode (aluSub s x y bytemode).1 =
      (unsignedValue bytemode x + 2 ^ operandWidth bytemode - unsignedValue bytemode y) %
        2 ^ operandWidth bytemode := by
    rw [aluSub_eq, masked_value, sub_value]
  rw [codes_aluSub h] at ht
  generalize (aluSub s x y bytemode).1 = r at hr ht
  have hx := unsignedValue_lt bytemode x
  have hy := unsignedValue_lt bytemode y
  have sx := signedValue_cases bytemode x
  have sy := signedValue_cases bytemode y
  have sr := signedValue_cases bytemode r
  have hn : flagSet t pswN = decide (signedValue bytemode r < 0) := congrArg Codes.n ht
  have hz : flagSet t pswZ = decide (unsignedValue bytemode r = 0) := congrArg Codes.z ht
  have hv : flagSet t pswV =
      decide (Overflows bytemode (signedValue bytemode x - signedValue bytemode y)) :=
    congrArg Codes.v ht
  have hc : flagSet t pswC = decide (unsignedValue bytemode x < unsignedValue bytemode y) :=
    congrArg Codes.c ht
  -- Z tests equality, N against V the signed order, C the unsigned order
  have heq : unsignedValue bytemode r = 0 ↔ signedValue bytemode x = signedValue bytemode y := by
    cases bytemode <;> simp only [operandWidth, if_true, Bool.false_eq_true, if_false,
      Int.reducePow] at hr hx hy sx sy <;> omega
  have hlt : ¬(signedValue bytemode r < 0 ↔
      Overflows bytemode (signedValue bytemode x - signedValue bytemode y)) ↔
      signedValue bytemode x < signedValue bytemode y := by
    unfold Overflows
    cases bytemode <;> simp only [operandWidth, if_true, Bool.false_eq_true, if_false,
      Nat.reduceSub, Int.reducePow] at hr hx hy sx sy sr ⊢ <;> omega
  have hueq : unsignedValue bytemode r = 0 ↔ unsignedValue bytemode x = unsignedValue bytemode y := by
    cases bytemode <;> simp only [operandWidth, if_true, Bool.false_eq_true, if_false] at hr hx hy <;>
      omega
  have hz' : flagSet t pswZ = true ↔ signedValue bytemode x = signedValue bytemode y := by
    rw [hz, decide_eq_true_eq, heq]
  have huz : flagSet t pswZ = true ↔ unsignedValue bytemode x = unsignedValue bytemode y := by
    rw [hz, decide_eq_true_eq, hueq]
  have hnv : (flagSet t pswN != flagSet t pswV) = true ↔
      signedValue bytemode x < signedValue bytemode y := by
    rw [hn, hv, bne_iff_ne, ne_eq, decide_eq_decide, hlt]
  have hnv' : (flagSet t pswN == flagSet t pswV) = !(flagSet t pswN != flagSet t pswV) := by
    rw [bne, Bool.not_not]
  have hc' : flagSet t pswC = true ↔ unsignedValue bytemode x < unsignedValue bytemode y := by
    rw [hc, decide_eq_true_eq]
  constructor
  case beq => exact hz'
  case bne =>
    show (!flagSet t pswZ) = true ↔ _
    rw [Bool.not_eq_true', ← Bool.not_eq_true, hz']
  case blt => exact hnv
  case bge =>
    show (flagSet t pswN == flagSet t pswV) = true ↔ _
    rw [hnv', Bool.not_eq_true', ← Bool.not_eq_true, hnv, not_lt]
  case bgt =>
    show (!(flagSet t pswZ || (flagSet t pswN != flagSet t pswV))) = true ↔ _
    rw [Bool.not_eq_true', ← Bool.not_eq_true, Bool.or_eq_true, hz', hnv]
    omega
  case ble =>
    show (flagSet t pswZ || (flagSet t pswN != flagSet t pswV)) = true ↔ _
    rw [Bool.or_eq_true, hz', hnv]
    omega
  case blo => exact hc'
  case bhis =>
    show (!flagSet t pswC) = true ↔ _
    rw [Bool.not_eq_true', ← Bool.not_eq_true, hc', not_lt]
  case bhi =>
    show (!flagSet t pswC && !flagSet t pswZ) = true ↔ _
    rw [Bool.and_eq_true, Bool.not_eq_true', Bool.not_eq_true', ← Bool.not_eq_true,
      ← Bool.not_eq_true, hc', huz]
    omega
  case blos =>
    show (flagSet t pswC || flagSet t pswZ) = true ↔ _
    rw [Bool.or_eq_true, hc', huz]
    omega

/-! ## The single-operand instructions -/

/-- The carry as a number. -/
def carryIn (s : Cpu) : Word := if flagSet s pswC then 1 else 0

theorem setFlag_setFlag (s : Cpu) (flag : Word) (a b : Bool) :
    setFlag (setFlag s flag a) flag b = setFlag s flag b := by
  have hor (p : Word) : (p &&& ~~~flag) ||| flag = p ||| flag := by
    ext i hi
    simp only [BitVec.getElem_or, BitVec.getElem_and, BitVec.getElem_not]
    cases flag[i] <;> simp
  have hand (p : Word) : (p ||| flag) &&& ~~~flag = p &&& ~~~flag := by
    ext i hi
    simp only [BitVec.getElem_or, BitVec.getElem_and, BitVec.getElem_not]
    cases flag[i] <;> simp
  unfold setFlag
  cases hf : s.ctl.ccFrozen
  · cases a <;> cases b <;> simp [hf, hor, hand, BitVec.and_assoc, BitVec.or_assoc]
  · simp [hf]

/-- Setting the carry to what it is changes nothing. -/
theorem setC_flagSet (s : Cpu) : setFlag s pswC (flagSet s pswC) = s := by
  have hbit : flagSet s pswC = s.regs.psw.getLsbD 0 := by
    rw [Bool.eq_iff_iff, ← BitMask.and_twoPow_ne_zero (by decide)]
    exact decide_eq_true_iff
  have hpsw (p : Word) :
      (if p.getLsbD 0 = true then p ||| pswC else p &&& ~~~pswC) = p := by
    ext i hi
    by_cases h0 : i = 0
    · subst h0
      cases hb : p.getLsbD 0 <;> simp_all [BitVec.getLsbD_eq_getElem]
    · have hone : (pswC : Word)[i] = false := by simp [h0]
      split
      · rw [BitVec.getElem_or, hone, Bool.or_false]
      · rw [BitVec.getElem_and, BitVec.getElem_not, hone, Bool.not_false, Bool.and_true]
  unfold setFlag
  split
  · rfl
  · rw [hbit, hpsw]

/-- INC and DEC put back the carry their adder would set. -/
def keepCarry (s : Cpu) (out : Word × Cpu) : Word × Cpu :=
  (out.1, setFlag out.2 pswC (flagSet s pswC))

/-- A single-operand instruction that computes its result with `f`. -/
def adderOp (word : Word) (bytemode : Bool) (f : Cpu → Word → Word × Cpu) : M Unit := do
  let dst ← decodeOperand (dstSpec word) bytemode
  let d ← readOperand dst bytemode
  let result ← liftCpu fun s => f s d
  writeOperand dst bytemode result

theorem singleOp_eq_adderOp {base : BitVec 9} {bytemode : Bool} {f : Cpu → Word → Word × Cpu}
    (h : ∀ s d, singleOpAlu s base d bytemode = ((f s d).1, true, (f s d).2)) (word : Word) :
    singleOp word base bytemode = adderOp word bytemode f := by
  have halu (d : Word) : (liftCpu fun s =>
      let out := singleOpAlu s base d bytemode
      ((out.1, out.2.1), out.2.2)) = liftCpu fun s => (((f s d).1, true), (f s d).2) := by
    congr 1
    funext s
    simp only [h]
  unfold singleOp adderOp
  simp only [halu]
  rfl

/-! ### The five instructions -/

section
variable (s : Cpu) (d : Word) (bytemode : Bool)

theorem carryIn_value : unsignedValue bytemode (carryIn s) = if flagSet s pswC then 1 else 0 := by
  unfold carryIn
  split <;> cases bytemode <;> rfl

theorem carryIn_signed : signedValue bytemode (carryIn s) = if flagSet s pswC then 1 else 0 := by
  unfold carryIn
  split <;> cases bytemode <;> rfl

/-- Tests of the operand field against the extreme values of its width. -/
theorem field_eq {v : Word} : d &&& widthMask bytemode = v ↔ unsignedValue bytemode d = v.toNat := by
  rw [← mask_toNat]
  exact BitVec.toNat_inj.symm

theorem adc_eq : singleOpAlu s 0o055 d bytemode =
    ((aluAdd s d (carryIn s) bytemode).1, true, (aluAdd s d (carryIn s) bytemode).2) := by
  have hd := unsignedValue_lt bytemode d
  have hs := signedValue_cases bytemode d
  have hc := carryIn_value s bytemode
  have hcs := carryIn_signed s bytemode
  have hv : decide (flagSet s pswC = true ∧ d &&& widthMask bytemode = widthMsb bytemode - 1) =
      decide (Overflows bytemode (signedValue bytemode d + signedValue bytemode (carryIn s))) := by
    rw [decide_eq_decide, field_eq, hcs]
    unfold Overflows
    cases bytemode <;> cases flagSet s pswC <;> simp [operandWidth, widthMsb] at hd hs ⊢ <;> omega
  have hcarry : decide (flagSet s pswC = true ∧ d &&& widthMask bytemode = widthMask bytemode) =
      decide (2 ^ operandWidth bytemode ≤
        unsignedValue bytemode d + unsignedValue bytemode (carryIn s)) := by
    rw [decide_eq_decide, field_eq, hc]
    cases bytemode <;> cases flagSet s pswC <;> simp [operandWidth, widthMask] at hd ⊢ <;> omega
  have h : singleOpAlu s 0o055 d bytemode =
      ((d + carryIn s) &&& widthMask bytemode, true,
        setFlag (setFlag (setNz s ((d + carryIn s) &&& widthMask bytemode) bytemode) pswV
          (flagSet s pswC = true ∧ d &&& widthMask bytemode = widthMsb bytemode - 1)) pswC
          (flagSet s pswC = true ∧ d &&& widthMask bytemode = widthMask bytemode)) := rfl
  rw [h, hv, hcarry, aluAdd_eq]

theorem sbc_eq : singleOpAlu s 0o056 d bytemode =
    ((aluSub s d (carryIn s) bytemode).1, true, (aluSub s d (carryIn s) bytemode).2) := by
  have hd := unsignedValue_lt bytemode d
  have hs := signedValue_cases bytemode d
  have hc := carryIn_value s bytemode
  have hcs := carryIn_signed s bytemode
  have hv : decide (flagSet s pswC = true ∧ d &&& widthMask bytemode = widthMsb bytemode) =
      decide (Overflows bytemode (signedValue bytemode d - signedValue bytemode (carryIn s))) := by
    rw [decide_eq_decide, field_eq, hcs]
    unfold Overflows
    cases bytemode <;> cases flagSet s pswC <;> simp [operandWidth, widthMsb] at hd hs ⊢ <;> omega
  have hcarry : decide (flagSet s pswC = true ∧ d &&& widthMask bytemode = 0) =
      decide (unsignedValue bytemode d < unsignedValue bytemode (carryIn s)) := by
    rw [decide_eq_decide, field_eq, hc]
    cases flagSet s pswC <;> simp
  have h : singleOpAlu s 0o056 d bytemode =
      ((d - carryIn s) &&& widthMask bytemode, true,
        setFlag (setFlag (setNz s ((d - carryIn s) &&& widthMask bytemode) bytemode) pswV
          (flagSet s pswC = true ∧ d &&& widthMask bytemode = widthMsb bytemode)) pswC
          (flagSet s pswC = true ∧ d &&& widthMask bytemode = 0)) := rfl
  rw [h, hv, hcarry, aluSub_eq]

theorem neg_eq : singleOpAlu s 0o054 d bytemode =
    ((aluSub s 0 d bytemode).1, true, (aluSub s 0 d bytemode).2) := by
  have hd := unsignedValue_lt bytemode d
  have hs := signedValue_cases bytemode d
  have h0 : unsignedValue bytemode 0 = 0 := by cases bytemode <;> rfl
  have h0s : signedValue bytemode 0 = 0 := by cases bytemode <;> rfl
  have hr : unsignedValue bytemode (0 - d) =
      (2 ^ operandWidth bytemode - unsignedValue bytemode d) % 2 ^ operandWidth bytemode := by
    rw [sub_value, h0, Nat.zero_add]
  have hv : decide ((0 - d) &&& widthMask bytemode = widthMsb bytemode) =
      decide (Overflows bytemode (signedValue bytemode 0 - signedValue bytemode d)) := by
    rw [decide_eq_decide, field_eq, h0s, hr]
    unfold Overflows
    cases bytemode <;> simp [operandWidth, widthMsb] at hd hs ⊢ <;> omega
  have hcarry : decide ((0 - d) &&& widthMask bytemode ≠ 0) =
      decide (unsignedValue bytemode 0 < unsignedValue bytemode d) := by
    rw [decide_eq_decide, ne_eq, field_eq, h0, hr]
    cases bytemode <;> simp [operandWidth] at hd ⊢ <;> omega
  have h : singleOpAlu s 0o054 d bytemode =
      ((0 - d) &&& widthMask bytemode, true,
        setFlag (setFlag (setNz s ((0 - d) &&& widthMask bytemode) bytemode) pswV
          ((0 - d) &&& widthMask bytemode = widthMsb bytemode)) pswC
          ((0 - d) &&& widthMask bytemode ≠ 0)) := rfl
  rw [h, hv, hcarry, aluSub_eq]

/-- Codes N, Z and V of an adder, with the carry put back. -/
theorem keepCarry_eq (result : Word) (v c : Bool) :
    keepCarry s (result, setFlag (setFlag (setNz s result bytemode) pswV v) pswC c) =
      (result, setFlag (setNz s result bytemode) pswV v) := by
  have hkeep : flagSet s pswC = flagSet (setFlag (setNz s result bytemode) pswV v) pswC := by
    rw [flagSet_setFlag_of_disjoint (by decide), setNz, flagSet_setFlag_of_disjoint (by decide),
      flagSet_setFlag_of_disjoint (by decide)]
  unfold keepCarry
  rw [setFlag_setFlag, hkeep, setC_flagSet]

theorem inc_eq : singleOpAlu s 0o052 d bytemode =
    ((keepCarry s (aluAdd s d 1 bytemode)).1, true, (keepCarry s (aluAdd s d 1 bytemode)).2) := by
  have hd := unsignedValue_lt bytemode d
  have hs := signedValue_cases bytemode d
  have h1 : signedValue bytemode 1 = 1 := by cases bytemode <;> rfl
  have hv : decide (d &&& widthMask bytemode = widthMsb bytemode - 1) =
      decide (Overflows bytemode (signedValue bytemode d + signedValue bytemode 1)) := by
    rw [decide_eq_decide, field_eq, h1]
    unfold Overflows
    cases bytemode <;> simp [operandWidth, widthMsb] at hd hs ⊢ <;> omega
  have h : singleOpAlu s 0o052 d bytemode =
      ((d + 1) &&& widthMask bytemode, true,
        setFlag (setNz s ((d + 1) &&& widthMask bytemode) bytemode) pswV
          (d &&& widthMask bytemode = widthMsb bytemode - 1)) := rfl
  rw [h, hv, aluAdd_eq, keepCarry_eq]

theorem dec_eq : singleOpAlu s 0o053 d bytemode =
    ((keepCarry s (aluSub s d 1 bytemode)).1, true, (keepCarry s (aluSub s d 1 bytemode)).2) := by
  have hd := unsignedValue_lt bytemode d
  have hs := signedValue_cases bytemode d
  have h1 : signedValue bytemode 1 = 1 := by cases bytemode <;> rfl
  have hv : decide (d &&& widthMask bytemode = widthMsb bytemode) =
      decide (Overflows bytemode (signedValue bytemode d - signedValue bytemode 1)) := by
    rw [decide_eq_decide, field_eq, h1]
    unfold Overflows
    cases bytemode <;> simp [operandWidth, widthMsb] at hd hs ⊢ <;> omega
  have h : singleOpAlu s 0o053 d bytemode =
      ((d - 1) &&& widthMask bytemode, true,
        setFlag (setNz s ((d - 1) &&& widthMask bytemode) bytemode) pswV
          (d &&& widthMask bytemode = widthMsb bytemode)) := rfl
  rw [h, hv, aluSub_eq, keepCarry_eq]

end

/-! ## Instructions -/

/-- C is the carry out of an addition, V its signed overflow. -/
structure AddCodes (t : Cpu) (bytemode : Bool) (x y : Word) : Prop where
  c : flagSet t pswC = true ↔
    2 ^ operandWidth bytemode ≤ unsignedValue bytemode x + unsignedValue bytemode y
  v : flagSet t pswV = true ↔ Overflows bytemode (signedValue bytemode x + signedValue bytemode y)

/-- C is the borrow of a subtraction, V its signed overflow. -/
structure SubCodes (t : Cpu) (bytemode : Bool) (x y : Word) : Prop where
  c : flagSet t pswC = true ↔ unsignedValue bytemode x < unsignedValue bytemode y
  v : flagSet t pswV = true ↔ Overflows bytemode (signedValue bytemode x - signedValue bytemode y)

theorem addCodes_of_codes {s t : Cpu} (h : s.ctl.ccFrozen = false) (x y : Word) (bytemode : Bool)
    (ht : codes t = codes (aluAdd s x y bytemode).2) : AddCodes t bytemode x y := by
  rw [codes_aluAdd h] at ht
  constructor
  · rw [show flagSet t pswC = _ from congrArg Codes.c ht, decide_eq_true_eq]
  · rw [show flagSet t pswV = _ from congrArg Codes.v ht, decide_eq_true_eq]

theorem subCodes_of_codes {s t : Cpu} (h : s.ctl.ccFrozen = false) (x y : Word) (bytemode : Bool)
    (ht : codes t = codes (aluSub s x y bytemode).2) : SubCodes t bytemode x y := by
  rw [codes_aluSub h] at ht
  constructor
  · rw [show flagSet t pswC = _ from congrArg Codes.c ht, decide_eq_true_eq]
  · rw [show flagSet t pswV = _ from congrArg Codes.v ht, decide_eq_true_eq]

section
variable {s : Cpu} {word : Word} {m m' m₁ : Machine} {o : DoubleOp}

/-- The codes an instruction sets are still free when its operands are read. -/
theorem Executed.operands_free {bytemode : Bool} (h : Executed s word m m')
    (ho : decodeDouble word bytemode m = .ok o m₁) : m₁.cpu.ctl.ccFrozen = false := by
  have hk := (status_operand (operand_decodeDouble word bytemode)).of_ok ho
  rw [hk.frozen, h.start.2.1]

/-- A comparison ends with the codes of its difference. -/
theorem cmp_codes {bytemode : Bool} (h : Executed s word m m')
    (hword : word.extractLsb' 12 4 = if bytemode then 0o12 else 0o02)
    (ho : decodeDouble word bytemode m = .ok o m₁) :
    codes (cpuStep s).cpu = codes (aluSub m₁.cpu o.s o.d bytemode).2 := by
  have hrun := h.executed
  rw [execute_cmp hword, opCmp, bind_ok ho] at hrun
  cases hrun
  exact codes_congr h.regs

/-- A word stored after its codes are set leaves them, unless it is stored to the PSW. -/
theorem codes_store {f : Cpu → Word × Cpu} {dst : Operand}
    (hrun : (do
      let result ← liftCpu f
      writeOperand dst false result : M Unit) m₁ = .ok () m') :
    m'.cpu.ctl.ccFrozen = true ∨ codes m'.cpu = codes (f m₁.cpu).2 := by
  let m2 : Machine := { m₁ with cpu := (f m₁.cpu).2 }
  have hw : writeOperand dst false (f m₁.cpu).1 m2 = .ok () m' := hrun
  have hk := (status_writeOperand dst false _).of_ok hw
  obtain hf | hp := hk.psw
  · exact .inl hf
  · refine .inr ?_
    unfold codes flagSet
    rw [hp]

theorem add_codes (h : Executed s word m m') (hword : word.extractLsb' 12 4 = 0o06)
    (ho : decodeDouble word false m = .ok o m₁) :
    m'.cpu.ctl.ccFrozen = true ∨ AddCodes (cpuStep s).cpu false o.d o.s := by
  have hrun := h.executed
  rw [execute_add hword, opAdd, bind_ok ho] at hrun
  refine (codes_store hrun).imp id fun hc => ?_
  exact addCodes_of_codes (h.operands_free ho) _ _ _ ((codes_congr h.regs).trans hc)

theorem sub_codes (h : Executed s word m m') (hword : word.extractLsb' 12 4 = 0o16)
    (ho : decodeDouble word false m = .ok o m₁) :
    m'.cpu.ctl.ccFrozen = true ∨ SubCodes (cpuStep s).cpu false o.d o.s := by
  have hrun := h.executed
  rw [execute_sub hword, opSub, bind_ok ho] at hrun
  refine (codes_store hrun).imp id fun hc => ?_
  exact subCodes_of_codes (h.operands_free ho) _ _ _ ((codes_congr h.regs).trans hc)

end

theorem execute_adder {base : BitVec 9} (hlo : 0o050 ≤ base) (hhi : base ≤ 0o063)
    {f : Bool → Cpu → Word → Word × Cpu}
    (h : ∀ s d bytemode, singleOpAlu s base d bytemode =
      ((f bytemode s d).1, true, (f bytemode s d).2))
    (word : Word) (hbase : word.extractLsb' 6 9 = base) :
    execute word = adderOp word (word.getLsbD 15) (f (word.getLsbD 15)) := by
  rw [execute_single hbase hlo hhi]
  exact singleOp_eq_adderOp (fun s d => h s d _) word

/-- Flags and conditional branches agree with the order and the arithmetic of integers, in both
widths; the single-operand instructions are additions and subtractions of the same adders. Only an
ADD or SUB whose own store loads the PSW, which freezes the codes, leaves others. -/
theorem flags_agree_with_order :
    (∀ s word bytemode m m' o m₁, Executed s word m m' →
      word.extractLsb' 12 4 = (if bytemode then 0o12 else 0o02) →
      decodeDouble word bytemode m = .ok o m₁ →
      BranchesOrder (cpuStep s).cpu bytemode o.s o.d) ∧
    (∀ s x y bytemode, s.ctl.ccFrozen = false →
      AddCodes (aluAdd s x y bytemode).2 bytemode x y ∧
      SubCodes (aluSub s x y bytemode).2 bytemode x y) ∧
    (∀ s word m m' o m₁, Executed s word m m' → decodeDouble word false m = .ok o m₁ →
      (word.extractLsb' 12 4 = 0o06 →
        m'.cpu.ctl.ccFrozen = true ∨ AddCodes (cpuStep s).cpu false o.d o.s) ∧
      (word.extractLsb' 12 4 = 0o16 →
        m'.cpu.ctl.ccFrozen = true ∨ SubCodes (cpuStep s).cpu false o.d o.s)) ∧
    ∀ word : Word, let bytemode := word.getLsbD 15
      (word.extractLsb' 6 9 = 0o055#9 →
        execute word = adderOp word bytemode fun s d => aluAdd s d (carryIn s) bytemode) ∧
      (word.extractLsb' 6 9 = 0o056#9 →
        execute word = adderOp word bytemode fun s d => aluSub s d (carryIn s) bytemode) ∧
      (word.extractLsb' 6 9 = 0o052#9 →
        execute word = adderOp word bytemode fun s d => keepCarry s (aluAdd s d 1 bytemode)) ∧
      (word.extractLsb' 6 9 = 0o053#9 →
        execute word = adderOp word bytemode fun s d => keepCarry s (aluSub s d 1 bytemode)) ∧
      (word.extractLsb' 6 9 = 0o054#9 →
        execute word = adderOp word bytemode fun s d => aluSub s 0 d bytemode) := by
  refine ⟨?_, ?_, ?_, ?_⟩
  · intro s word bytemode m m' o m1 h hword ho
    exact branchesOrder_of_codes (h.operands_free ho) _ _ _ (cmp_codes h hword ho)
  · intro s x y bytemode h
    exact ⟨addCodes_of_codes h x y bytemode rfl, subCodes_of_codes h x y bytemode rfl⟩
  · intro s word m m' o m1 h ho
    exact ⟨fun hword => add_codes h hword ho, fun hword => sub_codes h hword ho⟩
  · intro word
    refine ⟨?_, ?_, ?_, ?_, ?_⟩
    · exact execute_adder (by decide) (by decide) (fun s d b => adc_eq s d b) word
    · exact execute_adder (by decide) (by decide) (fun s d b => sbc_eq s d b) word
    · exact execute_adder (by decide) (by decide) (fun s d b => inc_eq s d b) word
    · exact execute_adder (by decide) (by decide) (fun s d b => dec_eq s d b) word
    · exact execute_adder (by decide) (by decide) (fun s d b => neg_eq s d b) word

/-- `CMP R0, R1` or `ADD R0, R1` at location 0, the lowest word against one. -/
def twoWords (word : Word) : Cpu :=
  { cpuCreate with
    regs := { cpuCreate.regs with r := fun i => if i = 0 then 0o100000 else if i = 1 then 1 else 0 }
    mem := fun i => if i = 0 then word else 0 }

theorem lowest_below_one : BranchesOrder (cpuStep (twoWords 0o020001)).cpu false 0o100000 1 ∧
    AddCodes (cpuStep (twoWords 0o060001)).cpu false 1 0o100000 := by
  constructor
  · exact flags_agree_with_order.1 (twoWords 0o020001) 0o020001 false _ _ ⟨.reg 1, 0o100000, 1⟩ _
      ⟨rfl, rfl, rfl, rfl, rfl⟩ rfl rfl
  · have h := (flags_agree_with_order.2.2.1 (twoWords 0o060001) 0o060001 _ _
      ⟨.reg 1, 0o100000, 1⟩ _ ⟨rfl, rfl, rfl, rfl, rfl⟩ rfl).1 rfl
    exact h.resolve_left Bool.false_ne_true

end Pdp11
