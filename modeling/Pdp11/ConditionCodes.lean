import Pdp11.Completion
import Mathlib.Tactic.NormNum

namespace Pdp11

open FaultState

/-! The condition codes as integer arithmetic leaves them. -/

/-! ## The four codes -/

/-- The condition codes of a PSW, one by one. -/
@[ext] structure Codes where
  n : Bool
  z : Bool
  v : Bool
  c : Bool
  deriving DecidableEq, Repr

def codes (s : Cpu) : Codes := ⟨flagSet s pswN, flagSet s pswZ, flagSet s pswV, flagSet s pswC⟩

section
variable {s : Cpu} {flag other : Word} {on : Bool}

@[simp] theorem setFlag_frozen : (setFlag s flag on).ctl.ccFrozen = s.ctl.ccFrozen := by
  unfold setFlag
  split <;> rfl

@[simp] theorem setFlag_r : (setFlag s flag on).regs.r = s.regs.r := by
  unfold setFlag
  split <;> rfl

@[simp] theorem setNz_frozen (result : Word) (bytemode : Bool) :
    (setNz s result bytemode).ctl.ccFrozen = s.ctl.ccFrozen := by
  rw [setNz, setFlag_frozen, setFlag_frozen]

theorem flagSet_setFlag (h : s.ctl.ccFrozen = false) (hf : flag ≠ 0) :
    flagSet (setFlag s flag on) flag = on := by
  unfold flagSet setFlag
  rw [if_neg (by simp [h])]
  cases on with
  | true =>
    have hand : (s.regs.psw ||| flag) &&& flag = flag := by
      ext i hi
      simp only [BitVec.getElem_and, BitVec.getElem_or]
      cases flag[i] <;> simp
    simpa [hand] using hf
  | false =>
    have hand : (s.regs.psw &&& ~~~flag) &&& flag = 0 := by
      rw [BitVec.and_assoc, BitVec.not_and_self]
      exact BitVec.and_zero
    simp [hand]

theorem flagSet_setFlag_of_disjoint (hf : flag &&& other = 0) :
    flagSet (setFlag s flag on) other = flagSet s other := by
  unfold flagSet setFlag
  split
  · rfl
  cases on with
  | true => simp only [if_true, BitMask.or_and_eq _ hf]
  | false => simp only [Bool.false_eq_true, if_false, BitMask.and_not_and_eq _ hf]

/-- Setting one code leaves the three others. -/
theorem codes_setN (h : s.ctl.ccFrozen = false) :
    codes (setFlag s pswN on) = { codes s with n := on } := by
  ext <;> simp only [codes]
  · exact flagSet_setFlag h (by decide)
  all_goals exact flagSet_setFlag_of_disjoint (by decide)

theorem codes_setZ (h : s.ctl.ccFrozen = false) :
    codes (setFlag s pswZ on) = { codes s with z := on } := by
  ext <;> simp only [codes]
  case z => exact flagSet_setFlag h (by decide)
  all_goals exact flagSet_setFlag_of_disjoint (by decide)

theorem codes_setV (h : s.ctl.ccFrozen = false) :
    codes (setFlag s pswV on) = { codes s with v := on } := by
  ext <;> simp only [codes]
  case v => exact flagSet_setFlag h (by decide)
  all_goals exact flagSet_setFlag_of_disjoint (by decide)

theorem codes_setC (h : s.ctl.ccFrozen = false) :
    codes (setFlag s pswC on) = { codes s with c := on } := by
  ext <;> simp only [codes]
  case c => exact flagSet_setFlag h (by decide)
  all_goals exact flagSet_setFlag_of_disjoint (by decide)

end

/-! ## Operands as integers -/

/-- Byte operations work in an 8-bit field, words in 16. -/
def operandWidth (bytemode : Bool) : ℕ := if bytemode then 8 else 16

def unsignedValue (bytemode : Bool) (x : Word) : ℕ := (x.setWidth (operandWidth bytemode)).toNat

def signedValue (bytemode : Bool) (x : Word) : ℤ := (x.setWidth (operandWidth bytemode)).toInt

theorem unsignedValue_eq (bytemode : Bool) (x : Word) :
    unsignedValue bytemode x = x.toNat % 2 ^ operandWidth bytemode := BitVec.toNat_setWidth _ _

theorem unsignedValue_lt (bytemode : Bool) (x : Word) :
    unsignedValue bytemode x < 2 ^ operandWidth bytemode := BitVec.isLt _

theorem signedValue_eq (bytemode : Bool) (x : Word) :
    signedValue bytemode x =
      if 2 * unsignedValue bytemode x < 2 ^ operandWidth bytemode then (unsignedValue bytemode x : ℤ)
      else (unsignedValue bytemode x : ℤ) - 2 ^ operandWidth bytemode := by
  rw [signedValue, BitVec.toInt_eq_toNat_cond]
  rfl

theorem signedValue_cases (bytemode : Bool) (x : Word) :
    (2 * unsignedValue bytemode x < 2 ^ operandWidth bytemode ∧
        signedValue bytemode x = unsignedValue bytemode x) ∨
      (2 ^ operandWidth bytemode ≤ 2 * unsignedValue bytemode x ∧
        signedValue bytemode x =
          (unsignedValue bytemode x : ℤ) - 2 ^ operandWidth bytemode) := by
  rw [signedValue_eq]
  split
  · exact .inl ⟨‹_›, rfl⟩
  · exact .inr ⟨by omega, rfl⟩

theorem mask_toNat (bytemode : Bool) (x : Word) :
    (x &&& widthMask bytemode).toNat = unsignedValue bytemode x := by
  rw [unsignedValue_eq, BitVec.toNat_and]
  cases bytemode with
  | true => exact Nat.and_two_pow_sub_one_eq_mod x.toNat 8
  | false => exact Nat.and_two_pow_sub_one_eq_mod x.toNat 16

theorem widthMsb_eq (bytemode : Bool) :
    widthMsb bytemode = BitVec.twoPow 16 (operandWidth bytemode - 1) := by
  cases bytemode <;> rfl

theorem widthCarry_eq (bytemode : Bool) :
    widthCarry bytemode = BitVec.twoPow 32 (operandWidth bytemode) := by
  cases bytemode <;> rfl

/-- The sign bit of a field of the operand width. -/
def signBit (bytemode : Bool) (x : Word) : Bool := x.getLsbD (operandWidth bytemode - 1)

theorem and_msb_ne_zero (bytemode : Bool) (x : Word) :
    decide (x &&& widthMsb bytemode ≠ 0) = signBit bytemode x := by
  have hw : operandWidth bytemode - 1 < 16 := by cases bytemode <;> decide
  rw [Bool.eq_iff_iff, decide_eq_true_eq, widthMsb_eq]
  exact BitMask.and_twoPow_ne_zero hw

theorem signBit_eq (bytemode : Bool) (x : Word) :
    signBit bytemode x = decide (signedValue bytemode x < 0) := by
  have hx := unsignedValue_lt bytemode x
  rw [signedValue_eq, signBit, ← BitVec.testBit_toNat, Nat.testBit_eq_decide_div_mod_eq]
  rw [unsignedValue_eq] at hx ⊢
  cases bytemode <;> simp only [operandWidth, if_true, Bool.false_eq_true, if_false] at hx ⊢ <;>
    congr 1 <;> split <;> simp only [eq_iff_iff] <;> omega

/-- A signed integer that does not fit the operand width. -/
def Overflows (bytemode : Bool) (i : ℤ) : Prop :=
  i < -2 ^ (operandWidth bytemode - 1) ∨ 2 ^ (operandWidth bytemode - 1) ≤ i

instance (bytemode : Bool) (i : ℤ) : Decidable (Overflows bytemode i) :=
  inferInstanceAs (Decidable (_ ∨ _))

/-! ## The adder -/

section
variable (bytemode : Bool)

theorem not_value (y : Word) :
    unsignedValue bytemode (~~~y) =
      2 ^ operandWidth bytemode - 1 - unsignedValue bytemode y := by
  have hy := y.isLt
  rw [unsignedValue_eq, unsignedValue_eq, BitVec.toNat_not]
  cases bytemode <;> simp only [operandWidth, if_true, Bool.false_eq_true, if_false] <;> omega

/-- Two words of one value have one field. -/
theorem mask_eq {x y : Word} (h : unsignedValue bytemode x = unsignedValue bytemode y) :
    x &&& widthMask bytemode = y &&& widthMask bytemode := by
  apply BitVec.eq_of_toNat_eq
  rw [mask_toNat, mask_toNat, h]

theorem masked_value (x : Word) :
    unsignedValue bytemode (x &&& widthMask bytemode) = unsignedValue bytemode x := by
  rw [unsignedValue_eq, mask_toNat]
  exact Nat.mod_eq_of_lt (unsignedValue_lt bytemode x)

theorem sum_value (sum : BitVec 32) :
    unsignedValue bytemode (sum.setWidth 16) = sum.toNat % 2 ^ operandWidth bytemode := by
  rw [unsignedValue_eq, BitVec.toNat_setWidth]
  cases bytemode <;> simp only [operandWidth, if_true, Bool.false_eq_true, if_false] <;> omega

theorem add_value (x y : Word) :
    unsignedValue bytemode (x + y) =
      (unsignedValue bytemode x + unsignedValue bytemode y) % 2 ^ operandWidth bytemode := by
  rw [unsignedValue, BitVec.setWidth_add _ _ (by cases bytemode <;> decide)]
  exact BitVec.toNat_add _ _

theorem sub_value (x y : Word) :
    unsignedValue bytemode (x - y) =
      (unsignedValue bytemode x + 2 ^ operandWidth bytemode - unsignedValue bytemode y) %
        2 ^ operandWidth bytemode := by
  have hx := unsignedValue_lt bytemode x
  have hy := unsignedValue_lt bytemode y
  have hsub : (x - y).toNat = (2 ^ 16 - y.toNat + x.toNat) % 2 ^ 16 := BitVec.toNat_sub x y
  rw [unsignedValue_eq, hsub]
  rw [unsignedValue_eq] at hx hy
  rw [unsignedValue_eq, unsignedValue_eq]
  have hy' := y.isLt
  cases bytemode <;> simp only [operandWidth, if_true, Bool.false_eq_true, if_false] at hx hy ⊢ <;>
    omega

theorem sum_carry {sum : BitVec 32} (h : sum.toNat < 2 * 2 ^ operandWidth bytemode) :
    decide (sum &&& widthCarry bytemode ≠ 0) = decide (2 ^ operandWidth bytemode ≤ sum.toNat) := by
  have hw : operandWidth bytemode < 32 := by cases bytemode <;> decide
  have hbit : sum.getLsbD (operandWidth bytemode) =
      decide (2 ^ operandWidth bytemode ≤ sum.toNat) := by
    rw [← BitVec.testBit_toNat, Nat.testBit_eq_decide_div_mod_eq]
    congr 1
    rw [eq_iff_iff]
    cases bytemode <;> simp only [operandWidth, if_true, Bool.false_eq_true, if_false] at h ⊢ <;>
      omega
  rw [← hbit, widthCarry_eq, Bool.eq_iff_iff, decide_eq_true_eq]
  exact BitMask.and_twoPow_ne_zero hw

theorem setNz_zero (x : Word) :
    decide (x &&& widthMask bytemode = 0) = decide (unsignedValue bytemode x = 0) := by
  congr 1
  rw [eq_iff_iff, ← mask_toNat]
  exact BitVec.toNat_inj.symm

/-- Operands of one sign and a sum of the other are a signed overflow. -/
theorem add_overflow {x y r : Word}
    (hr : unsignedValue bytemode r =
      (unsignedValue bytemode x + unsignedValue bytemode y) % 2 ^ operandWidth bytemode) :
    signBit bytemode (~~~(x ^^^ y) &&& (x ^^^ r)) =
      decide (Overflows bytemode (signedValue bytemode x + signedValue bytemode y)) := by
  have hbits : signBit bytemode (~~~(x ^^^ y) &&& (x ^^^ r)) =
      (!(signBit bytemode x ^^ signBit bytemode y) &&
        (signBit bytemode x ^^ signBit bytemode r)) := by
    cases bytemode <;> simp [signBit, operandWidth]
  rw [hbits, signBit_eq, signBit_eq, signBit_eq]
  have hx := unsignedValue_lt bytemode x
  have hy := unsignedValue_lt bytemode y
  have sx := signedValue_cases bytemode x
  have sy := signedValue_cases bytemode y
  have sr := signedValue_cases bytemode r
  rw [Bool.eq_iff_iff]
  simp only [Bool.and_eq_true, Bool.not_eq_true', bne_eq_false_iff_eq, bne_iff_ne, ne_eq,
    decide_eq_decide, decide_eq_true_eq]
  unfold Overflows
  cases bytemode <;>
    simp only [operandWidth, if_true, Bool.false_eq_true, if_false, Nat.reduceSub,
      Int.reducePow] at hr hx hy sx sy sr ⊢ <;>
    omega

/-- Operands of two signs and a difference of the second's are a signed overflow. -/
theorem sub_overflow {x y r : Word}
    (hr : unsignedValue bytemode r =
      (unsignedValue bytemode x + 2 ^ operandWidth bytemode - unsignedValue bytemode y) %
        2 ^ operandWidth bytemode) :
    signBit bytemode ((x ^^^ y) &&& (x ^^^ r)) =
      decide (Overflows bytemode (signedValue bytemode x - signedValue bytemode y)) := by
  have hbits : signBit bytemode ((x ^^^ y) &&& (x ^^^ r)) =
      ((signBit bytemode x ^^ signBit bytemode y) &&
        (signBit bytemode x ^^ signBit bytemode r)) := by
    cases bytemode <;> simp [signBit, operandWidth]
  rw [hbits, signBit_eq, signBit_eq, signBit_eq]
  have hx := unsignedValue_lt bytemode x
  have hy := unsignedValue_lt bytemode y
  have sx := signedValue_cases bytemode x
  have sy := signedValue_cases bytemode y
  have sr := signedValue_cases bytemode r
  rw [Bool.eq_iff_iff]
  simp only [Bool.and_eq_true, bne_iff_ne, ne_eq, decide_eq_decide, decide_eq_true_eq]
  unfold Overflows
  cases bytemode <;>
    simp only [operandWidth, if_true, Bool.false_eq_true, if_false, Nat.reduceSub,
      Int.reducePow] at hr hx hy sx sy sr ⊢ <;>
    omega

end

variable {s : Cpu}

theorem codes_setNz (h : s.ctl.ccFrozen = false) (result : Word) (bytemode : Bool) :
    codes (setNz s result bytemode) =
      { codes s with
        n := decide (signedValue bytemode result < 0)
        z := decide (unsignedValue bytemode result = 0) } := by
  rw [setNz, codes_setZ (by simp [h]), codes_setN h]
  simp only [and_msb_ne_zero, setNz_zero, signBit_eq]

/-- Adding, with its overflow and its carry as integers. -/
theorem aluAdd_eq (s : Cpu) (x y : Word) (bytemode : Bool) :
    let result := (x + y) &&& widthMask bytemode
    aluAdd s x y bytemode =
      (result, setFlag (setFlag (setNz s result bytemode) pswV
          (Overflows bytemode (signedValue bytemode x + signedValue bytemode y))) pswC
          (2 ^ operandWidth bytemode ≤ unsignedValue bytemode x + unsignedValue bytemode y)) := by
  intro result
  have hx := unsignedValue_lt bytemode x
  have hy := unsignedValue_lt bytemode y
  let sum : BitVec 32 :=
    (x &&& widthMask bytemode).setWidth 32 + (y &&& widthMask bytemode).setWidth 32
  have hsum : sum.toNat = unsignedValue bytemode x + unsignedValue bytemode y := by
    simp only [sum, BitVec.toNat_add, BitVec.toNat_setWidth, mask_toNat]
    cases bytemode <;> simp only [operandWidth, if_true, Bool.false_eq_true, if_false] at hx hy <;>
      omega
  have hresult : sum.setWidth 16 &&& widthMask bytemode = result :=
    mask_eq bytemode (by rw [sum_value, hsum, add_value])
  have hvalue : unsignedValue bytemode result =
      (unsignedValue bytemode x + unsignedValue bytemode y) % 2 ^ operandWidth bytemode := by
    rw [masked_value, add_value]
  have h : aluAdd s x y bytemode =
      (sum.setWidth 16 &&& widthMask bytemode,
        setFlag (setFlag (setNz s (sum.setWidth 16 &&& widthMask bytemode) bytemode) pswV
          (~~~(x ^^^ y) &&& (x ^^^ (sum.setWidth 16 &&& widthMask bytemode)) &&&
            widthMsb bytemode ≠ 0)) pswC (sum &&& widthCarry bytemode ≠ 0)) := rfl
  rw [h, hresult, and_msb_ne_zero, add_overflow bytemode hvalue, sum_carry bytemode (by omega), hsum]

/-- Subtracting; the carry is the borrow. -/
theorem aluSub_eq (s : Cpu) (x y : Word) (bytemode : Bool) :
    let result := (x - y) &&& widthMask bytemode
    aluSub s x y bytemode =
      (result, setFlag (setFlag (setNz s result bytemode) pswV
          (Overflows bytemode (signedValue bytemode x - signedValue bytemode y))) pswC
          (unsignedValue bytemode x < unsignedValue bytemode y)) := by
  intro result
  have hx := unsignedValue_lt bytemode x
  have hy := unsignedValue_lt bytemode y
  let sum : BitVec 32 :=
    (x &&& widthMask bytemode).setWidth 32 + (~~~y &&& widthMask bytemode).setWidth 32 + 1
  have hsum : sum.toNat =
      unsignedValue bytemode x + 2 ^ operandWidth bytemode - unsignedValue bytemode y := by
    have hone : (1 : BitVec 32).toNat = 1 := rfl
    simp only [sum, BitVec.toNat_add, BitVec.toNat_setWidth, mask_toNat, not_value, hone]
    cases bytemode <;> simp only [operandWidth, if_true, Bool.false_eq_true, if_false] at hx hy ⊢ <;>
      omega
  have hresult : sum.setWidth 16 &&& widthMask bytemode = result :=
    mask_eq bytemode (by rw [sum_value, hsum, sub_value])
  have hvalue : unsignedValue bytemode result =
      (unsignedValue bytemode x + 2 ^ operandWidth bytemode - unsignedValue bytemode y) %
        2 ^ operandWidth bytemode := by
    rw [masked_value, sub_value]
  -- there is a borrow where there is no carry out
  have hborrow : decide (sum &&& widthCarry bytemode = 0) =
      decide (unsignedValue bytemode x < unsignedValue bytemode y) := by
    have hcarry : decide (sum &&& widthCarry bytemode ≠ 0) =
        decide (2 ^ operandWidth bytemode ≤ sum.toNat) := sum_carry bytemode (by omega)
    simp only [decide_eq_decide, hsum] at hcarry ⊢
    rw [← not_iff_not, ← ne_eq, hcarry]
    omega
  have h : aluSub s x y bytemode =
      (sum.setWidth 16 &&& widthMask bytemode,
        setFlag (setFlag (setNz s (sum.setWidth 16 &&& widthMask bytemode) bytemode) pswV
          ((x ^^^ y) &&& (x ^^^ (sum.setWidth 16 &&& widthMask bytemode)) &&&
            widthMsb bytemode ≠ 0)) pswC (sum &&& widthCarry bytemode = 0)) := rfl
  rw [h, hresult, and_msb_ne_zero, sub_overflow bytemode hvalue, hborrow]

/-- The codes of an addition. -/
theorem codes_aluAdd (h : s.ctl.ccFrozen = false) (x y : Word) (bytemode : Bool) :
    codes (aluAdd s x y bytemode).2 =
      { n := decide (signedValue bytemode (aluAdd s x y bytemode).1 < 0)
        z := decide (unsignedValue bytemode (aluAdd s x y bytemode).1 = 0)
        v := decide (Overflows bytemode (signedValue bytemode x + signedValue bytemode y))
        c := decide (2 ^ operandWidth bytemode ≤
          unsignedValue bytemode x + unsignedValue bytemode y) } := by
  rw [aluAdd_eq, codes_setC (by simp [h]), codes_setV (by simp [h]), codes_setNz h]

theorem codes_aluSub (h : s.ctl.ccFrozen = false) (x y : Word) (bytemode : Bool) :
    codes (aluSub s x y bytemode).2 =
      { n := decide (signedValue bytemode (aluSub s x y bytemode).1 < 0)
        z := decide (unsignedValue bytemode (aluSub s x y bytemode).1 = 0)
        v := decide (Overflows bytemode (signedValue bytemode x - signedValue bytemode y))
        c := decide (unsignedValue bytemode x < unsignedValue bytemode y) } := by
  rw [aluSub_eq, codes_setC (by simp [h]), codes_setV (by simp [h]), codes_setNz h]

end Pdp11
