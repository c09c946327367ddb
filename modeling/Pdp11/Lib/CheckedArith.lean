import Pdp11.Lib.Checked
import Mathlib.Algebra.Order.Ring.Int

/-! Two's-complement arithmetic that fails where C leaves the result undefined. -/

namespace CheckedArith

open Checked

variable {w : ℕ} {α β : Type}

/-- A computation that fails without its condition. -/
def guarded (c : Prop) [Decidable c] (a : α) : Option α := if c then some a else none

theorem checks_guarded (c : Prop) [Decidable c] (a : α) : Checks (guarded c a) c a :=
  .of (fun h => if_pos h) fun h => if_neg h

theorem guarded_eq {c : Prop} [Decidable c] (h : c) (a : α) : guarded c a = some a := if_pos h

/-- The rest of a computation, after a step that does not fail. -/
theorem bind_eq {x : Option α} {a : α} {f : α → Option β} (h : x = some a) : (x >>= f) = f a := by
  rw [h]
  rfl

/-! ## Shifts -/

/-- `x << n`, the count below the width. -/
def shl (x : BitVec w) (n : ℤ) : Option (BitVec w) := guarded (0 ≤ n ∧ n < w) (x <<< n.toNat)

/-- `x >> n` of an unsigned value. -/
def shr (x : BitVec w) (n : ℤ) : Option (BitVec w) := guarded (0 ≤ n ∧ n < w) (x >>> n.toNat)

/-- `x >> n` of a signed value. -/
def sar (x : BitVec w) (n : ℤ) : Option (BitVec w) :=
  guarded (0 ≤ n ∧ n < w) (x.sshiftRight n.toNat)

section
variable {n : ℤ}

theorem shl_eq (x : BitVec w) (h0 : 0 ≤ n) (h : n < w) : shl x n = some (x <<< n.toNat) :=
  guarded_eq ⟨h0, h⟩ _

theorem shr_eq (x : BitVec w) (h0 : 0 ≤ n) (h : n < w) : shr x n = some (x >>> n.toNat) :=
  guarded_eq ⟨h0, h⟩ _

theorem sar_eq (x : BitVec w) (h0 : 0 ≤ n) (h : n < w) : sar x n = some (x.sshiftRight n.toNat) :=
  guarded_eq ⟨h0, h⟩ _

end

/-! ## Signed results -/

/-- The values of a signed type of `w` bits. -/
def FitsSigned (w : ℕ) (i : ℤ) : Prop := -2 ^ (w - 1) ≤ i ∧ i < 2 ^ (w - 1)

instance (w : ℕ) (i : ℤ) : Decidable (FitsSigned w i) := instDecidableAnd

/-- A signed result, which must be a value of its type. -/
def signedOf (w : ℕ) (i : ℤ) : Option ℤ := guarded (FitsSigned w i) i

theorem signedOf_eq {i : ℤ} (h : FitsSigned w i) : signedOf w i = some i := guarded_eq h i

theorem fitsSigned_int {i : ℤ} (hlo : -2147483648 ≤ i) (hhi : i < 2147483648) : FitsSigned 32 i :=
  ⟨hlo, hhi⟩

def sneg (x : BitVec w) : Option (BitVec w) := guarded (x.negOverflow = false) (-x)

def ssub (x y : BitVec w) : Option (BitVec w) := guarded (x.ssubOverflow y = false) (x - y)

def smul (x y : BitVec w) : Option (BitVec w) := guarded (x.smulOverflow y = false) (x * y)

/-- A division is also undefined by zero. -/
def sdiv (x y : BitVec w) : Option (BitVec w) :=
  guarded (y ≠ 0 ∧ x.sdivOverflow y = false) (x.sdiv y)

/-- Only the lowest value has no negation. -/
theorem checks_sneg (hw : 0 < w) (x : BitVec w) : Checks (sneg x) (x ≠ BitVec.intMin w) (-x) := by
  refine (checks_guarded _ _).iff ?_
  rw [BitVec.negOverflow_eq]
  simp [hw]

theorem ssub_eq {x y : BitVec w} (h : FitsSigned w (x.toInt - y.toInt)) :
    ssub x y = some (x - y) := by
  refine guarded_eq ?_ _
  rw [BitVec.ssubOverflow, Bool.or_eq_false_iff, decide_eq_false_iff_not, decide_eq_false_iff_not]
  exact ⟨h.2.not_ge, h.1.not_gt⟩

theorem smul_eq {x y : BitVec w} (h : FitsSigned w (x.toInt * y.toInt)) :
    smul x y = some (x * y) := by
  refine guarded_eq ?_ _
  rw [BitVec.smulOverflow, Bool.or_eq_false_iff, decide_eq_false_iff_not, decide_eq_false_iff_not]
  exact ⟨h.2.not_ge, h.1.not_gt⟩

theorem sdiv_eq {x y : BitVec w} (hy : y ≠ 0) (h : ¬(x = BitVec.intMin w ∧ y = BitVec.allOnes w)) :
    sdiv x y = some (x.sdiv y) := by
  refine guarded_eq ⟨hy, ?_⟩ _
  rw [BitVec.sdivOverflow_eq, Bool.and_assoc, Bool.and_eq_false_iff]
  refine .inr ?_
  rw [← Bool.decide_and, decide_eq_false_iff_not]
  exact h

/-! ## Counted loops -/

/-- `for (i = 0; i < n; i++)`, the counter a signed 32-bit variable. -/
def countUp (n : ℕ) (step : ℕ → α → Option α) (s : α) : Option α :=
  (List.range n).foldlM (fun s i => do
    let t ← step i s
    let _ ← signedOf 32 (i + 1)
    pure t) s

theorem countUp_eq {n : ℕ} (hn : n < 2147483648) {step : ℕ → α → Option α} {f : ℕ → α → α}
    (h : ∀ i s, step i s = some (f i s)) (s : α) :
    countUp n step s = some ((List.range n).foldl (fun s i => f i s) s) := by
  induction n with
  | zero => rfl
  | succ n ih =>
    have hint : signedOf 32 ((n : ℤ) + 1) = some ((n : ℤ) + 1) :=
      signedOf_eq (fitsSigned_int (by omega) (by omega))
    have hrun := ih (by omega)
    unfold countUp at hrun ⊢
    rw [List.range_succ, List.foldlM_append, List.foldl_append, bind_eq hrun, List.foldlM_cons,
      bind_eq (h n _), bind_eq hint]
    rfl

end CheckedArith
