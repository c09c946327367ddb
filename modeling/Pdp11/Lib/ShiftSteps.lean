import Mathlib.Logic.Function.Iterate
import Mathlib.Data.Int.Notation
import Mathlib.Data.Nat.Notation

/-! Arithmetic shifts, one place at a time. -/

namespace ShiftSteps

variable {w : ℕ}

/-- A word under shift, the last bit shifted out of it, and whether its sign ever changed. -/
structure Shifted (w : ℕ) where
  value : BitVec w
  out : Bool
  changed : Bool

/-- A word before its first shift. -/
def start (x : BitVec w) : Shifted w := ⟨x, false, false⟩

/-- One place to the left. -/
def left (s : Shifted w) : Shifted w :=
  ⟨s.value <<< 1, s.value.msb, s.changed || (s.value <<< 1).msb != s.value.msb⟩

/-- One place to the right. -/
def right (s : Shifted w) : Shifted w :=
  ⟨s.value.sshiftRight 1, s.value.getLsbD 0,
    s.changed || (s.value.sshiftRight 1).msb != s.value.msb⟩

/-- A signed number of places, positive to the left. -/
def shift (x : BitVec w) (n : ℤ) : Shifted w :=
  if 0 ≤ n then left^[n.toNat] (start x) else right^[(-n).toNat] (start x)

/-! ## To the left -/

theorem left_value (x : BitVec w) (n : ℕ) : (left^[n] (start x)).value = x <<< n := by
  induction n with
  | zero => exact (BitVec.shiftLeft_zero x).symm
  | succ n ih =>
    rw [Function.iterate_succ_apply', left, ih, BitVec.shiftLeft_add]

theorem left_out (x : BitVec w) (n : ℕ) : (left^[n + 1] (start x)).out = x.getMsbD n := by
  rw [Function.iterate_succ_apply', left, left_value, BitVec.msb_shiftLeft]

theorem left_changed (x : BitVec w) (n : ℕ) :
    (left^[n] (start x)).changed = true ↔ ∃ k < n, x.getMsbD k ≠ x.getMsbD n := by
  induction n with
  | zero => simp [start]
  | succ n ih =>
    rw [Function.iterate_succ_apply']
    simp only [left, left_value, ← BitVec.shiftLeft_add, BitVec.msb_shiftLeft, Bool.or_eq_true, ih,
      bne_iff_ne]
    constructor
    · rintro (⟨k, hk, h⟩ | h)
      · by_cases hn : x.getMsbD n = x.getMsbD (n + 1)
        · exact ⟨k, by omega, hn ▸ h⟩
        · exact ⟨n, by omega, hn⟩
      · exact ⟨n, by omega, Ne.symm h⟩
    · rintro ⟨k, hk, h⟩
      by_cases hn : x.getMsbD n = x.getMsbD (n + 1)
      · have hne : k ≠ n := by
          rintro rfl
          exact h hn
        exact .inl ⟨k, by omega, hn ▸ h⟩
      · exact .inr (Ne.symm hn)

theorem left_unchanged (x : BitVec w) (n : ℕ) :
    (left^[n] (start x)).changed = false ↔ ∀ k < n, x.getMsbD k = x.getMsbD n := by
  rw [← Bool.not_eq_true, left_changed]
  simp

/-! ## To the right -/

theorem right_value (x : BitVec w) (n : ℕ) : (right^[n] (start x)).value = x.sshiftRight n := by
  induction n with
  | zero => exact BitVec.sshiftRight_zero.symm
  | succ n ih => rw [Function.iterate_succ_apply', right, ih, BitVec.sshiftRight_add]

theorem right_out (x : BitVec w) (n : ℕ) :
    (right^[n + 1] (start x)).out = (x.sshiftRight n).getLsbD 0 := by
  rw [Function.iterate_succ_apply', right, right_value]

/-- The sign is copied in. -/
theorem right_changed (x : BitVec w) (n : ℕ) : (right^[n] (start x)).changed = false := by
  induction n with
  | zero => rfl
  | succ n ih =>
    rw [Function.iterate_succ_apply']
    simp only [right, ih, BitVec.msb_sshiftRight, bne_self_eq_false, Bool.or_self]

/-! ## By a signed count -/

theorem shift_left (x : BitVec w) (n : ℕ) : shift x n = left^[n] (start x) := by
  rw [shift, if_pos (by omega), Int.toNat_natCast]

theorem shift_right (x : BitVec w) {n : ℕ} (h : 0 < n) : shift x (-n) = right^[n] (start x) := by
  rw [shift, if_neg (by omega), Int.neg_neg, Int.toNat_natCast]

/-! ## Closed forms -/

/-- The bits shifted out to the left are the top of the word, shifted down arithmetically. -/
theorem getLsbD_top (x : BitVec w) {n j : ℕ} (hn : n ≤ w) (hj : j < n) :
    (x.sshiftRight (w - n)).getLsbD j = x.getMsbD (n - 1 - j) := by
  rw [BitVec.getLsbD_sshiftRight, if_pos (by omega), BitVec.getMsbD]
  have hlt : n - 1 - j < w := by omega
  have hidx : w - 1 - (n - 1 - j) = w - n + j := by omega
  simp [hlt, hidx, show ¬w ≤ j by omega]

theorem left_unchanged_iff (x : BitVec w) {n : ℕ} (h0 : 0 < n) (hn : n < w) :
    (left^[n] (start x)).changed = false ↔
      x.sshiftRight (w - n) = if (x <<< n).msb then -1 else 0 := by
  rw [left_unchanged, BitVec.msb_shiftLeft]
  have hsign : x.msb = x.getMsbD 0 := rfl
  have hfill (b : Bool) {j : ℕ} (hj : j < w) : (if b then -1 else 0 : BitVec w).getLsbD j = b := by
    cases b <;> simp [hj, BitVec.neg_one_eq_allOnes]
  constructor
  · intro h
    apply BitVec.eq_of_getLsbD_eq
    intro j hj
    rw [hfill _ hj]
    by_cases hjn : j < n
    · rw [getLsbD_top x (Nat.le_of_lt hn) hjn]
      exact h _ (by omega)
    · rw [BitVec.getLsbD_sshiftRight, if_neg (by omega), hsign, h 0 h0]
      simp [hj]
  · intro h k hk
    have hbit := congrArg (fun v : BitVec w => v.getLsbD (n - 1 - k)) h
    simp only [hfill _ (show n - 1 - k < w by omega)] at hbit
    rw [getLsbD_top x (Nat.le_of_lt hn) (by omega)] at hbit
    rwa [show n - 1 - (n - 1 - k) = k by omega] at hbit

theorem left_changed_eq (x : BitVec w) {n : ℕ} (h0 : 0 < n) (hn : n < w) :
    (left^[n] (start x)).changed =
      decide (x.sshiftRight (w - n) ≠ if (x <<< n).msb then -1 else 0) := by
  rw [Bool.eq_iff_iff, decide_eq_true_eq, ne_eq, ← left_unchanged_iff x h0 hn, Bool.not_eq_false]

theorem sshiftRight_or_signs (x : BitVec w) {n : ℕ} (hn : n ≤ w) :
    x.sshiftRight n ||| ((if x.msb then -1 else 0 : BitVec w) <<< (w - n)) = x.sshiftRight n := by
  apply BitVec.eq_of_getLsbD_eq
  intro j hj
  rw [BitVec.getLsbD_or, BitVec.getLsbD_shiftLeft, BitVec.getLsbD_sshiftRight]
  by_cases hjn : n + j < w
  · simp [show j < w - n by omega]
  · cases x.msb <;> simp [hj, hjn]

theorem msb_signExtend (x : BitVec w) {v : ℕ} (h0 : 0 < w) (h : w ≤ v) :
    (x.signExtend v).msb = x.msb := by
  rw [BitVec.msb_eq_getLsbD_last, BitVec.getLsbD_signExtend]
  by_cases hw : v - 1 < w
  · obtain rfl : v = w := by omega
    rw [if_pos hw, BitVec.msb_eq_getLsbD_last]
    simp [hw]
  · simp [hw, show v - 1 < v by omega]

theorem setWidth_sshiftRight (x : BitVec w) {v : ℕ} (h : w ≤ v) (n : ℕ) :
    ((x.signExtend v).sshiftRight n).setWidth w = x.sshiftRight n := by
  apply BitVec.eq_of_getLsbD_eq
  intro j hj
  rw [BitVec.getLsbD_setWidth, BitVec.getLsbD_sshiftRight, BitVec.getLsbD_sshiftRight, msb_signExtend x (by omega) h,
    BitVec.getLsbD_signExtend]
  have hwj : ¬w ≤ j := by omega
  have hvj : ¬v ≤ j := by omega
  by_cases hv : n + j < v
  · simp [hv, hj, hwj, hvj]
  · simp [hv, hj, hwj, hvj, show ¬n + j < w by omega]

end ShiftSteps
