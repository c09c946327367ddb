import Mathlib.Data.Nat.Notation
import Mathlib.Tactic.Ring
import Mathlib.Tactic.Positivity

/-! Bit-serial multiplication and restoring division of natural numbers. -/

namespace BitSerial

/-- One pass of a shift-and-add multiplication: the low bit of the running sum is dropped. -/
def addStep (m : ℕ) (bit : Bool) (r : ℕ) : ℕ := (if bit then m + r else r) / 2

/-- The passes for the bits of `y` below `n`, from the low one up. -/
def multiply (m y n r : ℕ) : ℕ := (List.range n).foldl (fun r i => addStep m (y.testBit i) r) r

theorem multiply_succ (m y n r : ℕ) :
    multiply m y (n + 1) r = addStep m (y.testBit n) (multiply m y n r) := by
  unfold multiply
  rw [List.range_succ, List.foldl_append, List.foldl_cons, List.foldl_nil]

theorem addStep_le {m r : ℕ} (bit : Bool) (h : r ≤ m) : addStep m bit r ≤ m := by
  unfold addStep
  split_ifs <;> omega

theorem multiply_le {m r : ℕ} (y n : ℕ) (h : r ≤ m) : multiply m y n r ≤ m := by
  induction n with
  | zero => exact h
  | succ n ih =>
    rw [multiply_succ]
    exact addStep_le _ ih

/-- The bits dropped pass by pass are those dropped by one shift of the whole product. -/
theorem multiply_eq (m y n r : ℕ) : multiply m y n r = (r + m * (y % 2 ^ n)) / 2 ^ n := by
  induction n with
  | zero => simp [multiply, Nat.mod_one]
  | succ n ih =>
    have hmod : y % 2 ^ (n + 1) = y % 2 ^ n + 2 ^ n * (y.testBit n).toNat := by
      rw [Nat.mod_pow_succ, Nat.testBit_eq_decide_div_mod_eq]
      rcases Nat.mod_two_eq_zero_or_one (y / 2 ^ n) with h | h <;> simp [h]
    have hsplit : r + m * (y % 2 ^ (n + 1)) =
        (r + m * (y % 2 ^ n)) + 2 ^ n * (m * (y.testBit n).toNat) := by
      rw [hmod]
      ring
    rw [multiply_succ, ih, hsplit, pow_succ, ← Nat.div_div_eq_div_mul,
      Nat.add_mul_div_left _ _ (by positivity)]
    unfold addStep
    cases y.testBit n <;> simp [Nat.add_comm]

/-- Two runs of passes, the second on the bits above the first. -/
theorem multiply_multiply (m lo hi n k : ℕ) (hlo : lo < 2 ^ n) (hhi : hi < 2 ^ k) :
    multiply m hi k (multiply m lo n 0) = m * (lo + 2 ^ n * hi) / 2 ^ (n + k) := by
  have hsplit : m * (lo + 2 ^ n * hi) = m * lo + 2 ^ n * (m * hi) := by ring
  rw [multiply_eq, multiply_eq, Nat.mod_eq_of_lt hlo, Nat.mod_eq_of_lt hhi, Nat.zero_add, hsplit,
    pow_add, ← Nat.div_div_eq_div_mul, Nat.add_mul_div_left _ _ (by positivity)]

/-- One pass of a restoring division, on the running dividend and quotient. -/
def divideStep (b : ℕ) (s : ℕ × ℕ) : ℕ × ℕ :=
  if b ≤ s.1 then (2 * (s.1 - b), 2 * s.2 + 1) else (2 * s.1, 2 * s.2)

def divide (b : ℕ) : ℕ → ℕ × ℕ → ℕ × ℕ
  | 0, s => s
  | n + 1, s => divide b n (divideStep b s)

theorem divideStep_lt {b : ℕ} {s : ℕ × ℕ} (h : s.1 < 2 * b) : (divideStep b s).1 < 2 * b := by
  unfold divideStep
  split_ifs <;> dsimp only <;> omega

theorem divideStep_sum (b : ℕ) (s : ℕ × ℕ) :
    2 * b * (divideStep b s).2 + (divideStep b s).1 = (2 * b * s.2 + s.1) * 2 := by
  unfold divideStep
  split_ifs with hb
  · obtain ⟨d, hd⟩ := Nat.exists_eq_add_of_le hb
    dsimp only
    rw [hd, Nat.add_sub_cancel_left]
    ring
  · dsimp only
    ring

theorem divide_lt {b : ℕ} (n : ℕ) : ∀ s : ℕ × ℕ, s.1 < 2 * b → (divide b n s).1 < 2 * b := by
  induction n with
  | zero =>
    intro s hs
    exact hs
  | succ n ih =>
    intro s hs
    exact ih _ (divideStep_lt hs)

theorem divide_sum (b n : ℕ) : ∀ s : ℕ × ℕ,
    2 * b * (divide b n s).2 + (divide b n s).1 = (2 * b * s.2 + s.1) * 2 ^ n := by
  induction n with
  | zero =>
    intro s
    rw [pow_zero, Nat.mul_one, divide]
  | succ n ih =>
    intro s
    rw [divide, ih, divideStep_sum, pow_succ']
    ring

/-- The quotient after `n` passes, `a` being under twice the divisor. -/
theorem divide_quotient {a b : ℕ} (n : ℕ) (h : a < 2 * b) :
    (divide b n (a, 0)).2 = a * 2 ^ n / (2 * b) := by
  have hsum := divide_sum b n (a, 0)
  have hlt := divide_lt n (a, 0) h
  rw [Nat.mul_zero, Nat.zero_add] at hsum
  rw [← hsum, Nat.mul_add_div (by omega), Nat.div_eq_of_lt hlt, Nat.add_zero]

/-- From a zero dividend every further pass only doubles the quotient. -/
theorem divide_zero {b : ℕ} (hb : 0 < b) (n : ℕ) :
    ∀ q, (divide b n (0, q)).2 = q * 2 ^ n := by
  induction n with
  | zero =>
    intro q
    rw [divide, pow_zero, Nat.mul_one]
  | succ n ih =>
    intro q
    have hstep : divideStep b (0, q) = (0, 2 * q) := by
      unfold divideStep
      simp only [if_neg (Nat.not_le.mpr hb), Nat.mul_zero]
    rw [divide, hstep, ih, pow_succ']
    ring

end BitSerial
