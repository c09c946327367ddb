import Mathlib.Algebra.Order.Floor.Ring
import Mathlib.Data.Int.Log
import Mathlib.Algebra.Order.Field.Power
import Mathlib.Data.Nat.Cast.Order.Field
import Mathlib.Tactic.Linarith
import Mathlib.Tactic.Positivity
import Mathlib.Tactic.FieldSimp
import Mathlib.Tactic.Ring
import Mathlib.Tactic.NormNum

/-! Rounding to a number of significant bits, in an ordered field with a floor. -/

namespace Rounding

inductive Direction
  | nearestAway
  | towardZero
  deriving DecidableEq, Repr

section
variable {K : Type*} [Field K] [LinearOrder K] [FloorRing K]

/-- The integer a non-negative `y` is rounded to. -/
def Direction.integer : Direction → K → ℤ
  | .nearestAway, y => ⌊y + 1 / 2⌋
  | .towardZero, y => ⌊y⌋

/-- The exponent of the last of `p` significant bits of `x`. -/
def lastPlace (p : ℕ) (x : K) : ℤ := Int.log 2 x + 1 - p

/-- A positive `x`, rounded to `p` significant bits. -/
def roundMagnitude (p : ℕ) (d : Direction) (x : K) : K :=
  d.integer (x / 2 ^ lastPlace p x) * 2 ^ lastPlace p x

/-- Any `x`, its magnitude rounded to `p` significant bits. -/
def roundSigned (p : ℕ) (d : Direction) (x : K) : K :=
  if x < 0 then -roundMagnitude p d (-x) else roundMagnitude p d x

end

/-- What is added below the last kept bit, `g` bits up, before the lower bits are dropped. -/
def Direction.half : Direction → ℕ → ℕ
  | .nearestAway, g => 2 ^ (g - 1)
  | .towardZero, _ => 0

theorem Direction.half_dvd (d : Direction) {j g : ℕ} (hj : j < g) : 2 ^ j ∣ d.half g := by
  cases d with
  | nearestAway => exact Nat.pow_dvd_pow 2 (by omega)
  | towardZero => exact Nat.dvd_zero _

variable {K : Type*} [Field K] [LinearOrder K] [IsStrictOrderedRing K] [FloorRing K]

theorem log_eq {x : K} {n : ℤ} (hlo : (2 : K) ^ n ≤ x) (hhi : x < 2 ^ (n + 1)) :
    Int.log 2 x = n := by
  have hx : 0 < x := lt_of_lt_of_le (by positivity) hlo
  have h1 : n ≤ Int.log 2 x := (Int.zpow_le_iff_le_log one_lt_two hx).mp (by simpa using hlo)
  have h2 : Int.log 2 x < n + 1 := (Int.lt_zpow_iff_log_lt one_lt_two hx).mp (by simpa using hhi)
  omega

theorem log_mul_zpow {x : K} (hx : 0 < x) (k : ℤ) :
    Int.log 2 (x * 2 ^ k) = Int.log 2 x + k := by
  have hk : (0 : K) < 2 ^ k := by positivity
  have hlo : (2 : K) ^ Int.log 2 x ≤ x := by
    simpa using Int.zpow_log_le_self (one_lt_two : 1 < 2) hx
  have hhi : x < (2 : K) ^ (Int.log 2 x + 1) := by
    simpa using Int.lt_zpow_succ_log_self (one_lt_two : 1 < 2) x
  apply log_eq
  · rw [zpow_add₀ two_ne_zero]
    exact mul_le_mul_of_nonneg_right hlo hk.le
  · rw [show Int.log 2 x + k + 1 = Int.log 2 x + 1 + k by ring, zpow_add₀ two_ne_zero]
    exact mul_lt_mul_of_pos_right hhi hk

/-- Rounding commutes with a scaling by a power of two. -/
theorem roundMagnitude_mul_zpow (p : ℕ) (d : Direction) {x : K} (hx : 0 < x) (k : ℤ) :
    roundMagnitude p d (x * 2 ^ k) = roundMagnitude p d x * 2 ^ k := by
  have hlast : lastPlace p (x * 2 ^ k) = lastPlace p x + k := by
    unfold lastPlace
    rw [log_mul_zpow hx]
    ring
  have hquot : x * 2 ^ k / 2 ^ (lastPlace p x + k) = x / (2 : K) ^ lastPlace p x := by
    rw [zpow_add₀ two_ne_zero]
    field_simp
  unfold roundMagnitude
  rw [hlast, hquot, zpow_add₀ two_ne_zero, mul_assoc]

theorem roundMagnitude_eq (p : ℕ) (d : Direction) {x : K} {n : ℤ} (hlo : (2 : K) ^ n ≤ x)
    (hhi : x < 2 ^ (n + 1)) :
    roundMagnitude p d x = d.integer (x / 2 ^ (n + 1 - p)) * 2 ^ (n + 1 - p) := by
  unfold roundMagnitude lastPlace
  rw [log_eq hlo hhi]

theorem Direction.integer_intCast (d : Direction) (z : ℤ) : d.integer (z : K) = z := by
  cases d with
  | nearestAway =>
    simp only [integer]
    rw [Int.floor_eq_iff]
    constructor <;> linarith
  | towardZero => exact Int.floor_intCast z

/-- A number of at most `p` bits is its own rounding. -/
theorem roundMagnitude_natCast {m p : ℕ} (d : Direction) (hm : 0 < m) (hp : m < 2 ^ p) :
    roundMagnitude p d (m : K) = m := by
  have hlog : Nat.log 2 m < p := Nat.log_lt_of_lt_pow (by omega) hp
  have hlast : lastPlace p (m : K) = -((p - 1 - Nat.log 2 m : ℕ) : ℤ) := by
    unfold lastPlace
    rw [Int.log_natCast]
    omega
  have hint : (m : K) / 2 ^ lastPlace p (m : K) =
      ((m * 2 ^ (p - 1 - Nat.log 2 m) : ℤ) : K) := by
    rw [hlast, zpow_neg, zpow_natCast, div_inv_eq_mul]
    push_cast
    rfl
  have hpow : (2 : K) ^ lastPlace p (m : K) ≠ 0 := by positivity
  have hsplit : d.integer ((m : K) / 2 ^ lastPlace p (m : K)) =
      (m : K) / 2 ^ lastPlace p (m : K) := by
    rw [hint, d.integer_intCast]
  unfold roundMagnitude
  rw [hsplit, div_mul_cancel₀ _ hpow]

theorem roundMagnitude_zero (p : ℕ) (d : Direction) : roundMagnitude p d (0 : K) = 0 := by
  have hint : d.integer ((0 : K) / 2 ^ lastPlace p (0 : K)) = 0 := by
    rw [zero_div]
    exact_mod_cast d.integer_intCast (K := K) 0
  unfold roundMagnitude
  rw [hint, Int.cast_zero, zero_mul]

/-- A number has its leading bit among the `p` bits it is rounded to. -/
theorem roundMagnitude_pos {p : ℕ} (d : Direction) {x : K} (hp : 1 ≤ p) (hx : 0 < x) :
    0 < roundMagnitude p d x := by
  have hpow : (0 : K) < 2 ^ lastPlace p x := by positivity
  have hlead : (1 : K) ≤ x / 2 ^ lastPlace p x := by
    have hlog : (2 : K) ^ Int.log 2 x ≤ x := by
      simpa using Int.zpow_log_le_self (one_lt_two : 1 < 2) hx
    rw [one_le_div hpow]
    refine (zpow_le_zpow_right₀ one_le_two ?_).trans hlog
    unfold lastPlace
    omega
  have hint : 1 ≤ d.integer (x / 2 ^ lastPlace p x) := by
    cases d <;> simp only [Direction.integer] <;> rw [Int.le_floor] <;> push_cast <;> linarith
  have hint' : (0 : K) < d.integer (x / 2 ^ lastPlace p x) := by exact_mod_cast hint
  exact mul_pos hint' hpow

/-- Truncating to `p` bits drops the fraction of a number that has `p` bits before the point. -/
theorem roundMagnitude_floor {p : ℕ} {x : K} (hx : (2 : K) ^ p ≤ x * 2) (hx1 : 1 ≤ x) :
    roundMagnitude p .towardZero ((⌊x⌋₊ : ℕ) : K) = roundMagnitude p .towardZero x := by
  have hx0 : 0 ≤ x := zero_le_one.trans hx1
  have hlog : Int.log 2 ((⌊x⌋₊ : ℕ) : K) = Int.log 2 x := by
    rw [Int.log_natCast, Int.log_of_one_le_right 2 hx1]
  have hlast : lastPlace p ((⌊x⌋₊ : ℕ) : K) = lastPlace p x := by
    unfold lastPlace
    rw [hlog]
  obtain ⟨j, hj⟩ : ∃ j : ℕ, lastPlace p x = j := by
    have hle : (p : ℤ) - 1 ≤ Int.log 2 x := by
      apply (Int.zpow_le_iff_le_log one_lt_two (zero_lt_one.trans_le hx1)).mp
      rw [Nat.cast_ofNat, zpow_sub_one₀ two_ne_zero, zpow_natCast]
      linarith
    refine ⟨(lastPlace p x).toNat, ?_⟩
    unfold lastPlace
    omega
  have hcast : (2 : K) ^ (j : ℤ) = ((2 ^ j : ℕ) : K) := by
    push_cast
    rw [zpow_natCast]
  have hquot : ⌊((⌊x⌋₊ : ℕ) : K) / ((2 ^ j : ℕ) : K)⌋ = ⌊x / ((2 ^ j : ℕ) : K)⌋ := by
    rw [Int.floor_div_natCast, Int.floor_div_natCast, Int.floor_natCast, Int.natCast_floor_eq_floor hx0]
  unfold roundMagnitude
  rw [hlast, hj, hcast]
  exact congrArg (fun z : ℤ => (z : K) * ((2 ^ j : ℕ) : K)) hquot

/-- An exact quotient and the natural one, its fraction cut off. -/
theorem natDiv_bounds (n : ℕ) {d : ℕ} (hd : 0 < d) :
    ((n / d : ℕ) : K) ≤ n / d ∧ (n : K) / d < (n / d : ℕ) + 1 := by
  constructor
  · exact Nat.cast_div_le
  · have hd' : (0 : K) < d := by exact_mod_cast hd
    rw [div_lt_iff₀ hd', mul_comm]
    exact_mod_cast Nat.lt_mul_div_succ n hd

/-- The bits of `x` below `2 ^ j`, all under the last kept bit, do not affect the rounding. -/
theorem Direction.integer_of_prefix (d : Direction) {f j g : ℕ} {x : K} (hj : j < g)
    (hdvd : 2 ^ j ∣ f) (hlo : (f : K) ≤ x) (hhi : x < f + 2 ^ j) :
    d.integer (x / 2 ^ g) = ((f + d.half g) / 2 ^ g : ℕ) := by
  have hpos : (0 : K) < 2 ^ g := by positivity
  set q := (f + d.half g) / 2 ^ g with hq
  have hqlo : q * 2 ^ g ≤ f + d.half g := Nat.div_mul_le_self _ _
  -- both sides are multiples of `2 ^ j`, so the gap between them is one at least
  have hqhi : f + d.half g + 2 ^ j ≤ (q + 1) * 2 ^ g := by
    have hlt : f + d.half g < (q + 1) * 2 ^ g := by
      rw [Nat.add_mul, Nat.one_mul, Nat.mul_comm]
      exact Nat.lt_mul_div_succ _ (by positivity)
    obtain ⟨a, ha⟩ := Nat.dvd_add hdvd (d.half_dvd hj)
    obtain ⟨b, hb⟩ := Nat.pow_dvd_pow 2 hj.le
    rw [ha, hb] at hlt ⊢
    have : a < (q + 1) * b := by
      apply Nat.lt_of_mul_lt_mul_left (a := 2 ^ j)
      calc 2 ^ j * a < (q + 1) * (2 ^ j * b) := hlt
        _ = 2 ^ j * ((q + 1) * b) := by ring
    calc 2 ^ j * a + 2 ^ j = 2 ^ j * (a + 1) := by ring
      _ ≤ 2 ^ j * ((q + 1) * b) := Nat.mul_le_mul_left _ this
      _ = (q + 1) * (2 ^ j * b) := by ring
  have hqlo' : (q : K) * 2 ^ g ≤ f + d.half g := by exact_mod_cast hqlo
  have hqhi' : (f : K) + d.half g + 2 ^ j ≤ (q + 1) * 2 ^ g := by exact_mod_cast hqhi
  cases d with
  | nearestAway =>
    have hhalf : ((Direction.nearestAway.half g : ℕ) : K) = 2 ^ g / 2 := by
      obtain ⟨i, rfl⟩ : ∃ i, g = i + 1 := ⟨g - 1, by omega⟩
      simp [half, pow_succ]
    rw [hhalf] at hqlo' hqhi'
    have hsum : x / 2 ^ g + 1 / 2 = (x + 2 ^ g / 2) / 2 ^ g := by field_simp
    simp only [integer]
    rw [hsum, Int.floor_eq_iff, le_div_iff₀ hpos, div_lt_iff₀ hpos]
    push_cast
    constructor <;> linarith
  | towardZero =>
    have hhalf : ((Direction.towardZero.half g : ℕ) : K) = 0 := by simp [half]
    rw [hhalf] at hqlo' hqhi'
    simp only [integer]
    rw [Int.floor_eq_iff, le_div_iff₀ hpos, div_lt_iff₀ hpos]
    push_cast
    constructor <;> linarith

/-- A value in the binade of its leading bits `f` rounds as `f` does. -/
theorem roundMagnitude_of_prefix (d : Direction) {f j g p : ℕ} {x : K} (hj : j < g)
    (hdvd : 2 ^ j ∣ f) (hlo : (f : K) ≤ x) (hhi : x < f + 2 ^ j)
    (hf : 2 ^ (p + g) ≤ f * 2) (hf' : f < 2 ^ (p + g)) :
    roundMagnitude p d x = ((f + d.half g) / 2 ^ g : ℕ) * 2 ^ g := by
  have htop : f + 2 ^ j ≤ 2 ^ (p + g) := by
    obtain ⟨a, rfl⟩ := hdvd
    have hsplit : 2 ^ (p + g) = 2 ^ j * 2 ^ (p + g - j) := by
      rw [← pow_add]
      congr 1
      omega
    rw [hsplit] at hf' ⊢
    have ha : a < 2 ^ (p + g - j) := Nat.lt_of_mul_lt_mul_left hf'
    calc 2 ^ j * a + 2 ^ j = 2 ^ j * (a + 1) := by ring
      _ ≤ 2 ^ j * 2 ^ (p + g - j) := Nat.mul_le_mul_left _ ha
  have htop' : (f : K) + 2 ^ j ≤ 2 ^ (p + g) := by exact_mod_cast htop
  have hbot' : (2 : K) ^ (p + g) ≤ f * 2 := by exact_mod_cast hf
  have h := roundMagnitude_eq (K := K) p d (x := x) (n := p + g - 1) ?_ ?_
  · have hg : ((p : ℤ) + g - 1 + 1 - p) = (g : ℤ) := by ring
    rw [h, hg, zpow_natCast, d.integer_of_prefix hj hdvd hlo hhi, Int.cast_natCast]
  · rw [zpow_sub_one₀ two_ne_zero, ← Nat.cast_add, zpow_natCast]
    linarith
  · rw [sub_add_cancel, ← Nat.cast_add, zpow_natCast]
    linarith

/-- An error under a quarter of the last place does not move a value of `p` bits. -/
theorem roundMagnitude_tiny {m p : ℕ} {x : K} (hm : 2 ^ p ≤ m * 2) (hm' : m < 2 ^ p)
    (hlo : (m : K) - 1 / 4 < x) (hhi : x < m + 1 / 4) :
    roundMagnitude p .nearestAway x = m := by
  have hbot : (2 : K) ^ p ≤ m * 2 := by exact_mod_cast hm
  have htop : (m : K) + 1 ≤ 2 ^ p := by exact_mod_cast hm'
  have hone : (1 : K) ≤ m := by
    have : 0 < 2 ^ p := by positivity
    exact_mod_cast (by omega : 1 ≤ m)
  by_cases hx : (2 : K) ^ ((p : ℤ) - 1) ≤ x
  · have hexp : ((p : ℤ) - 1 + 1 - p) = 0 := by ring
    rw [roundMagnitude_eq p _ hx (by rw [sub_add_cancel, zpow_natCast]; linarith), hexp]
    have hfloor : ⌊x + 1 / 2⌋ = (m : ℤ) := by
      rw [Int.floor_eq_iff]
      push_cast
      constructor <;> linarith
    simp only [Direction.integer, zpow_zero, div_one, mul_one, hfloor, Int.cast_natCast]
  · -- `m` is a power of two and `x` lies in the binade below it, where the places are finer
    have hpow : (2 : K) ^ ((p : ℤ) - 1) = 2 ^ p / 2 := by
      rw [zpow_sub_one₀ two_ne_zero, zpow_natCast]
      ring
    rw [hpow, not_le] at hx
    have hexp : ((p : ℤ) - 2 + 1 - p) = -1 := by ring
    have hlow : (2 : K) ^ ((p : ℤ) - 2) ≤ x := by
      rw [zpow_sub₀ two_ne_zero, zpow_natCast]
      norm_num
      linarith
    have hhigh : x < (2 : K) ^ ((p : ℤ) - 2 + 1) := by
      rw [show ((p : ℤ) - 2 + 1) = p - 1 by ring, hpow]
      exact hx
    rw [roundMagnitude_eq p _ hlow hhigh, hexp]
    have hpm : (2 : K) ^ p = m * 2 := by
      have hcast : (2 ^ p : ℕ) = m * 2 := by
        have h : ((m * 2 : ℕ) : K) < (2 ^ p + 1 : ℕ) := by
          push_cast
          linarith
        have h' : m * 2 < 2 ^ p + 1 := by exact_mod_cast h
        omega
      exact_mod_cast hcast
    have hfloor : ⌊x / 2 ^ (-1 : ℤ) + 1 / 2⌋ = (2 * m : ℕ) := by
      rw [zpow_neg_one, div_inv_eq_mul, Int.floor_eq_iff]
      push_cast
      constructor <;> linarith
    simp only [Direction.integer]
    rw [hfloor, zpow_neg_one]
    push_cast
    ring

end Rounding
