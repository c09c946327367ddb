import Mathlib.Algebra.Group.Nat.Defs
import Mathlib.Data.Nat.Notation

/-! Bit vectors that agree outside a mask. -/

namespace BitMask

variable {w : ℕ} {x y z m : BitVec w}

theorem or_and_eq (x : BitVec w) (h : y &&& m = 0) : (x ||| y) &&& m = x &&& m := by
  rw [BitVec.and_or_distrib_right, h]
  exact BitVec.or_zero

theorem or_and_self (x y : BitVec w) : (x ||| y) &&& y = y := by
  ext i hi
  simp only [BitVec.getElem_and, BitVec.getElem_or]
  cases x[i] <;> cases y[i] <;> rfl

theorem and_not_and_eq (x : BitVec w) (h : y &&& m = 0) : (x &&& ~~~y) &&& m = x &&& m := by
  ext i hi
  have hi' := congrArg (fun v : BitVec w => v.getLsbD i) h
  simp only [BitVec.getLsbD_and] at hi'
  simp only [← BitVec.getLsbD_eq_getElem, BitVec.getLsbD_and, BitVec.getLsbD_not]
  grind

theorem load_and_eq (x z : BitVec w) (h : y &&& m = 0) :
    ((x &&& ~~~y) ||| (z &&& y)) &&& m = x &&& m := by
  have hz : (z &&& y) &&& m = 0 := by
    rw [BitVec.and_assoc, h]
    exact BitVec.and_zero
  rw [or_and_eq _ hz, and_not_and_eq _ h]

theorem load_and_self (x z : BitVec w) (h : y &&& m = m) :
    ((x &&& ~~~y) ||| (z &&& y)) &&& m = z &&& m := by
  have hnot : ~~~y &&& m = 0 := by
    rw [← h, ← BitVec.and_assoc, BitVec.and_comm (~~~y), BitVec.and_not_self]
    exact BitVec.zero_and
  have hcleared : (x &&& ~~~y) &&& m = 0 := by
    rw [BitVec.and_assoc, hnot]
    exact BitVec.and_zero
  rw [BitVec.and_or_distrib_right, hcleared, BitVec.and_assoc, h]
  exact BitVec.zero_or

theorem or_and_not (x : BitVec w) (h : y &&& ~~~m = 0) : (x ||| y) &&& ~~~m = x &&& ~~~m := by
  rw [BitVec.and_or_distrib_right, h]
  exact BitVec.or_zero

theorem and_not_and_not (x : BitVec w) (h : y &&& ~~~m = 0) :
    (x &&& ~~~y) &&& ~~~m = x &&& ~~~m := by
  have hy : ~~~y &&& ~~~m = ~~~m := by
    ext i hi
    have hi' := congrArg (fun v : BitVec w => v.getLsbD i) h
    simp only [BitVec.getLsbD_and, BitVec.getLsbD_not] at hi'
    simp only [← BitVec.getLsbD_eq_getElem]
    grind
  rw [BitVec.and_assoc, hy]

theorem and_eq_zero_of_part (h : x &&& m = 0) (hz : m &&& z = z) : x &&& z = 0 := by
  rw [← hz, ← BitVec.and_assoc, h]
  exact BitVec.zero_and

/-- A field outside the mask is read the same from two words that agree outside it. -/
theorem extractLsb'_eq (h : x &&& ~~~m = y &&& ~~~m) (i n : ℕ) (hm : m.extractLsb' i n = 0) :
    x.extractLsb' i n = y.extractLsb' i n := by
  ext j hj
  have hx := congrArg (fun v : BitVec w => v.getLsbD (i + j)) h
  have hm' := congrArg (fun v : BitVec n => v.getLsbD j) hm
  simp only [BitVec.getLsbD_and, BitVec.getLsbD_not] at hx
  simp only [BitVec.getLsbD_extractLsb', hj, decide_true, Bool.true_and] at hm'
  simp only [← BitVec.getLsbD_eq_getElem, BitVec.getLsbD_extractLsb', hj, decide_true,
    Bool.true_and]
  by_cases hw : i + j < w
  · simp_all
  · rw [BitVec.getLsbD_of_ge _ _ (by omega), BitVec.getLsbD_of_ge _ _ (by omega)]

theorem and_eq (h : x &&& ~~~m = y &&& ~~~m) (hz : z &&& m = 0) : x &&& z = y &&& z := by
  ext i hi
  have hx := congrArg (fun v : BitVec w => v.getLsbD i) h
  have hz' := congrArg (fun v : BitVec w => v.getLsbD i) hz
  simp only [BitVec.getLsbD_and, BitVec.getLsbD_not] at hx hz'
  simp only [← BitVec.getLsbD_eq_getElem, BitVec.getLsbD_and]
  simp_all
  grind

/-- Words that agree inside the mask and outside it are equal. -/
theorem eq_of_and (h : x &&& ~~~m = y &&& ~~~m) (h' : x &&& m = y &&& m) : x = y := by
  have hparts (v : BitVec w) : v = (v &&& m) ||| (v &&& ~~~m) := by
    rw [← BitVec.and_or_distrib_left, BitVec.or_not_self, BitVec.and_allOnes]
  rw [hparts x, h, h', ← hparts y]

theorem or_eq (h : x &&& ~~~m = y &&& ~~~m) : x ||| m = y ||| m := by
  ext i hi
  have hx := congrArg (fun v : BitVec w => v.getLsbD i) h
  simp only [BitVec.getLsbD_and, BitVec.getLsbD_not, hi, decide_true, Bool.true_and] at hx
  simp only [← BitVec.getLsbD_eq_getElem, BitVec.getLsbD_or]
  cases hm : m.getLsbD i
  · simpa [hm] using hx
  · simp

theorem and_and_not_eq (h : x &&& ~~~m = y &&& ~~~m) (z : BitVec w) :
    (x &&& z) &&& ~~~m = (y &&& z) &&& ~~~m := by
  rw [BitVec.and_assoc, BitVec.and_comm z, ← BitVec.and_assoc, h, BitVec.and_assoc,
    BitVec.and_comm (~~~m), ← BitVec.and_assoc]

/-- Every bit set lies in the mask. -/
def Within (x m : BitVec w) : Prop := x &&& ~~~m = 0

instance (x m : BitVec w) : Decidable (Within x m) := inferInstanceAs (Decidable (x &&& ~~~m = 0))

theorem within_zero (m : BitVec w) : Within 0 m := BitVec.zero_and

theorem within_and (x m : BitVec w) : Within (x &&& m) m := by
  unfold Within
  rw [BitVec.and_assoc, BitVec.and_not_self]
  exact BitVec.and_zero

theorem Within.or (hx : Within x m) (hy : Within y m) : Within (x ||| y) m := by
  unfold Within at *
  rw [or_and_not x hy, hx]

theorem Within.and (hx : Within x m) (y : BitVec w) : Within (x &&& y) m := by
  unfold Within at *
  rw [BitVec.and_assoc, BitVec.and_comm y, ← BitVec.and_assoc, hx]
  exact BitVec.zero_and

theorem Within.trans (hx : Within x y) (hy : Within y m) : Within x m := by
  unfold Within at *
  rw [← and_not_and_not x hy]
  ext i hi
  have hi' := congrArg (fun v : BitVec w => v.getLsbD i) hx
  simp only [BitVec.getLsbD_and, BitVec.getLsbD_not] at hi'
  simp only [← BitVec.getLsbD_eq_getElem, BitVec.getLsbD_and, BitVec.getLsbD_not]
  grind

/-- A word that agrees outside bits of the mask with one that lies in the mask. -/
theorem Within.of_eq (hy : Within y m) (hz : Within z m) (h : x &&& ~~~z = y &&& ~~~z) :
    Within x m := by
  unfold Within at *
  ext i hi
  have hy' := congrArg (fun v : BitVec w => v.getLsbD i) hy
  have hz' := congrArg (fun v : BitVec w => v.getLsbD i) hz
  have h' := congrArg (fun v : BitVec w => v.getLsbD i) h
  simp only [BitVec.getLsbD_and, BitVec.getLsbD_not] at hy' hz' h'
  simp only [← BitVec.getLsbD_eq_getElem, BitVec.getLsbD_and, BitVec.getLsbD_not]
  grind

theorem and_twoPow_eq_zero {i : ℕ} (hi : i < w) :
    x &&& BitVec.twoPow w i = 0#w ↔ x.getLsbD i = false := by
  have hne : BitVec.twoPow w i ≠ 0#w := by
    intro h
    have hbit := congrArg (fun v : BitVec w => v.getLsbD i) h
    simp [hi] at hbit
  rw [BitVec.and_twoPow]
  cases hx : x.getLsbD i <;> simp [hne]

theorem and_twoPow_ne_zero {i : ℕ} (hi : i < w) :
    x &&& BitVec.twoPow w i ≠ 0#w ↔ x.getLsbD i = true := by
  rw [ne_eq, and_twoPow_eq_zero hi, Bool.not_eq_false]

theorem and_one_ne_zero (hw : 0 < w) (x : BitVec w) : decide (x &&& 1 ≠ 0) = x.getLsbD 0 := by
  have h := and_twoPow_ne_zero (x := x) (i := 0) hw
  rw [BitVec.twoPow_zero] at h
  rw [Bool.eq_iff_iff, decide_eq_true_eq]
  exact h

theorem and_not_eq_self : x &&& ~~~y = x ↔ x &&& y = 0 := by
  constructor
  · intro h
    rw [← h, BitVec.and_assoc, BitVec.and_comm (~~~y), BitVec.and_not_self]
    exact BitVec.and_zero
  · intro h
    refine eq_of_and (m := y) ?_ ?_
    · exact and_not_and_not x (BitVec.and_not_self y)
    · rw [h, BitVec.and_assoc, BitVec.and_comm (~~~y), BitVec.and_not_self]
      exact BitVec.and_zero

theorem or_twoPow_eq_self {i : ℕ} (hi : i < w) :
    x ||| BitVec.twoPow w i = x ↔ x &&& BitVec.twoPow w i ≠ 0#w := by
  rw [and_twoPow_ne_zero hi]
  constructor
  · intro h
    rw [← h, BitVec.getLsbD_or]
    simp [hi]
  · intro h
    apply BitVec.eq_of_getLsbD_eq
    intro j hj
    rw [BitVec.getLsbD_or, BitVec.getLsbD_twoPow]
    by_cases hij : i = j
    · subst hij
      simp [h]
    · simp [hij]

theorem and_twoPow_or (x : BitVec w) (i j : ℕ) :
    x &&& (BitVec.twoPow w i ||| BitVec.twoPow w j) =
      (if x.getLsbD i then BitVec.twoPow w i else 0#w) |||
        (if x.getLsbD j then BitVec.twoPow w j else 0#w) := by
  rw [BitVec.and_or_distrib_left, BitVec.and_twoPow, BitVec.and_twoPow]

/-- A field in place: its digits, with zeros below them. -/
theorem toNat_and_field (x : BitVec w) {i n : ℕ} (h : i + n ≤ w) :
    (x &&& BitVec.ofNat w ((2 ^ n - 1) <<< i)).toNat = x.toNat / 2 ^ i % 2 ^ n * 2 ^ i := by
  have hpow : (2 : ℕ) ^ n - 1 < 2 ^ n := Nat.sub_lt (Nat.two_pow_pos n) Nat.one_pos
  have hlt : (2 ^ n - 1) <<< i < 2 ^ w := by
    rw [Nat.shiftLeft_eq]
    calc (2 ^ n - 1) * 2 ^ i < 2 ^ n * 2 ^ i := Nat.mul_lt_mul_of_pos_right hpow (Nat.two_pow_pos i)
      _ = 2 ^ (i + n) := by rw [← Nat.pow_add, Nat.add_comm]
      _ ≤ 2 ^ w := Nat.pow_le_pow_right (by decide) h
  rw [BitVec.toNat_and, BitVec.toNat_ofNat, Nat.mod_eq_of_lt hlt, ← Nat.shiftRight_eq_div_pow,
    ← Nat.and_two_pow_sub_one_eq_mod, ← Nat.shiftLeft_eq]
  apply Nat.eq_of_testBit_eq
  intro j
  simp only [Nat.testBit_and, Nat.testBit_shiftLeft, Nat.testBit_shiftRight]
  by_cases hj : i ≤ j
  · simp only [hj, Nat.add_sub_cancel' hj, decide_true, Bool.true_and]
  · simp [hj]

/-- Digits put below zeros add up. -/
theorem toNat_or_low {i : ℕ} (hx : x.toNat % 2 ^ i = 0) (hy : y.toNat < 2 ^ i) :
    (x ||| y).toNat = x.toNat + y.toNat := by
  have hdiv : x.toNat / 2 ^ i * 2 ^ i = x.toNat := Nat.div_mul_cancel (Nat.dvd_of_mod_eq_zero hx)
  rw [BitVec.toNat_or, ← hdiv, ← Nat.shiftLeft_eq, ← Nat.shiftLeft_add_eq_or_of_lt hy]

theorem toNat_and_add_and_not (x m : BitVec w) :
    (x &&& m).toNat + (x &&& ~~~m).toNat = x.toNat := by
  have hdisjoint : (x &&& m) &&& (x &&& ~~~m) = 0#w := by
    ext i hi
    simp only [BitVec.getElem_and, BitVec.getElem_not, BitVec.getElem_zero]
    cases x[i] <;> cases m[i] <;> rfl
  have hunion : (x &&& m) ||| (x &&& ~~~m) = x := by
    ext i hi
    simp only [BitVec.getElem_and, BitVec.getElem_or, BitVec.getElem_not]
    cases x[i] <;> cases m[i] <;> rfl
  rw [← BitVec.toNat_add_of_and_eq_zero hdisjoint, BitVec.add_eq_or_of_and_eq_zero _ _ hdisjoint,
    hunion]

theorem getLsbD_field (i n j : ℕ) (hj : j < w) :
    (BitVec.ofNat w ((2 ^ n - 1) <<< i)).getLsbD j = decide (i ≤ j ∧ j < i + n) := by
  rw [BitVec.getLsbD_ofNat, Nat.testBit_shiftLeft, Nat.testBit_two_pow_sub_one]
  by_cases hi : i ≤ j
  · simp only [hj, hi, decide_true, Bool.true_and, true_and]
    exact decide_eq_decide.2 (by omega)
  · simp [hi]

/-- A field read as zero has no bit set. -/
theorem getLsbD_of_field_zero {i n j : ℕ} (h : x &&& BitVec.ofNat w ((2 ^ n - 1) <<< i) = 0)
    (hi : i ≤ j) (hj : j < i + n) : x.getLsbD j = false := by
  by_cases hw : j < w
  · have hbit := congrArg (fun v : BitVec w => v.getLsbD j) h
    simp only [BitVec.getLsbD_and] at hbit
    rw [getLsbD_field i n j hw, decide_eq_true ⟨hi, hj⟩, Bool.and_true] at hbit
    simpa using hbit
  · exact BitVec.getLsbD_of_ge x j (by omega)

end BitMask
