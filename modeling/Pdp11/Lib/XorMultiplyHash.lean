import Mathlib.Data.Nat.ModEq
import Mathlib.Data.BitVec
import Mathlib.Tactic.Positivity

/-! Hashes that fold symbols in by exclusive or and multiply by an odd constant. -/

namespace XorMultiplyHash

variable {w k : ℕ} {p : BitVec w}

/-- A symbol folded in. -/
def absorb (p h x : BitVec w) : BitVec w := (h ^^^ x) * p

/-- An odd factor loses nothing. -/
theorem mul_injective (hp : p.toNat % 2 = 1) : Function.Injective fun x : BitVec w => x * p := by
  intro x y h
  have hmod : x.toNat * p.toNat ≡ y.toNat * p.toNat [MOD 2 ^ w] := by
    have hnat := congrArg BitVec.toNat h
    rwa [BitVec.toNat_mul, BitVec.toNat_mul] at hnat
  have htwo : Nat.Coprime 2 p.toNat := by
    rw [Nat.Coprime, Nat.gcd_rec, hp]
    rfl
  have heq := Nat.ModEq.cancel_right_of_coprime (Nat.Coprime.pow_left w htwo) hmod
  exact BitVec.eq_of_toNat_eq (heq.eq_of_lt_of_lt x.isLt y.isLt)

theorem absorb_injective (hp : p.toNat % 2 = 1) (x : BitVec w) :
    Function.Injective fun h => absorb p h x := by
  intro h h' heq
  exact (BitVec.xor_left_inj x).1 (mul_injective hp heq)

/-- Equal symbols after different ones never bring the hashes together. -/
theorem foldl_injective (hp : p.toNat % 2 = 1) (xs : List (BitVec w)) :
    Function.Injective fun h => xs.foldl (absorb p) h := by
  induction xs with
  | nil => exact Function.injective_id
  | cons x xs ih => exact ih.comp (absorb_injective hp x)

/-- Numbers in one window of `K` that stay in one window when multiplied modulo `W` are equal: a
factor of `K` or more takes them further apart, and not as far as round to the other. -/
theorem lt_leaves_window {W K p a b : ℕ} (hK : 0 < K) (hlow : K ≤ p) (hfit : K * (p + 1) ≤ W)
    (hlt : a < b) (hwindow : b / K = a / K) : b * p % W / K ≠ a * p % W / K := by
  obtain ⟨d, rfl⟩ := Nat.exists_eq_add_of_lt hlt
  generalize hstep : d + 1 = e
  rw [Nat.add_assoc, hstep] at hwindow ⊢
  have he : e < K := by
    have ha := Nat.div_add_mod a K
    have hb := Nat.div_add_mod (a + e) K
    have hmod := Nat.mod_lt (a + e) hK
    rw [hwindow] at hb
    omega
  have hfar : K ≤ e * p := hlow.trans (Nat.le_mul_of_pos_left p (by omega))
  have hnear : e * p + K ≤ W := by
    have hmul : e * p ≤ K * p := Nat.mul_le_mul_right p he.le
    rw [Nat.mul_succ] at hfit
    omega
  have hmod : (a + e) * p % W = (a * p % W + e * p) % W := by
    rw [Nat.add_mul, Nat.mod_add_mod]
  have hA : a * p % W < W := Nat.mod_lt _ (by omega)
  have happart {m n : ℕ} (h : m + K ≤ n) : n / K ≠ m / K := by
    have hdiv := Nat.div_le_div_right (c := K) h
    rw [Nat.add_div_right m hK] at hdiv
    omega
  rw [hmod]
  generalize a * p % W = A at hA ⊢
  rcases Nat.lt_or_ge (A + e * p) W with hin | hround
  · rw [Nat.mod_eq_of_lt hin]
    exact happart (by omega)
  · rw [Nat.mod_eq_sub_mod hround, Nat.mod_eq_of_lt (by omega)]
    exact (happart (by omega)).symm

/-- Two symbols of fewer than `k` bits in a row are seen in the hash, whatever came before. -/
theorem absorb_absorb_inj (hp : p.toNat % 2 = 1) (hlow : 2 ^ k ≤ p.toNat)
    (hfit : 2 ^ k * (p.toNat + 1) ≤ 2 ^ w) {h x x' y y' : BitVec w} (hx : x.toNat < 2 ^ k)
    (hx' : x'.toNat < 2 ^ k) (hy : y.toNat < 2 ^ k) (hy' : y'.toNat < 2 ^ k)
    (heq : absorb p (absorb p h x) y = absorb p (absorb p h x') y') : x = x' ∧ y = y' := by
  have hwindow {a z : BitVec w} (hz : z.toNat < 2 ^ k) :
      (a ^^^ z).toNat / 2 ^ k = a.toNat / 2 ^ k := by
    rw [BitVec.toNat_xor, Nat.xor_div_two_pow, Nat.div_eq_of_lt hz, Nat.xor_zero]
  have hsecond : absorb p h x ^^^ y = absorb p h x' ^^^ y' := mul_injective hp heq
  have hprod : (h ^^^ x).toNat * p.toNat % 2 ^ w / 2 ^ k =
      (h ^^^ x').toNat * p.toNat % 2 ^ w / 2 ^ k := by
    rw [← BitVec.toNat_mul, ← BitVec.toNat_mul]
    exact (hwindow hy).symm.trans ((congrArg (fun z : BitVec w => z.toNat / 2 ^ k) hsecond).trans
      (hwindow hy'))
  have hsame : h ^^^ x = h ^^^ x' := by
    apply BitVec.eq_of_toNat_eq
    have hdiv : (h ^^^ x).toNat / 2 ^ k = (h ^^^ x').toNat / 2 ^ k :=
      (hwindow hx).trans (hwindow hx').symm
    rcases Nat.lt_trichotomy (h ^^^ x).toNat (h ^^^ x').toNat with hlt | heq | hlt
    · exact absurd hprod.symm (lt_leaves_window (by positivity) hlow hfit hlt hdiv.symm)
    · exact heq
    · exact absurd hprod (lt_leaves_window (by positivity) hlow hfit hlt hdiv)
  have hfirst : x = x' := (BitVec.xor_right_inj h).1 hsame
  subst hfirst
  exact ⟨rfl, (BitVec.xor_right_inj _).1 hsecond⟩

end XorMultiplyHash
