import Mathlib.Algebra.Group.Nat.Defs
import Mathlib.Data.Nat.Notation

/-! Values laid out as byte sequences, and what can be read back from them. -/

namespace ByteSequence

variable {w k n : ℕ}

/-- The low `k` bytes of a value, lowest first. -/
def littleEndian (k : ℕ) (x : BitVec w) : List (BitVec 8) :=
  (List.range k).map fun i => (x >>> (8 * i)).setWidth 8

@[simp] theorem length_littleEndian (k : ℕ) (x : BitVec w) : (littleEndian k x).length = k := by
  simp [littleEndian]

/-- A value that fits is determined by its bytes. -/
theorem littleEndian_inj (hw : w ≤ 8 * k) {x y : BitVec w} (h : littleEndian k x = littleEndian k y) :
    x = y := by
  apply BitVec.eq_of_getLsbD_eq
  intro j hj
  have hbyte := List.map_inj_left.1 h (j / 8) (List.mem_range.2 (by omega))
  have hbit := congrArg (fun b : BitVec 8 => b.getLsbD (j % 8)) hbyte
  have hlt : j % 8 < 8 := Nat.mod_lt _ (by omega)
  have hsum : 8 * (j / 8) + j % 8 = j := Nat.div_add_mod j 8
  simpa only [BitVec.getLsbD_setWidth, BitVec.getLsbD_ushiftRight, hlt, decide_true, Bool.true_and,
    hsum] using hbit

/-- Values of one size laid out in order, `k` bytes each. -/
def scalars (k : ℕ) (xs : List (BitVec w)) : List (BitVec 8) := (xs.map (littleEndian k)).flatten

@[simp] theorem length_scalars (k : ℕ) (xs : List (BitVec w)) :
    (scalars k xs).length = xs.length * k := by
  induction xs with
  | nil => simp [scalars]
  | cons x xs ih =>
    have hcons : scalars k (x :: xs) = littleEndian k x ++ scalars k xs := rfl
    rw [hcons, List.length_append, length_littleEndian, ih, List.length_cons, Nat.succ_mul,
      Nat.add_comm]

theorem scalars_append (k : ℕ) (xs ys : List (BitVec w)) :
    scalars k (xs ++ ys) = scalars k xs ++ scalars k ys := by
  rw [scalars, List.map_append, List.flatten_append]
  rfl

/-- Lists of one length are determined by their bytes. -/
theorem scalars_inj (hw : w ≤ 8 * k) {xs ys : List (BitVec w)} (h : scalars k xs = scalars k ys)
    (hlen : xs.length = ys.length) : xs = ys := by
  have hsizes (zs : List (BitVec w)) :
      (zs.map (littleEndian k)).map List.length = List.replicate zs.length k := by
    rw [List.map_map]
    exact List.eq_replicate_iff.2 ⟨by simp, by simp⟩
  have hbytes : xs.map (littleEndian k) = ys.map (littleEndian k) := by
    refine List.eq_iff_flatten_eq.2 ⟨h, ?_⟩
    rw [hsizes, hsizes, hlen]
  exact (List.map_inj_right fun x y => littleEndian_inj hw).1 hbytes

/-- The first `n` elements of an array. -/
def elements {α : Type} (n : ℕ) (f : ℕ → α) : List α := (List.range n).map f

@[simp] theorem length_elements {α : Type} (n : ℕ) (f : ℕ → α) : (elements n f).length = n := by
  simp [elements]

theorem elements_inj {α : Type} {f g : ℕ → α} (h : elements n f = elements n g) :
    ∀ i < n, f i = g i :=
  fun i hi => List.map_inj_left.1 h i (List.mem_range.2 hi)

theorem elements_congr {α : Type} {f g : ℕ → α} (h : ∀ i < n, f i = g i) :
    elements n f = elements n g :=
  List.map_congr_left fun i hi => h i (List.mem_range.1 hi)

/-- An array around one of its elements. -/
theorem elements_split {α : Type} (f : ℕ → α) {i : ℕ} (hi : i < n) :
    elements n f = elements i f ++ f i :: elements (n - i - 1) fun j => f (i + 1 + j) := by
  have hn : n = i + 1 + (n - i - 1) := by omega
  have hrange : List.range n =
      List.range i ++ i :: (List.range (n - i - 1)).map (i + 1 + ·) := by
    rw [hn, List.range_add, List.range_succ, List.append_assoc, ← hn]
    rfl
  rw [elements, hrange, List.map_append, List.map_cons, List.map_map]
  rfl

theorem eq_at_of_elements {α : Type} {f g : BitVec w → α}
    (h : ∀ i < n, f (BitVec.ofNat w i) = g (BitVec.ofNat w i)) {x : BitVec w} (hx : x.toNat < n) :
    f x = g x := by
  simpa using h x.toNat hx

/-- An array indexed by all values of a width is determined by its elements. -/
theorem eq_of_elements {α : Type} {f g : BitVec w → α}
    (h : ∀ i < 2 ^ w, f (BitVec.ofNat w i) = g (BitVec.ofNat w i)) : f = g := by
  funext x
  exact eq_at_of_elements h x.isLt

/-- Two rows of an array side by side. -/
theorem eq_at_of_pairs {α : Type} {f g : BitVec w → BitVec 1 → α}
    (h : ∀ i < 2 * n, f (BitVec.ofNat w (i / 2)) (BitVec.ofNat 1 i) =
      g (BitVec.ofNat w (i / 2)) (BitVec.ofNat 1 i)) {x : BitVec w} (hx : x.toNat < n) (b : BitVec 1) :
    f x b = g x b := by
  have hb : b.toNat < 2 := b.isLt
  have hi := h (2 * x.toNat + b.toNat) (by omega)
  have hdiv : (2 * x.toNat + b.toNat) / 2 = x.toNat := by omega
  have hbit : BitVec.ofNat 1 (2 * x.toNat + b.toNat) = b := by
    apply BitVec.eq_of_toNat_eq
    rw [BitVec.toNat_ofNat]
    omega
  simpa only [hdiv, hbit, BitVec.ofNat_toNat, BitVec.setWidth_eq] using hi

/-- A flag is laid out as one byte. -/
def flag (b : Bool) : BitVec 8 := if b then 1 else 0

theorem flag_inj {a b : Bool} (h : flag a = flag b) : a = b := by
  revert h
  cases a <;> cases b <;> decide

end ByteSequence
