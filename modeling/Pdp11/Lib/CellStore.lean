import Mathlib.Algebra.Group.Nat.Defs
import Mathlib.Logic.Function.Basic
import Mathlib.Data.List.Basic

/-! Stores of cells, and sequences written into them one cell after the other. -/

/-- A store whose cells are read and written each on its own. -/
structure CellStore (σ κ β : Type) where
  get : σ → κ → β
  put : σ → κ → β → σ
  get_put_same : ∀ s a b, get (put s a b) a = b
  get_put_other : ∀ s a b a', a' ≠ a → get (put s a b) a' = get s a'

namespace CellStore

variable {σ κ β : Type}

/-- A function, as a store of its values. -/
def ofFun (κ β : Type) [DecidableEq κ] : CellStore (κ → β) κ β where
  get f a := f a
  put f a b := Function.update f a b
  get_put_same f a b := Function.update_self a b f
  get_put_other f _ b _ h := Function.update_of_ne h b f

variable (c : CellStore σ κ β) {key : ℕ → κ} {xs ys : List β} {s t u : σ}

/-- `t` is `s` with `xs` laid into the cells `key 0`, `key 1`, ... and nothing else changed. -/
structure Laid (key : ℕ → κ) (xs : List β) (s t : σ) : Prop where
  laid : ∀ i, i < xs.length → xs[i]? = some (c.get t (key i))
  kept : ∀ a, (∀ i, i < xs.length → a ≠ key i) → c.get t a = c.get s a

namespace Laid

variable {c}

theorem nil : c.Laid key [] s s where
  laid _ hi := absurd hi (Nat.not_lt_zero _)
  kept _ _ := rfl

theorem singleton (b : β) : c.Laid key [b] s (c.put s (key 0) b) where
  laid i hi := by
    have hzero : i = 0 := by simpa using hi
    subst hzero
    rw [c.get_put_same]
    rfl
  kept a ha := c.get_put_other s _ b a (ha 0 (by simp))

/-- Two sequences laid one behind the other. -/
theorem append {n : ℕ} (hn : xs.length = n) (h : c.Laid key xs s t)
    (h' : c.Laid (fun i => key (n + i)) ys t u)
    (hinj : ∀ i j, i < n → j < ys.length → key i ≠ key (n + j)) :
    c.Laid key (xs ++ ys) s u where
  laid i hi := by
    rw [List.length_append] at hi
    by_cases hx : i < xs.length
    · rw [List.getElem?_append_left hx, h'.kept _ fun j hj => hinj i j (by omega) hj]
      exact h.laid i hx
    · have hsum : n + (i - n) = i := by omega
      have hlaid := h'.laid (i - n) (by omega)
      rw [hsum] at hlaid
      rw [List.getElem?_append_right (by omega), hn]
      exact hlaid
  kept a ha := by
    have hlen : (xs ++ ys).length = xs.length + ys.length := List.length_append
    rw [h'.kept a fun j hj => ha _ (by omega)]
    exact h.kept a fun i hi => ha i (by omega)

/-- A loop that stores one value a step. -/
theorem foldl (n : ℕ) (val : ℕ → β) (hinj : ∀ i j, i < n → j < n → key i = key j → i = j) (s : σ) :
    c.Laid key ((List.range n).map val) s
      ((List.range n).foldl (fun s i => c.put s (key i) (val i)) s) := by
  induction n with
  | zero => exact nil
  | succ n ih =>
    have hprev := ih fun i j hi hj => hinj i j (by omega) (by omega)
    rw [List.range_succ, List.map_append, List.foldl_append]
    have hlen : ((List.range n).map val).length = n := by simp
    apply hprev.append hlen
    · exact singleton (val n)
    · intro i j hi hj heq
      have hzero : j = 0 := by simpa using hj
      have hlast := hinj i (n + j) (by omega) (by omega) heq
      omega

end Laid

/-- The cells behind a base are told apart by their offsets. -/
theorem offset_inj {w : ℕ} {x : BitVec w} {i j : ℕ} (hi : i < 2 ^ w) (hj : j < 2 ^ w)
    (h : x + BitVec.ofNat w i = x + BitVec.ofNat w j) : i = j := by
  have hoffset := congrArg BitVec.toNat ((BitVec.add_right_inj x).1 h)
  rwa [BitVec.toNat_ofNat, BitVec.toNat_ofNat, Nat.mod_eq_of_lt hi, Nat.mod_eq_of_lt hj] at hoffset

end CellStore
