import Mathlib.Data.ZMod.Basic
import Mathlib.Tactic.LinearCombination
import Mathlib.Tactic.Ring

/-! A ring of slots holds the values that were written last. -/

namespace RecentRing

/-- `n` slots in a circle, and the one that is written next. -/
@[ext] structure SlotRing (n : ℕ) (β : Type) where
  slot : ZMod n → Option β
  next : ZMod n

variable {n : ℕ} {β : Type}

namespace SlotRing

def empty : SlotRing n β := ⟨fun _ => none, 0⟩

def push (r : SlotRing n β) (b : β) : SlotRing n β :=
  ⟨Function.update r.slot r.next (some b), r.next + 1⟩

def Contains (r : SlotRing n β) (b : β) : Prop := ∃ i, r.slot i = some b

/-- No value is in two slots. -/
def Distinct (r : SlotRing n β) : Prop := ∀ i j b, r.slot i = some b → r.slot j = some b → i = j

/-- Back from the slot before the next one, the slots hold the values of `h` in their order, as far
as both reach. -/
def Holds (r : SlotRing n β) (h : List β) : Prop := ∀ j < n, r.slot (r.next - 1 - j) = h[j]?

variable {r : SlotRing n β} {h : List β} {b : β}

theorem distinct_empty : (empty : SlotRing n β).Distinct := fun _ _ _ h => nomatch h

theorem holds_empty : (empty : SlotRing n β).Holds [] := fun _ _ => rfl

theorem Distinct.push (hr : r.Distinct) (hb : ¬r.Contains b) : (r.push b).Distinct := by
  intro i j c hi hj
  change Function.update r.slot r.next (some b) i = some c at hi
  change Function.update r.slot r.next (some b) j = some c at hj
  by_cases hin : i = r.next
  · by_cases hjn : j = r.next
    · rw [hin, hjn]
    · rw [hin, Function.update_self] at hi
      rw [Function.update_of_ne hjn, ← hi] at hj
      exact absurd ⟨j, hj⟩ hb
  · rw [Function.update_of_ne hin] at hi
    by_cases hjn : j = r.next
    · rw [hjn, Function.update_self] at hj
      rw [← hj] at hi
      exact absurd ⟨i, hi⟩ hb
    · rw [Function.update_of_ne hjn] at hj
      exact hr i j c hi hj

theorem Holds.push (hr : r.Holds h) (b : β) : (r.push b).Holds (b :: h) := by
  intro j hj
  show Function.update r.slot r.next (some b) (r.next + 1 - 1 - j) = _
  cases j with
  | zero =>
    have hnext : r.next + 1 - 1 - ((0 : ℕ) : ZMod n) = r.next := by
      push_cast
      ring
    rw [hnext, Function.update_self, List.getElem?_cons_zero]
  | succ j =>
    have hback : r.next + 1 - 1 - ((j + 1 : ℕ) : ZMod n) = r.next - 1 - j := by
      push_cast
      ring
    -- fewer than `n` steps back do not come round to the slot just written
    have hne : r.next - 1 - j ≠ r.next := by
      intro heq
      have hzero : ((j + 1 : ℕ) : ZMod n) = 0 := by
        push_cast
        linear_combination -heq
      have hdvd := (ZMod.natCast_eq_zero_iff (j + 1) n).1 hzero
      exact absurd (Nat.le_of_dvd j.succ_pos hdvd) (by omega)
    rw [hback, Function.update_of_ne hne, List.getElem?_cons_succ]
    exact hr j (by omega)

/-- The slots hold exactly the newest `n` values. -/
theorem Holds.contains_iff [NeZero n] (hr : r.Holds h) (b : β) : r.Contains b ↔ b ∈ h.take n := by
  have htake (j : ℕ) : (h.take n)[j]? = if j < n then h[j]? else none := List.getElem?_take
  rw [List.mem_iff_getElem?]
  constructor
  · rintro ⟨i, hi⟩
    let j := (r.next - 1 - i).val
    have hj : j < n := ZMod.val_lt _
    have hback : r.next - 1 - (j : ZMod n) = i := by
      rw [ZMod.natCast_zmod_val]
      ring
    refine ⟨j, ?_⟩
    rw [htake, if_pos hj, ← hr j hj, hback, hi]
  · rintro ⟨j, hb⟩
    rw [htake] at hb
    by_cases hj : j < n
    · rw [if_pos hj] at hb
      exact ⟨_, (hr j hj).trans hb⟩
    · rw [if_neg hj] at hb
      cases hb

end SlotRing

end RecentRing
