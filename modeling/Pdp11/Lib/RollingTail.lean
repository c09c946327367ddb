import Mathlib.Data.List.DropRight
import Mathlib.Tactic.Common

/-! A list of bounded length that keeps what came last. -/

namespace RollingTail

variable {α : Type*} {n : ℕ}

/-- Append, and drop from the front what no longer fits. -/
def push (n : ℕ) (t : List α) (a : α) : List α :=
  if t.length < n then t ++ [a] else t.drop 1 ++ [a]

theorem length_rtake (l : List α) (n : ℕ) : (l.rtake n).length = min n l.length := by
  rw [List.rtake, List.length_drop]
  omega

theorem rtake_of_length_le {l : List α} (h : l.length ≤ n) : l.rtake n = l := by
  rw [List.rtake, Nat.sub_eq_zero_of_le h, List.drop_zero]

/-- The tail of everything is kept by a push on the tail. -/
theorem push_rtake (hn : 0 < n) (l : List α) (a : α) :
    push n (l.rtake n) a = (l ++ [a]).rtake n := by
  unfold push
  rw [length_rtake]
  split
  · next hroom =>
    have hshort : l.length < n := by omega
    rw [rtake_of_length_le hshort.le, rtake_of_length_le]
    rw [List.length_append, List.length_singleton]
    exact hshort
  · next hfull =>
    have hlen : n ≤ l.length := by omega
    have hdrop : l.length + 1 - n = l.length - n + 1 := by omega
    rw [List.rtake, List.rtake, List.drop_drop, List.length_append, List.length_singleton, hdrop,
      List.drop_append_of_le_length (by omega)]

theorem foldl_push (hn : 0 < n) (as l : List α) :
    as.foldl (push n) (l.rtake n) = (l ++ as).rtake n := by
  induction as generalizing l with
  | nil => rw [List.foldl_nil, List.append_nil]
  | cons a as ih => rw [List.foldl_cons, push_rtake hn, ih, List.append_assoc, List.singleton_append]

/-- A text that fits ends the tail when it ends everything. -/
theorem suffix_rtake_iff {s : List α} (hs : s.length ≤ n) (l : List α) :
    s <:+ l.rtake n ↔ s <:+ l := by
  have htail : l.rtake n <:+ l := List.drop_suffix _ l
  constructor
  · intro h
    exact h.trans htail
  · intro h
    refine List.suffix_of_suffix_length_le h htail ?_
    have hle := h.length_le
    rw [length_rtake]
    omega

end RollingTail
