import Mathlib.Data.Fin.Basic
import Mathlib.Data.ZMod.Defs
import Mathlib.Data.List.Sublists
import Mathlib.Logic.Function.Basic

/-! A ring of cells between two indices is a queue that refuses what does not fit. -/

namespace RingQueue

/-- `n` cells, the index of the oldest element and the index after the newest. -/
structure Ring (α : Type) (n : ℕ) where
  cell : Fin n → α
  head : Fin n
  tail : Fin n

variable {α : Type} {n : ℕ} [NeZero n]

namespace Ring

/-- An element is dropped when the next cell is the oldest one. -/
def push (q : Ring α n) (x : α) : Ring α n :=
  if q.tail + 1 ≠ q.head then
    { q with cell := Function.update q.cell q.tail x, tail := q.tail + 1 }
  else q

def pushAll (q : Ring α n) (xs : List α) : Ring α n := xs.foldl push q

def isEmpty (q : Ring α n) : Bool := q.head = q.tail

def front (q : Ring α n) : α := q.cell q.head

def pop (q : Ring α n) : Ring α n := { q with head := q.head + 1 }

/-- The number of elements. -/
def size (q : Ring α n) : ℕ := (q.tail - q.head).val

/-- The elements, oldest first. -/
def contents (q : Ring α n) : List α :=
  (List.range q.size).map fun i => q.cell (q.head + Fin.ofNat n i)

@[simp] theorem length_contents (q : Ring α n) : q.contents.length = q.size := by simp [contents]

omit [NeZero n] in
/-- One cell always stays free. -/
theorem size_lt (q : Ring α n) : q.size < n := (q.tail - q.head).isLt

theorem val_add_one {d : Fin n} (h : d + 1 ≠ 0) : (d + 1).val = d.val + 1 := by
  by_cases hd : d.val + 1 < n
  · rw [Fin.val_add, Fin.val_one', Nat.add_mod_mod, Nat.mod_eq_of_lt hd]
  · have hn : d.val + 1 = n := by omega
    refine absurd (Fin.ext ?_) h
    rw [Fin.val_add, Fin.val_one', Nat.add_mod_mod, hn, Nat.mod_self, Fin.val_zero]

/-- A ring refuses an element exactly when `n - 1` are waiting. -/
theorem full_iff (q : Ring α n) : q.tail + 1 = q.head ↔ q.size + 1 = n := by
  have hshift : q.tail - q.head + 1 = 0 ↔ q.tail + 1 = q.head := by
    rw [sub_add_eq_add_sub, sub_eq_zero]
  rw [← hshift, size]
  constructor
  · intro h
    by_contra hne
    have hlt := (q.tail - q.head).isLt
    have hval := congrArg Fin.val h
    rw [Fin.val_add, Fin.val_one', Nat.add_mod_mod, Nat.mod_eq_of_lt (by omega)] at hval
    simp at hval
  · intro h
    by_contra hne
    have hval := val_add_one hne
    have hlt := (q.tail - q.head + 1).isLt
    omega

theorem ofNat_size (q : Ring α n) : q.head + Fin.ofNat n q.size = q.tail := by
  have hof : Fin.ofNat n q.size = q.tail - q.head := by simp [size]
  rw [hof, add_sub_cancel]

/-- Cells before the last one are not the one a push fills. -/
theorem cell_ne_tail (q : Ring α n) {i : ℕ} (hi : i < q.size) :
    q.head + Fin.ofNat n i ≠ q.tail := by
  intro h
  rw [← q.ofNat_size] at h
  have hval := congrArg Fin.val (add_left_cancel h)
  have hsize := q.size_lt
  simp only [Fin.val_ofNat] at hval
  rw [Nat.mod_eq_of_lt (by omega), Nat.mod_eq_of_lt hsize] at hval
  omega

theorem contents_push_room (q : Ring α n) (x : α) (h : q.size + 1 < n) :
    (q.push x).contents = q.contents ++ [x] := by
  have hroom : q.tail + 1 ≠ q.head := by
    rw [Ne, q.full_iff]
    omega
  have hsize : (q.push x).size = q.size + 1 := by
    have hne : q.tail - q.head + 1 ≠ 0 := by
      rwa [sub_add_eq_add_sub, Ne, sub_eq_zero]
    rw [push, if_pos hroom, size, size, ← val_add_one hne, sub_add_eq_add_sub]
  rw [contents, hsize, List.range_succ, List.map_append, contents]
  rw [push, if_pos hroom]
  congr 1
  · apply List.map_congr_left
    intro i hi
    exact Function.update_of_ne (q.cell_ne_tail (List.mem_range.1 hi)) _ _
  · have hlast : Function.update q.cell q.tail x (q.head + Fin.ofNat n q.size) = x := by
      rw [ofNat_size, Function.update_self]
    exact congrArg (fun y => [y]) hlast

theorem push_full (q : Ring α n) (x : α) (h : q.size + 1 = n) : q.push x = q := by
  rw [push, if_neg (not_not.2 (q.full_iff.2 h))]

/-- What a queue of bounded length makes of one more element. -/
def offer (bound : ℕ) (l : List α) (x : α) : List α := if l.length < bound then l ++ [x] else l

/-- A ring of `n` cells is a queue of at most `n - 1` elements. -/
theorem contents_push (q : Ring α n) (x : α) :
    (q.push x).contents = offer (n - 1) q.contents x := by
  have hsize := q.size_lt
  unfold offer
  split
  · next h =>
    rw [length_contents] at h
    exact q.contents_push_room x (by omega)
  · next h =>
    rw [length_contents] at h
    rw [q.push_full x (by omega)]

theorem size_pop (q : Ring α n) (h : q.isEmpty = false) : q.pop.size + 1 = q.size := by
  have hne : q.head ≠ q.tail := by simpa [isEmpty] using h
  have hback : q.tail - (q.head + 1) + 1 = q.tail - q.head := by
    rw [sub_add_eq_sub_sub, sub_add_cancel]
  have hval := val_add_one (d := q.tail - (q.head + 1)) (by
    rw [hback, Ne, sub_eq_zero]
    exact hne.symm)
  rw [hback] at hval
  exact hval.symm

/-- The front of a ring that holds something is its oldest element. -/
theorem contents_pop (q : Ring α n) (h : q.isEmpty = false) :
    q.contents = q.front :: q.pop.contents := by
  rw [contents, ← q.size_pop h, List.range_succ_eq_map, List.map_cons, List.map_map, contents]
  congr 1
  · simp [front]
  · apply List.map_congr_left
    intro i _
    have hnext : q.head + Fin.ofNat n (i + 1) = q.head + 1 + Fin.ofNat n i := by
      rw [add_assoc, add_right_inj]
      apply Fin.ext
      simp [Fin.val_add, add_comm]
    exact congrArg q.cell hnext

end Ring

/-! ## Logs of a bounded queue -/

/-- One use of a queue. -/
inductive QueueAct (α : Type)
  | offered (x : α)
  | taken (x : α)

namespace QueueAct

def offered? : QueueAct α → Option α
  | offered x => some x
  | taken _ => none

def taken? : QueueAct α → Option α
  | offered _ => none
  | taken x => some x

variable [DecidableEq α]

/-- A queue refuses what finds it full, and gives away its oldest element only. -/
def use (bound : ℕ) (l : List α) : QueueAct α → Option (List α)
  | offered x => some (Ring.offer bound l x)
  | taken x => if l.head? = some x then some l.tail else none

/-- What a log takes from a queue was in it before or is offered in the log, in that order. -/
theorem replay_sublist (bound : ℕ) (acts : List (QueueAct α)) {l l' : List α}
    (h : acts.foldlM (use bound) l = some l') :
    ∃ kept, kept.Sublist (acts.filterMap offered?) ∧
      l ++ kept = acts.filterMap taken? ++ l' := by
  induction acts generalizing l with
  | nil =>
    cases h
    exact ⟨[], .refl _, by simp⟩
  | cons act acts ih =>
    rw [List.foldlM_cons] at h
    cases act with
    | offered x =>
      obtain ⟨kept, hsub, heq⟩ := ih (l := Ring.offer bound l x) h
      unfold Ring.offer at heq
      split at heq
      · -- the element is queued, so it is among the kept
        refine ⟨x :: kept, hsub.cons_cons x, ?_⟩
        rw [List.append_assoc, List.singleton_append] at heq
        exact heq
      · exact ⟨kept, hsub.cons x, heq⟩
    | taken x =>
      by_cases hhead : l.head? = some x
      · rw [show use bound l (.taken x) = some l.tail from if_pos hhead] at h
        obtain ⟨kept, hsub, heq⟩ := ih (l := l.tail) h
        obtain ⟨rest, rfl⟩ := List.head?_eq_some_iff.1 hhead
        exact ⟨kept, hsub, congrArg (x :: ·) heq⟩
      · rw [show use bound l (.taken x) = none from if_neg hhead] at h
        cases h

end QueueAct

namespace Ring

variable [DecidableEq α]

theorem replay_pushAll (q : Ring α n) (xs : List α) :
    (xs.map QueueAct.offered).foldlM (QueueAct.use (n - 1)) q.contents =
      some (q.pushAll xs).contents := by
  induction xs generalizing q with
  | nil => rfl
  | cons x xs ih =>
    rw [List.map_cons, List.foldlM_cons, QueueAct.use, ← contents_push]
    exact ih (q.push x)

theorem use_pop (bound : ℕ) (q : Ring α n) (h : q.isEmpty = false) :
    QueueAct.use bound q.contents (.taken q.front) = some q.pop.contents := by
  rw [q.contents_pop h]
  exact if_pos rfl

end Ring

end RingQueue
