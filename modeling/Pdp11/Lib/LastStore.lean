import Mathlib.Data.List.Induction
import Mathlib.Logic.Function.Basic

/-! Cells that hold what was last stored in them. -/

namespace LastStore

variable {κ β ω : Type} [DecidableEq κ]

/-- A store to the cell `key w`, or to none; the cell `k` is left with `val w k`. -/
def put (key : ω → Option κ) (val : ω → κ → β) (f : κ → β) (w : ω) : κ → β :=
  (key w).elim f fun k => Function.update f k (val w k)

def putAll (key : ω → Option κ) (val : ω → κ → β) (f : κ → β) (ws : List ω) : κ → β :=
  ws.foldl (put key val) f

/-- The last store to a cell. -/
def last (key : ω → Option κ) (ws : List ω) (k : κ) : Option ω :=
  (ws.filter fun w => key w = some k).getLast?

variable {key : ω → Option κ} {val : ω → κ → β} {f : κ → β} {ws vs : List ω}

@[simp] theorem putAll_nil : putAll key val f [] = f := rfl

@[simp] theorem putAll_append :
    putAll key val f (ws ++ vs) = putAll key val (putAll key val f ws) vs := List.foldl_append

theorem putAll_singleton {w : ω} : putAll key val f [w] = put key val f w := rfl

theorem put_of_none {w : ω} (h : key w = none) : put key val f w = f := by simp [put, h]

theorem put_of_some {w : ω} {k : κ} (h : key w = some k) :
    put key val f w = Function.update f k (val w k) := by simp [put, h]

/-- A cell holds what the last store to it left, or what it held before. -/
theorem putAll_apply (k : κ) :
    putAll key val f ws k = ((last key ws k).map fun w => val w k).getD (f k) := by
  induction ws using List.reverseRecOn with
  | nil => rfl
  | append_singleton ws w ih =>
    rw [putAll_append, putAll_singleton, last, List.filter_append]
    by_cases hk : key w = some k
    · rw [put_of_some hk, Function.update_self]
      simp [hk]
    · have hput : put key val (putAll key val f ws) w k = putAll key val f ws k := by
        cases hw : key w with
        | none => rw [put_of_none hw]
        | some j =>
          rw [put_of_some hw]
          refine Function.update_of_ne ?_ _ _
          rintro rfl
          exact hk hw
      rw [hput, ih]
      simp [hk, last]

end LastStore
