import Mathlib.Algebra.BigOperators.Group.List.Basic
import Mathlib.Tactic.Ring

/-! A periodic clock, and services that are inert before a deadline. -/

namespace EventSchedule

/-! ## Ticks of a period -/

/-- The first multiple of the period after `now`. -/
def nextTick (period now : ℕ) : ℕ := period * (now / period + 1)

variable {period now later : ℕ}

theorem lt_nextTick (h : 0 < period) (now : ℕ) : now < nextTick period now := by
  have hm := Nat.mod_lt now h
  have hd := Nat.div_add_mod now period
  rw [nextTick, Nat.mul_add_one]
  omega

/-- A time within one period of a multiple fixes the next tick. -/
theorem nextTick_eq {n : ℕ} (h0 : period * n ≤ now) (h1 : now < period * (n + 1)) :
    nextTick period now = period * (n + 1) := by
  rw [nextTick, Nat.div_eq_of_lt_le]
  · rwa [Nat.mul_comm]
  · rwa [Nat.mul_comm]

/-- Over less than a period past the next tick, one tick at most brings the schedule up to date. -/
theorem nextTick_advance (h0 : now ≤ later)
    (h1 : later < nextTick period now + period) :
    (if nextTick period now ≤ later then nextTick period now + period else nextTick period now) =
      nextTick period later := by
  have hd := Nat.div_mul_le_self now period
  split
  · next hd => exact (nextTick_eq hd h1).symm
  · next hlt =>
    refine (nextTick_eq ?_ (not_le.1 hlt)).symm
    rw [Nat.mul_comm]
    exact hd.trans h0

/-! ## Idling -/

variable {σ : Type} {advance : ℕ → σ → σ} {service : σ → σ}

/-- Advancing by pieces, with a service call after each that changes nothing before the end, comes
to one jump and one service call. -/
theorem foldl_advance (hadd : ∀ a b s, advance b (advance a s) = advance (a + b) s)
    (ds : List ℕ) (s : σ) (hpos : ∀ d ∈ ds, 0 < d) (hne : ds ≠ [])
    (hinert : ∀ k, 0 < k → k < ds.sum → service (advance k s) = advance k s) :
    ds.foldl (fun s d => service (advance d s)) s = service (advance ds.sum s) := by
  induction ds generalizing s with
  | nil => exact absurd rfl hne
  | cons d ds ih =>
    rw [List.foldl_cons, List.sum_cons]
    by_cases hds : ds = []
    · subst hds
      rfl
    have hd : 0 < d := hpos d List.mem_cons_self
    have hsum : 0 < ds.sum := by
      obtain ⟨e, es, rfl⟩ := List.exists_cons_of_ne_nil hds
      have he : 0 < e := hpos e (by simp)
      rw [List.sum_cons]
      omega
    have hskip : service (advance d s) = advance d s := by
      refine hinert d hd ?_
      rw [List.sum_cons]
      omega
    rw [hskip, ih (advance d s) (fun e he => hpos e (List.mem_cons_of_mem _ he)) hds, hadd]
    intro k hk hks
    rw [hadd]
    refine hinert (d + k) (by omega) ?_
    rw [List.sum_cons]
    omega

end EventSchedule
