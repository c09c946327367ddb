import Pdp11.Lib.FaultState

/-! Attempts repeated after each failure, a bounded number of times. -/

namespace Retry

variable {ε σ : Type} {act giveUp : EStateM ε σ Unit} {n k : ℕ} {s t u : σ}

/-- `n` attempts that fail, each in the state the one before it left. -/
inductive Failed (act : EStateM ε σ Unit) : ℕ → σ → σ → Prop
  | none (s : σ) : Failed act 0 s s
  | more {n : ℕ} {s t u : σ} {e : ε} (h : act s = .error e t) (hrest : Failed act n t u) :
      Failed act (n + 1) s u

/-- Attempts until one succeeds, or `n` have failed. -/
def attempt (act giveUp : EStateM ε σ Unit) : ℕ → EStateM ε σ Unit
  | 0 => giveUp
  | n + 1 => fun s => match act s with
    | .ok a t => .ok a t
    | .error _ t => attempt act giveUp n t

theorem attempt_succ (n : ℕ) (s : σ) : attempt act giveUp (n + 1) s = match act s with
    | .ok a t => .ok a t
    | .error _ t => attempt act giveUp n t := rfl

theorem attempt_ok {a : Unit} (h : act s = .ok a t) : attempt act giveUp (n + 1) s = .ok a t := by
  rw [attempt_succ, h]

theorem attempt_error {e : ε} (h : act s = .error e t) :
    attempt act giveUp (n + 1) s = attempt act giveUp n t := by
  rw [attempt_succ, h]

/-- Either all `n` attempts fail, or fewer of them do before one that succeeds. -/
theorem attempt_cases (act giveUp : EStateM ε σ Unit) (n : ℕ) (s : σ) :
    (∃ t, Failed act n s t ∧ attempt act giveUp n s = giveUp t) ∨
      ∃ k < n, ∃ t u, Failed act k s t ∧ act t = .ok () u ∧ attempt act giveUp n s = .ok () u := by
  induction n generalizing s with
  | zero => exact .inl ⟨s, .none s, rfl⟩
  | succ n ih =>
    cases hact : act s with
    | ok a t => exact .inr ⟨0, Nat.succ_pos n, s, t, .none s, hact, attempt_ok hact⟩
    | error e t =>
      rw [attempt_error hact]
      obtain ⟨u, hfailed, hrun⟩ | ⟨k, hk, u, v, hfailed, hok, hrun⟩ := ih t
      · exact .inl ⟨u, .more hact hfailed, hrun⟩
      · exact .inr ⟨k + 1, Nat.succ_lt_succ hk, u, v, .more hact hfailed, hok, hrun⟩

namespace Failed

/-- An attempt that succeeds after fewer failures ends the attempts. -/
theorem ends (h : Failed act k s t) {a : Unit} (hok : act t = .ok a u) (hk : k < n) :
    attempt act giveUp n s = .ok a u := by
  induction h generalizing n with
  | none s =>
    cases n with
    | zero => exact absurd hk (Nat.lt_irrefl 0)
    | succ n => exact attempt_ok hok
  | more he _ ih =>
    cases n with
    | zero => exact absurd hk (Nat.not_lt_zero _)
    | succ n =>
      rw [attempt_error he]
      exact ih hok (Nat.lt_of_succ_lt_succ hk)

/-- Once all attempts have failed, they are given up. -/
theorem gives_up (h : Failed act n s t) : attempt act giveUp n s = giveUp t := by
  induction h with
  | none s => rfl
  | more he _ ih => rw [attempt_error he, ih]

/-- What a failed attempt keeps, `n` of them keep. -/
theorem kept {R : σ → σ → Prop} (hrefl : ∀ s, R s s) (htrans : ∀ s t u, R s t → R t u → R s u)
    (hact : ∀ s e t, act s = .error e t → R s t) (h : Failed act n s t) : R s t := by
  induction h with
  | none s => exact hrefl s
  | more he _ ih => exact htrans _ _ _ (hact _ _ _ he) ih

/-- What a failed attempt raises by one, `n` of them raise by `n`. -/
theorem count {f : σ → ℕ} (hact : ∀ s e t, act s = .error e t → f t = f s + 1)
    (h : Failed act n s t) : f t = f s + n := by
  induction h with
  | none s => rfl
  | more he _ ih =>
    rw [ih, hact _ _ _ he]
    omega

end Failed

end Retry
