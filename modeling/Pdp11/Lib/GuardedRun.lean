/-! Runs of a system by operations that carry a guard. -/

namespace GuardedRun

variable {Op σ : Type} {apply : Op → σ → σ} {ok ok' : Op → σ → Prop} {s t u : σ}

/-- `t` is reached from `s` by operations that each meet `ok` in the state they start from. -/
inductive Run (apply : Op → σ → σ) (ok : Op → σ → Prop) : σ → σ → Prop
  | refl (s : σ) : Run apply ok s s
  | snoc {s t : σ} (op : Op) : Run apply ok s t → ok op t → Run apply ok s (apply op t)

namespace Run

/-- What every guarded operation preserves holds along a run. -/
theorem invariant {I : σ → Prop} (hop : ∀ op s, ok op s → I s → I (apply op s))
    (h : Run apply ok s t) (hs : I s) : I t := by
  induction h with
  | refl => exact hs
  | snoc op _ hok ih => exact hop op _ hok ih

/-- A weaker guard admits the same run. -/
theorem mono (hok : ∀ op s, ok op s → ok' op s) (h : Run apply ok s t) : Run apply ok' s t := by
  induction h with
  | refl => exact .refl s
  | snoc op _ h' ih => exact .snoc op ih (hok op _ h')

end Run

end GuardedRun
