import Mathlib.Data.Nat.Notation

/-! Computations that fail at an access outside its bounds. -/

namespace Checked

variable {α β σ ι : Type} {x : Option α} {f : α → Option β} {a : α} {b : β} {c c' : Prop}

/-- `x` yields `a` exactly when its accesses are in bounds, which is `c`. -/
def Checks (x : Option α) (c : Prop) (a : α) : Prop := ∀ t, x = some t ↔ c ∧ t = a

theorem Checks.eq_some (h : Checks x c a) (hc : c) : x = some a := (h a).2 ⟨hc, rfl⟩

theorem Checks.eq_none (h : Checks x c a) (hc : ¬c) : x = none := by
  cases hx : x with
  | none => rfl
  | some t => exact absurd ((h t).1 hx).1 hc

theorem Checks.of (hs : c → x = some a) (hn : ¬c → x = none) : Checks x c a := by
  intro t
  by_cases hc : c
  · rw [hs hc, Option.some.injEq]
    exact ⟨fun h => ⟨hc, h.symm⟩, fun h => h.2.symm⟩
  · rw [hn hc]
    exact iff_of_false nofun fun h => hc h.1

theorem checks_pure (a : α) : Checks (pure a) True a := .of (fun _ => rfl) fun h => absurd trivial h

theorem checks_some (h : x = some a) : Checks x True a := by
  rw [h]
  exact checks_pure a

theorem Checks.iff (h : Checks x c a) (hc : c ↔ c') : Checks x c' a := by
  rw [propext hc] at h
  exact h

theorem Checks.bind (hx : Checks x c a) (hf : Checks (f a) c' b) : Checks (x >>= f) (c ∧ c') b := by
  refine .of (fun h => ?_) fun h => ?_
  · rw [hx.eq_some h.1]
    exact hf.eq_some h.2
  · by_cases hc : c
    · rw [hx.eq_some hc]
      exact hf.eq_none fun hc' => h ⟨hc, hc'⟩
    · rw [hx.eq_none hc]
      rfl

theorem Checks.isSome_iff (h : Checks x c a) : x.isSome ↔ c := by
  by_cases hc : c
  · rw [h.eq_some hc]
    exact iff_of_true rfl hc
  · rw [h.eq_none hc]
    exact iff_of_false nofun hc

/-- The last part of a computation makes no more accesses. -/
theorem Checks.map {g : α → β} (hx : Checks x c a) : Checks (do let t ← x; pure (g t)) c (g a) :=
  (hx.bind (checks_pure (g a))).iff (by simp)

theorem Checks.ite {p : Prop} [Decidable p] {y : Option α} {b : α} (hx : p → Checks x c a)
    (hy : ¬p → Checks y c b) : Checks (if p then x else y) c (if p then a else b) := by
  by_cases h : p
  · rw [if_pos h, if_pos h]
    exact hx h
  · rw [if_neg h, if_neg h]
    exact hy h

/-- A computation that makes no access in a branch with nothing to check. -/
theorem checks_pure_of (a : α) (hc : c) : Checks (pure a) c a := (checks_pure a).iff (by simp [hc])

/-- A loop whose steps check conditions that do not depend on the state they start from. -/
theorem checks_foldlM {I : σ → Prop} {f : σ → ι → Option σ} {g : σ → ι → σ} {c : ι → Prop}
    (hf : ∀ s i, I s → Checks (f s i) (c i) (g s i)) (hg : ∀ s i, I s → I (g s i)) (l : List ι)
    {s : σ} (hs : I s) : Checks (l.foldlM f s) (∀ i ∈ l, c i) (l.foldl g s) := by
  induction l generalizing s with
  | nil =>
    rw [List.foldlM_nil]
    exact (checks_pure s).iff (by simp)
  | cons i l ih =>
    rw [List.foldlM_cons]
    exact ((hf s i hs).bind (ih (hg s i hs))).iff (by simp)

end Checked
