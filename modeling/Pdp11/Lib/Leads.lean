import Mathlib.Data.Nat.Notation
import Mathlib.Logic.Function.Iterate
import Mathlib.Tactic.Common

/-! What a deterministic system comes to. -/

namespace Reachability

variable {σ : Type*} {f : σ → σ} {P Q R : σ → Prop}

/-- From every state in `P` the system comes to a state in `Q`. -/
def Leads (f : σ → σ) (P Q : σ → Prop) : Prop := ∀ s, P s → ∃ n, Q (f^[n] s)

theorem Leads.refl (P : σ → Prop) : Leads f P P := fun _ h => ⟨0, h⟩

theorem Leads.of_imp (h : ∀ s, P s → Q s) : Leads f P Q := fun s hs => ⟨0, h s hs⟩

theorem Leads.one (h : ∀ s, P s → Q (f s)) : Leads f P Q := fun s hs => ⟨1, h s hs⟩

theorem Leads.trans (h : Leads f P Q) (h' : Leads f Q R) : Leads f P R := by
  intro s hs
  obtain ⟨n, hn⟩ := h s hs
  obtain ⟨k, hk⟩ := h' _ hn
  refine ⟨k + n, ?_⟩
  rw [Function.iterate_add_apply]
  exact hk

/-- One step, then the rest. -/
theorem Leads.next (h : ∀ s, P s → Q (f s)) (h' : Leads f Q R) : Leads f P R :=
  (Leads.one h).trans h'

/-- A loop whose every round ends it or brings `rank` down. -/
theorem Leads.loop (rank : σ → ℕ)
    (h : ∀ k, Leads f (fun s => P s ∧ rank s = k) fun s => Q s ∨ (P s ∧ rank s < k)) :
    Leads f P Q := by
  have hall : ∀ k, Leads f (fun s => P s ∧ rank s = k) Q := by
    intro k
    induction k using Nat.strongRecOn with
    | ind k ih =>
      intro s hs
      obtain ⟨n, hn | ⟨hP, hlt⟩⟩ := h k s hs
      · exact ⟨n, hn⟩
      · obtain ⟨j, hj⟩ := ih _ hlt _ ⟨hP, rfl⟩
        refine ⟨j + n, ?_⟩
        rw [Function.iterate_add_apply]
        exact hj
  exact fun s hs => hall _ s ⟨hs, rfl⟩

/-- A loop that runs through `n` rounds. -/
theorem Leads.rounds {I : ℕ → σ → Prop} (n : ℕ) (h : ∀ k < n, Leads f (I k) (I (k + 1))) :
    Leads f (I 0) (I n) := by
  induction n with
  | zero => exact .refl _
  | succ n ih => exact (ih fun k hk => h k (by omega)).trans (h n (by omega))

end Reachability
