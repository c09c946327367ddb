import Mathlib.Order.Defs.Unbundled
import Mathlib.Data.Nat.Notation

/-! Computations over a state that may stop with an exception and keep the state they reached. -/

namespace FaultState

variable {ε σ : Type} {α β : Type}

/-- The state a computation ends in, whether it returns or raises. -/
def final : EStateM.Result ε σ α → σ
  | .ok _ s => s
  | .error _ s => s

@[simp] theorem final_ok (a : α) (s : σ) : final (.ok a s : EStateM.Result ε σ α) = s := rfl

@[simp] theorem final_error (e : ε) (s : σ) : final (.error e s : EStateM.Result ε σ α) = s := rfl

/-- Whether a computation returned. -/
def isOk : EStateM.Result ε σ α → Bool
  | .ok _ _ => true
  | .error _ _ => false

theorem eq_ok_final {r : EStateM.Result ε σ α} (h : isOk r = true) : ∃ a, r = .ok a (final r) := by
  cases r with
  | ok a s => exact ⟨a, rfl⟩
  | error e s => cases h

theorem eq_error_final {r : EStateM.Result ε σ α} (h : isOk r = false) :
    ∃ e, r = .error e (final r) := by
  cases r with
  | ok a s => cases h
  | error e s => exact ⟨e, rfl⟩

/-- The value a computation returned, if it did. -/
def value? : EStateM.Result ε σ α → Option α
  | .ok a _ => some a
  | .error _ _ => none

theorem eq_ok_of_value {r : EStateM.Result ε σ α} {a : α} (h : value? r = some a) :
    r = .ok a (final r) := by
  cases r with
  | ok b s =>
    cases h
    rfl
  | error e s => cases h

theorem bind_apply (x : EStateM ε σ α) (f : α → EStateM ε σ β) (s : σ) :
    (x >>= f) s = match x s with
      | .ok a s' => f a s'
      | .error e s' => .error e s' := rfl

theorem bind_ok {x : EStateM ε σ α} {f : α → EStateM ε σ β} {s s' : σ} {a : α}
    (h : x s = .ok a s') : (x >>= f) s = f a s' := by
  rw [bind_apply, h]

theorem bind_error {x : EStateM ε σ α} {f : α → EStateM ε σ β} {s s' : σ} {e : ε}
    (h : x s = .error e s') : (x >>= f) s = .error e s' := by
  rw [bind_apply, h]

/-- A sequence returns exactly when both parts do. -/
theorem bind_eq_ok {x : EStateM ε σ α} {f : α → EStateM ε σ β} {s s'' : σ} {b : β} :
    (x >>= f) s = .ok b s'' ↔ ∃ a s', x s = .ok a s' ∧ f a s' = .ok b s'' := by
  rw [bind_apply]
  cases x s with
  | ok a s' =>
    refine ⟨fun h => ⟨a, s', rfl, h⟩, ?_⟩
    rintro ⟨_, _, ⟨⟩, h⟩
    exact h
  | error e s' => simp

/-- A sequence raises when its first part does, or its second part does after the first. -/
theorem bind_eq_error {x : EStateM ε σ α} {f : α → EStateM ε σ β} {s s'' : σ} {e : ε} :
    (x >>= f) s = .error e s'' ↔
      x s = .error e s'' ∨ ∃ a s', x s = .ok a s' ∧ f a s' = .error e s'' := by
  rw [bind_apply]
  cases x s with
  | ok a s' =>
    refine ⟨fun h => .inr ⟨a, s', rfl, h⟩, ?_⟩
    rintro (h | ⟨_, _, ⟨⟩, h⟩)
    · cases h
    · exact h
  | error e' s' => simp

theorem bind_congr {x y : EStateM ε σ α} {f : α → EStateM ε σ β} {s s' : σ} (h : x s = y s') :
    (x >>= f) s = (y >>= f) s' := by
  rw [bind_apply, bind_apply, h]

theorem pure_bind_eq (a : α) (f : α → EStateM ε σ β) : (pure a >>= f) = f a := by
  funext s
  rfl

theorem bind_assoc_eq {γ : Type} (x : EStateM ε σ α) (f : α → EStateM ε σ β)
    (g : β → EStateM ε σ γ) : (x >>= f) >>= g = x >>= fun a => f a >>= g := by
  funext s
  simp only [bind_apply]
  cases x s <;> rfl

/-! ## When a run returns -/

/-- From `s` a computation returns exactly when `c` holds, then with `a` and in a state that meets
`P`. -/
structure Returns (x : EStateM ε σ α) (s : σ) (c : Prop) (a : α) (P : σ → Prop) : Prop where
  ok : c → ∃ t, x s = .ok a t ∧ P t
  error : ¬c → isOk (x s) = false

namespace Returns

variable {x : EStateM ε σ α} {f : α → EStateM ε σ β} {s t : σ} {a : α} {b : β} {c c' : Prop}
  {P Q : σ → Prop}

theorem isOk_iff (h : Returns x s c a P) : isOk (x s) = true ↔ c := by
  by_cases hc : c
  · obtain ⟨t, ht, -⟩ := h.ok hc
    rw [ht]
    exact ⟨fun _ => hc, fun _ => rfl⟩
  · rw [h.error hc]
    exact ⟨fun h => absurd h Bool.false_ne_true, fun h => absurd h hc⟩

theorem of_ok (h : x s = .ok a t) (hP : P t) : Returns x s True a P :=
  ⟨fun _ => ⟨t, h, hP⟩, fun hn => absurd trivial hn⟩

theorem bind (hx : Returns x s c a P) (hf : ∀ t, P t → Returns (f a) t c' b Q) :
    Returns (x >>= f) s (c ∧ c') b Q := by
  constructor
  · rintro ⟨hc, hc'⟩
    obtain ⟨t, ht, hP⟩ := hx.ok hc
    rw [bind_ok ht]
    exact (hf t hP).ok hc'
  · intro hn
    by_cases hc : c
    · obtain ⟨t, ht, hP⟩ := hx.ok hc
      rw [bind_ok ht]
      exact (hf t hP).error fun hc' => hn ⟨hc, hc'⟩
    · have he := hx.error hc
      rw [bind_apply]
      cases hr : x s with
      | ok a t =>
        rw [hr] at he
        cases he
      | error e t => rfl

/-- What is known of every return is known of the one from `s`. -/
theorem and_of_ok (h : Returns x s c a P) (hQ : ∀ t, x s = .ok a t → Q t) :
    Returns x s c a fun t => P t ∧ Q t := by
  refine ⟨fun hc => ?_, h.error⟩
  obtain ⟨t, ht, hP⟩ := h.ok hc
  exact ⟨t, ht, hP, hQ t ht⟩

theorem congr (h : Returns x s c a P) (hc : c ↔ c') : Returns x s c' a P :=
  ⟨fun h' => h.ok (hc.2 h'), fun h' => h.error (mt hc.1 h')⟩

/-- The same run, started elsewhere. -/
theorem of_run {y : EStateM ε σ α} (h : Returns y t c a P) (hrun : x s = y t) :
    Returns x s c a P := by
  constructor <;> rw [hrun]
  · exact h.ok
  · exact h.error

end Returns

/-! ## What a run returns -/

/-- Every value that `x` returns meets `Q`. -/
def Yields (Q : α → Prop) (x : EStateM ε σ α) : Prop := ∀ s a t, x s = .ok a t → Q a

theorem yields_pure {Q : α → Prop} {a : α} (h : Q a) : Yields Q (pure a : EStateM ε σ α) := by
  rintro s _ _ ⟨⟩
  exact h

theorem Yields.bind {Q : β → Prop} {x : EStateM ε σ α} {f : α → EStateM ε σ β}
    (hf : ∀ a, Yields Q (f a)) : Yields Q (x >>= f) := by
  intro s b t h
  obtain ⟨a, s', -, h⟩ := bind_eq_ok.1 h
  exact hf a s' b t h

theorem Yields.ite {Q : α → Prop} {c : Prop} [Decidable c] {x y : EStateM ε σ α}
    (hx : c → Yields Q x) (hy : ¬c → Yields Q y) : Yields Q (if c then x else y) := by
  split
  · exact hx ‹_›
  · exact hy ‹_›

/-! ## Relations kept by every run -/

/-- Every run of `x` moves the state along `R`, also when it raises. -/
def Respects (R : σ → σ → Prop) (x : EStateM ε σ α) : Prop := ∀ s, R s (final (x s))

theorem Respects.of_ok {R : σ → σ → Prop} {x : EStateM ε σ α} (h : Respects R x) {s s' : σ} {a : α}
    (hx : x s = .ok a s') : R s s' := by
  simpa only [hx, final_ok, final_error] using h s

theorem Respects.of_error {R : σ → σ → Prop} {x : EStateM ε σ α} (h : Respects R x) {s s' : σ}
    {e : ε} (hx : x s = .error e s') : R s s' := by
  simpa only [hx, final_ok, final_error] using h s

theorem respects_pure {R : σ → σ → Prop} (hrefl : ∀ s, R s s) (a : α) :
    Respects R (pure a : EStateM ε σ α) := hrefl

theorem Respects.bind {R : σ → σ → Prop} (htrans : ∀ s t u, R s t → R t u → R s u)
    {x : EStateM ε σ α} {f : α → EStateM ε σ β} (hx : Respects R x) (hf : ∀ a, Respects R (f a)) :
    Respects R (x >>= f) := by
  intro s
  rw [bind_apply]
  cases h : x s with
  | ok a s' => exact htrans _ _ _ (hx.of_ok h) (hf a s')
  | error e s' => exact hx.of_error h

/-- Every run of `x` keeps an invariant, also when it raises. -/
abbrev Keeps (I : σ → Prop) (x : EStateM ε σ α) : Prop := Respects (fun s t => I s → I t) x

theorem Keeps.bind {I : σ → Prop} {x : EStateM ε σ α} {f : α → EStateM ε σ β} (hx : Keeps I x)
    (hf : ∀ a, Keeps I (f a)) : Keeps I (x >>= f) :=
  Respects.bind (fun _ _ _ h h' hs => h' (h hs)) hx hf

/-- Every run of `x` relates its start to how and where it ends. -/
def Outcomes (Q : σ → Bool → σ → Prop) (x : EStateM ε σ α) : Prop :=
  ∀ s, Q s (isOk (x s)) (final (x s))

theorem Outcomes.bind {Q : σ → Bool → σ → Prop} (htrans : ∀ s t u b, Q s true t → Q t b u → Q s b u)
    {x : EStateM ε σ α} {f : α → EStateM ε σ β} (hx : Outcomes Q x) (hf : ∀ a, Outcomes Q (f a)) :
    Outcomes Q (x >>= f) := by
  intro s
  have h := hx s
  rw [bind_apply]
  cases hr : x s with
  | ok a t =>
    rw [hr] at h
    exact htrans s t _ _ h (hf a t)
  | error e t =>
    rw [hr] at h
    exact h

/-! ## Programs built from primitive operations -/

/-- The programs that sequence operations of a class `P`. -/
inductive Built (P : (α : Type) → EStateM ε σ α → Prop) : (α : Type) → EStateM ε σ α → Prop
  | pure {α : Type} (a : α) : Built P α (pure a)
  | op {α : Type} {x : EStateM ε σ α} : P α x → Built P α x
  | bind {α β : Type} {x : EStateM ε σ α} {f : α → EStateM ε σ β} :
      Built P α x → (∀ a, Built P β (f a)) → Built P β (x >>= f)

variable {P Q : (α : Type) → EStateM ε σ α → Prop}

theorem Built.ite {c : Prop} [Decidable c] {x y : EStateM ε σ α} (hx : Built P α x)
    (hy : Built P α y) : Built P α (if c then x else y) := by
  split
  · exact hx
  · exact hy

/-- Operations that are themselves programs over `Q` may be replaced by those. -/
theorem Built.subst (hPQ : ∀ {α : Type} {x : EStateM ε σ α}, P α x → Built Q α x)
    {x : EStateM ε σ α} (h : Built P α x) : Built Q α x := by
  induction h with
  | pure a => exact .pure a
  | op hx => exact hPQ hx
  | bind _ _ ihx ihf => exact .bind ihx ihf

/-- A reflexive and transitive relation that every operation respects is respected by every
program. -/
theorem Built.respects {R : σ → σ → Prop} (hrefl : ∀ s, R s s)
    (htrans : ∀ s t u, R s t → R t u → R s u)
    (hop : ∀ {α : Type} {x : EStateM ε σ α}, P α x → Respects R x)
    {x : EStateM ε σ α} (h : Built P α x) : Respects R x := by
  induction h with
  | pure a => exact respects_pure hrefl a
  | op hx => exact hop hx
  | bind _ _ ihx ihf => exact ihx.bind htrans ihf

theorem Built.outcomes {Q : σ → Bool → σ → Prop} (hrefl : ∀ s, Q s true s)
    (htrans : ∀ s t u b, Q s true t → Q t b u → Q s b u)
    (hop : ∀ {α : Type} {x : EStateM ε σ α}, P α x → Outcomes Q x) {x : EStateM ε σ α}
    (h : Built P α x) : Outcomes Q x := by
  induction h with
  | pure a => exact hrefl
  | op hx => exact hop hx
  | bind _ _ ihx ihf => exact ihx.bind htrans ihf

theorem Built.keeps {I : σ → Prop} (hop : ∀ {α : Type} {x : EStateM ε σ α}, P α x → Keeps I x)
    {x : EStateM ε σ α} (h : Built P α x) : Keeps I x :=
  h.respects (fun _ hs => hs) (fun _ _ _ h h' hs => h' (h hs)) hop

end FaultState
