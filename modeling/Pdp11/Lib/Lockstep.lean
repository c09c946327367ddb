import Pdp11.Lib.FaultState

/-! Two runs of one computation, from related states. -/

namespace Lockstep

open FaultState

variable {ε σ : Type} {α β : Type} {R S T E F : σ → σ → Prop}

/-- Two outcomes agree: both return one value in states related by `S`, or both raise one
exception in states related by `E`. -/
inductive Agree (S E : σ → σ → Prop) : EStateM.Result ε σ α → EStateM.Result ε σ α → Prop
  | ok (a : α) {s t : σ} : S s t → Agree S E (.ok a s) (.ok a t)
  | error (e : ε) {s t : σ} : E s t → Agree S E (.error e s) (.error e t)

/-- From states related by `R` a computation ends in outcomes that agree. -/
def Locked (R S E : σ → σ → Prop) (x : EStateM ε σ α) : Prop :=
  ∀ s t, R s t → Agree S E (x s) (x t)

theorem Agree.mono {x y : EStateM.Result ε σ α} (h : Agree S E x y) (hS : ∀ s t, S s t → T s t)
    (hE : ∀ s t, E s t → F s t) : Agree T F x y := by
  cases h with
  | ok a h => exact .ok a (hS _ _ h)
  | error e h => exact .error e (hE _ _ h)

theorem locked_pure (a : α) : Locked R R E (pure a : EStateM ε σ α) := fun _ _ h => .ok a h

theorem Locked.mono {x : EStateM ε σ α} (hx : Locked R S E x) (hS : ∀ s t, S s t → T s t)
    (hE : ∀ s t, E s t → F s t) : Locked R T F x :=
  fun s t h => (hx s t h).mono hS hE

theorem Locked.bind {x : EStateM ε σ α} {f : α → EStateM ε σ β} (hx : Locked R S E x)
    (hf : ∀ a, Locked S T E (f a)) : Locked R T E (x >>= f) := by
  intro s t h
  have hout := hx s t h
  rw [bind_apply, bind_apply]
  generalize x s = r at hout ⊢
  generalize x t = r' at hout ⊢
  cases hout with
  | ok a h' => exact hf a _ _ h'
  | error e h' => exact .error e h'

/-- Two runs that agree go on alike when the second part agrees from where the first has ended. -/
theorem Agree.bind {x : EStateM ε σ α} {f : α → EStateM ε σ β} {s t : σ}
    (hx : Agree S E (x s) (x t))
    (hf : ∀ a s' t', x s = .ok a s' → S s' t' → Agree T E (f a s') (f a t')) :
    Agree T E ((x >>= f) s) ((x >>= f) t) := by
  rw [bind_apply, bind_apply]
  generalize x s = r at hx hf ⊢
  generalize x t = r' at hx ⊢
  cases hx with
  | ok a h' => exact hf a _ _ rfl h'
  | error e h' => exact .error e h'

theorem Locked.cond {c : Prop} [Decidable c] {x y : EStateM ε σ α} (hx : c → Locked R S E x)
    (hy : ¬c → Locked R S E y) : Locked R S E (if c then x else y) := by
  split
  · exact hx ‹_›
  · exact hy ‹_›

theorem Locked.ite {c : Prop} [Decidable c] {x y : EStateM ε σ α} (hx : Locked R S E x)
    (hy : Locked R S E y) : Locked R S E (if c then x else y) := .cond (fun _ => hx) fun _ => hy

/-- An invariant that the computation keeps may be assumed of the first run. -/
theorem Locked.keeping {x : EStateM ε σ α} {I : σ → Prop} (hx : Locked R S E x) (hI : Keeps I x) :
    Locked (fun s t => R s t ∧ I s) (fun s t => S s t ∧ I s) E x := by
  rintro s t ⟨h, hi⟩
  have hout := hx s t h
  have hkept := hI s hi
  generalize x s = r at hout hkept ⊢
  generalize x t = r' at hout ⊢
  cases hout with
  | ok a h' => exact .ok a ⟨h', hkept⟩
  | error e h' => exact .error e h'

/-! ## Two computations, from related states -/

/-- Two outcomes agree up to the values they return. -/
inductive Paired (V : α → β → Prop) (S E : σ → σ → Prop) :
    EStateM.Result ε σ α → EStateM.Result ε σ β → Prop
  | ok {a : α} {b : β} {s t : σ} : V a b → S s t → Paired V S E (.ok a s) (.ok b t)
  | error (e : ε) {s t : σ} : E s t → Paired V S E (.error e s) (.error e t)

/-- From states related by `R` two computations end in outcomes that agree, with values related
by `V`. -/
def Pairs (R S E : σ → σ → Prop) (V : α → β → Prop) (x : EStateM ε σ α) (y : EStateM ε σ β) :
    Prop := ∀ s t, R s t → Paired V S E (x s) (y t)

section
variable {γ δ : Type} {V : α → β → Prop} {W : γ → δ → Prop}

theorem Locked.pairs {x : EStateM ε σ α} (hx : Locked R S E x) : Pairs R S E Eq x x := by
  intro s t h
  have hout := hx s t h
  generalize x s = r at hout ⊢
  generalize x t = r' at hout ⊢
  cases hout with
  | ok a h' => exact .ok rfl h'
  | error e h' => exact .error e h'

theorem Pairs.locked {x : EStateM ε σ α} (hx : Pairs R S E Eq x x) : Locked R S E x := by
  intro s t h
  have hout := hx s t h
  generalize x s = r at hout ⊢
  generalize x t = r' at hout ⊢
  cases hout with
  | ok hv h' =>
    subst hv
    exact .ok _ h'
  | error e h' => exact .error e h'

theorem Pairs.mono {V' : α → β → Prop} {x : EStateM ε σ α} {y : EStateM ε σ β}
    (hx : Pairs R S E V x y) (hV : ∀ a b, V a b → V' a b) : Pairs R S E V' x y := by
  intro s t h
  have hout := hx s t h
  generalize x s = r at hout ⊢
  generalize y t = r' at hout ⊢
  cases hout with
  | ok hv h' => exact .ok (hV _ _ hv) h'
  | error e h' => exact .error e h'

theorem pairs_pure {a : α} {b : β} (h : V a b) :
    Pairs R R E V (pure a : EStateM ε σ α) (pure b) := fun _ _ hR => .ok h hR

theorem Pairs.bind {x : EStateM ε σ α} {y : EStateM ε σ β} {f : α → EStateM ε σ γ}
    {g : β → EStateM ε σ δ} (hx : Pairs R S E V x y) (hf : ∀ a b, V a b → Pairs S T E W (f a) (g b)) :
    Pairs R T E W (x >>= f) (y >>= g) := by
  intro s t h
  have hout := hx s t h
  rw [bind_apply, bind_apply]
  generalize x s = r at hout ⊢
  generalize y t = r' at hout ⊢
  cases hout with
  | ok hv h' => exact hf _ _ hv _ _ h'
  | error e h' => exact .error e h'

/-- What every return of a computation meets may be assumed of its value. -/
theorem Locked.yielding {x : EStateM ε σ α} {Q : α → Prop} (hx : Locked R S E x)
    (hQ : Yields Q x) : Pairs R S E (fun a b => a = b ∧ Q a) x x := by
  intro s t h
  have hout := hx s t h
  have hval := hQ s
  generalize x s = r at hout hval ⊢
  generalize x t = r' at hout ⊢
  cases hout with
  | ok a h' => exact .ok ⟨rfl, hval a _ rfl⟩ h'
  | error e h' => exact .error e h'

/-- A common first part, after which two computations go on with one value. -/
theorem Locked.bind_pairs {x : EStateM ε σ α} {f : α → EStateM ε σ γ} {g : α → EStateM ε σ δ}
    (hx : Locked R S E x) (hf : ∀ a, Pairs S T E W (f a) (g a)) :
    Pairs R T E W (x >>= f) (x >>= g) :=
  hx.pairs.bind fun a _ hab => hab ▸ hf a

theorem Pairs.ite {c : Prop} [Decidable c] {x x' : EStateM ε σ α} {y y' : EStateM ε σ β}
    (hx : Pairs R S E V x y) (hy : Pairs R S E V x' y') :
    Pairs R S E V (if c then x else x') (if c then y else y') := by
  split
  · exact hx
  · exact hy

end

/-! ## Two computations from one state -/

/-- Two outcomes are alike: both return values related by `V` in one state, or both raise one
exception in one state. -/
inductive Alike (V : α → β → Prop) : EStateM.Result ε σ α → EStateM.Result ε σ β → Prop
  | ok {a : α} {b : β} (s : σ) : V a b → Alike V (.ok a s) (.ok b s)
  | error (e : ε) (s : σ) : Alike V (.error e s) (.error e s)

section
variable {γ : Type} {V : α → β → Prop} {a : α} {b : β} {e : ε} {s t : σ}

theorem alike_ok : Alike V (.ok a s : EStateM.Result ε σ α) (.ok b t) ↔ V a b ∧ s = t := by
  constructor
  · rintro ⟨⟩
    exact ⟨by assumption, rfl⟩
  · rintro ⟨hv, rfl⟩
    exact .ok s hv

theorem alike_error_right {x : EStateM.Result ε σ α} :
    Alike V x (.error e s) ↔ x = .error e s := by
  constructor
  · rintro ⟨⟩
    rfl
  · rintro rfl
    exact .error e s

theorem Alike.final_eq {x : EStateM.Result ε σ α} {y : EStateM.Result ε σ β} (h : Alike V x y) :
    final x = final y := by
  cases h <;> rfl

theorem not_alike_ok_error : ¬Alike V (.ok a s : EStateM.Result ε σ α) (.error e t) := nofun

/-- A common first part takes two computations to the same state, and they are alike when what
follows it is. -/
theorem alike_bind (x : EStateM ε σ γ) (f : γ → EStateM ε σ α) (g : γ → EStateM ε σ β) (s : σ) :
    Alike V ((x >>= f) s) ((x >>= g) s) ↔ ∀ c t, x s = .ok c t → Alike V (f c t) (g c t) := by
  rw [bind_apply, bind_apply]
  cases x s with
  | ok c t =>
    constructor
    · rintro h _ _ ⟨⟩
      exact h
    · intro h
      exact h c t rfl
  | error e t =>
    constructor
    · rintro - _ _ ⟨⟩
    · intro _
      exact .error e t

end

end Lockstep
