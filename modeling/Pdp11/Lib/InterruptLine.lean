import Mathlib.Logic.Relation

/-! The interrupt line of a controller that works on one command at a time. -/

/-- What a controller shows of its work: the done and enable bits of its status register, whether
a completion is outstanding, and whether it requests an interrupt. -/
@[ext]
structure InterruptLine where
  done : Bool
  ie : Bool
  busy : Bool
  requested : Bool
  deriving DecidableEq, Repr

namespace InterruptLine

/-- A command ends. -/
def complete (l : InterruptLine) : InterruptLine :=
  { l with done := true, busy := false, requested := l.ie }

/-- Something arrives unasked; a request that stands is left standing. -/
def arrive (l : InterruptLine) : InterruptLine :=
  { l with done := true, busy := false, requested := l.ie || l.requested }

/-- A command is taken up: ready falls, and a request is dropped. -/
def accept (l : InterruptLine) : InterruptLine := { l with done := false, requested := false }

/-- A command begins. -/
def begin (l : InterruptLine) : InterruptLine := { l.accept with busy := true }

/-- The enable bit is written: enabling requests an interrupt if the controller is done and was
not enabled before, and disabling drops the request. -/
def setIe (on : Bool) (l : InterruptLine) : InterruptLine :=
  { l with ie := on, requested := on && ((l.done && !l.ie) || l.requested) }

/-- The controller is initialised. -/
def clear (_ : InterruptLine) : InterruptLine := ⟨true, false, false, false⟩

/-- Both bits are loaded, and the request follows them. -/
def assign (done ie : Bool) (l : InterruptLine) : InterruptLine :=
  { l with done := done, ie := ie, requested := done && ie }

/-- A command is launched by a load of the status register that leaves a request standing. -/
def launch (on : Bool) (l : InterruptLine) : InterruptLine :=
  { l with done := false, ie := on, busy := true }

/-- The processor takes the interrupt. -/
def acknowledge (l : InterruptLine) : InterruptLine := { l with requested := false }

/-- The changes of a controller that sets its done bit by completing commands only. -/
inductive Step : InterruptLine → InterruptLine → Prop
  | complete (l : InterruptLine) : Step l l.complete
  | arrive (l : InterruptLine) : Step l l.arrive
  | begin (l : InterruptLine) : Step l l.begin
  | setIe (on : Bool) (l : InterruptLine) : Step l (l.setIe on)
  | clear (l : InterruptLine) : Step l l.clear

/-- The changes of a controller whose done bit may be loaded too. -/
inductive Change : InterruptLine → InterruptLine → Prop
  | step {l l' : InterruptLine} : Step l l' → Change l l'
  | assign (done ie : Bool) (l : InterruptLine) : Change l (l.assign done ie)

/-- The changes a controller makes of itself, which leave the enable alone. -/
inductive Served : InterruptLine → InterruptLine → Prop
  | rest (l : InterruptLine) : Served l l
  | complete (l : InterruptLine) : Served l l.complete
  | arrive (l : InterruptLine) : Served l l.arrive

/-- A command that is taken up ends at once or is left outstanding. -/
inductive Taken : InterruptLine → InterruptLine → Prop
  | complete (l : InterruptLine) : Taken l l.complete
  | begin (l : InterruptLine) : Taken l l.begin

abbrev Steps : InterruptLine → InterruptLine → Prop := Relation.ReflTransGen Step

abbrev Changes : InterruptLine → InterruptLine → Prop := Relation.ReflTransGen Change

variable {l l' : InterruptLine}

theorem Step.steps (h : Step l l') : Steps l l' := .single h

theorem Served.steps (h : Served l l') : Steps l l' := by
  cases h with
  | rest => exact .refl
  | complete => exact (Step.complete l).steps
  | arrive => exact (Step.arrive l).steps

theorem Taken.steps (h : Taken l l') : Steps l l' := by
  cases h with
  | complete => exact (Step.complete l).steps
  | begin => exact (Step.begin l).steps

theorem Change.changes (h : Change l l') : Changes l l' := .single h

theorem Steps.changes (h : Steps l l') : Changes l l' :=
  Relation.ReflTransGen.mono (fun _ _ => Change.step) _ _ h

/-! ## Invariants -/

/-- The controller is done and enabled. -/
def Ready (l : InterruptLine) : Prop := l.done = true ∧ l.ie = true

/-- An interrupt is requested only by a controller that is done and enabled. -/
def Sound (l : InterruptLine) : Prop := l.requested = true → l.Ready

/-- A controller that is done and enabled requests its interrupt. -/
def Prompt (l : InterruptLine) : Prop := l.Ready → l.requested = true

/-- A controller is ready exactly when nothing is outstanding. -/
def Regular (l : InterruptLine) : Prop := l.done = false ↔ l.busy = true

theorem Change.sound (h : Change l l') (hl : l.Sound) : l'.Sound := by
  cases h with
  | step h =>
    cases h with
    | complete => exact fun h => ⟨rfl, h⟩
    | arrive =>
      intro h
      rcases (Bool.or_eq_true _ _).mp h with h | h
      · exact ⟨rfl, h⟩
      · exact ⟨rfl, (hl h).2⟩
    | begin => exact fun h => nomatch h
    | setIe on =>
      intro h
      obtain ⟨hon, h⟩ := (Bool.and_eq_true _ _).mp h
      rcases (Bool.or_eq_true _ _).mp h with h | h
      · exact ⟨((Bool.and_eq_true _ _).mp h).1, hon⟩
      · exact ⟨(hl h).1, hon⟩
    | clear => exact fun h => nomatch h
  | assign done ie => exact fun h => (Bool.and_eq_true _ _).mp h

theorem Change.prompt (h : Change l l') (hl : l.Prompt) : l'.Prompt := by
  cases h with
  | step h =>
    cases h with
    | complete => exact fun h => h.2
    | arrive =>
      intro h
      exact (Bool.or_eq_true _ _).mpr (.inl h.2)
    | begin => exact fun h => nomatch h.1
    | setIe on =>
      intro h
      have hd : l.done = true := h.1
      refine (Bool.and_eq_true _ _).mpr ⟨h.2, (Bool.or_eq_true _ _).mpr ?_⟩
      cases hi : l.ie with
      | true => exact .inr (hl ⟨hd, hi⟩)
      | false => exact .inl (by simp [hd])
    | clear => exact fun h => nomatch h.2
  | assign done ie => exact fun h => (Bool.and_eq_true _ _).mpr h

theorem Step.regular (h : Step l l') (hl : l.Regular) : l'.Regular := by
  cases h with
  | complete => exact ⟨fun h => (nomatch h), fun h => (nomatch h)⟩
  | arrive => exact ⟨fun h => (nomatch h), fun h => (nomatch h)⟩
  | begin => exact ⟨fun _ => rfl, fun _ => rfl⟩
  | setIe => exact hl
  | clear => exact ⟨fun h => (nomatch h), fun h => (nomatch h)⟩

theorem Changes.sound (h : Changes l l') (hl : l.Sound) : l'.Sound := by
  induction h with
  | refl => exact hl
  | tail _ h ih => exact h.sound ih

theorem Changes.prompt (h : Changes l l') (hl : l.Prompt) : l'.Prompt := by
  induction h with
  | refl => exact hl
  | tail _ h ih => exact h.prompt ih

theorem Steps.regular (h : Steps l l') (hl : l.Regular) : l'.Regular := by
  induction h with
  | refl => exact hl
  | tail _ h ih => exact h.regular ih

/-- A controller that is not enabled requests nothing of itself. -/
theorem Served.disabled (h : Served l l') (hie : l.ie = false) (hr : l.requested = false) :
    l'.ie = false ∧ l'.requested = false := by
  cases h with
  | rest => exact ⟨hie, hr⟩
  | complete => exact ⟨hie, hie⟩
  | arrive => exact ⟨hie, by simp [InterruptLine.arrive, hie, hr]⟩

theorem acknowledge_sound (l : InterruptLine) : l.acknowledge.Sound := fun h => nomatch h

theorem prompt_of_not_ready (h : ¬l.Ready) : l.Prompt := fun hr => absurd hr h

end InterruptLine
