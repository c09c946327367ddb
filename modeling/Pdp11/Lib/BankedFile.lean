import Mathlib.Logic.Function.Basic

/-! A register file in banks, of which the active one lives in a separate copy. The copy a bank
leaves behind while it is active is stale. -/

@[ext]
structure BankedFile (B ι α : Type) where
  active : B
  live : ι → α
  shadow : B → ι → α

namespace BankedFile

variable {B ι α : Type} [DecidableEq B]

/-- Register `i` of bank `b`, wherever it lives. -/
def get (f : BankedFile B ι α) (b : B) (i : ι) : α := if b = f.active then f.live i else f.shadow b i

/-- Make `b` the active bank: save the live copy, load the saved one. -/
def select (f : BankedFile B ι α) (b : B) : BankedFile B ι α :=
  if b = f.active then f
  else
    { active := b
      live := f.shadow b
      shadow := Function.update f.shadow f.active f.live }

@[simp] theorem select_active (f : BankedFile B ι α) (b : B) : (f.select b).active = b := by
  unfold select
  split
  · next h => exact h.symm
  · rfl

/-- Selecting a bank moves registers, and changes none. -/
theorem get_select (f : BankedFile B ι α) (b : B) : (f.select b).get = f.get := by
  funext c i
  unfold select
  by_cases hb : b = f.active
  · rw [if_pos hb]
  rw [if_neg hb]
  simp only [get]
  by_cases hc : c = b
  · subst hc
    rw [if_pos rfl, if_neg hb]
  by_cases hca : c = f.active
  · subst hca
    rw [if_neg hc, if_pos rfl, Function.update_self]
  · rw [if_neg hc, if_neg hca, Function.update_of_ne hca]

variable [DecidableEq ι]

/-- Store to register `i` of bank `b`, wherever it lives. -/
def set (f : BankedFile B ι α) (b : B) (i : ι) (v : α) : BankedFile B ι α :=
  if b = f.active then { f with live := Function.update f.live i v }
  else { f with shadow := Function.update f.shadow b (Function.update (f.shadow b) i v) }

theorem get_set (f : BankedFile B ι α) (b : B) (i : ι) (v : α) :
    (f.set b i v).get = Function.update f.get b (Function.update (f.get b) i v) := by
  funext c j
  unfold set
  by_cases hb : b = f.active
  · subst hb
    rw [if_pos rfl]
    by_cases hc : c = f.active
    · subst hc
      simp [get, Function.update_apply]
    · simp [get, hc]
  · rw [if_neg hb]
    by_cases hc : c = b
    · subst hc
      simp [get, hb, Function.update_apply]
    · simp [get, hc]

end BankedFile
