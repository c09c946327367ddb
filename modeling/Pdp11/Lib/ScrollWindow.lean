import Mathlib.Logic.Function.Basic
import Mathlib.Data.Nat.Notation
import Mathlib.Tactic.Common

/-! A screen of a few rows shows the end of an endless sheet. -/

namespace ScrollWindow

variable {ρ : Type} {blank : ρ} {rows : ℕ}

/-- Rows below one another and the one that is written; on a screen the first `rows` count. -/
structure Page (ρ : Type) where
  row : ℕ → ρ
  line : ℕ

def empty (blank : ρ) : Page ρ := ⟨fun _ => blank, 0⟩

/-- Change the current row. -/
def Page.edit (p : Page ρ) (f : ρ → ρ) : Page ρ :=
  { p with row := Function.update p.row p.line (f (p.row p.line)) }

/-- The next row of a sheet that never ends. -/
def Page.advance (p : Page ρ) : Page ρ := { p with line := p.line + 1 }

/-- Every row takes the one below it; the last is blank. -/
def scroll (blank : ρ) (rows : ℕ) (row : ℕ → ρ) : ℕ → ρ := fun r =>
  if r + 1 < rows then row (r + 1) else if r + 1 = rows then blank else row r

/-- The next row of a screen, which scrolls at the bottom. -/
def Page.scrollDown (blank : ρ) (rows : ℕ) (p : Page ρ) : Page ρ :=
  if rows ≤ p.line + 1 then ⟨scroll blank rows p.row, rows - 1⟩ else { p with line := p.line + 1 }

/-- The screen `w` shows the last rows of the sheet `p`, whose rows to come are blank. -/
structure Shows (blank : ρ) (rows : ℕ) (p w : Page ρ) : Prop where
  line : w.line = min p.line (rows - 1)
  row : ∀ r < rows, w.row r = p.row (p.line - w.line + r)
  ahead : ∀ r, p.line < r → p.row r = blank

variable {p w : Page ρ}

theorem Shows.line_lt (h : Shows blank rows p w) (hrows : 0 < rows) : w.line < rows := by
  rw [h.line]
  omega

/-- The current row is on the screen. -/
theorem Shows.current (h : Shows blank rows p w) (hrows : 0 < rows) :
    w.row w.line = p.row p.line := by
  have hline := h.line
  rw [h.row _ (h.line_lt hrows)]
  congr 1
  omega

theorem Shows.edit (h : Shows blank rows p w) (hrows : 0 < rows) (f : ρ → ρ) :
    Shows blank rows (p.edit f) (w.edit f) := by
  have hline := h.line
  refine ⟨hline, ?_, ?_⟩
  · intro r hr
    show Function.update w.row w.line (f (w.row w.line)) r =
      Function.update p.row p.line (f (p.row p.line)) (p.line - w.line + r)
    rw [h.current hrows]
    by_cases hcur : r = w.line
    · have hplace : p.line - w.line + r = p.line := by omega
      rw [hplace, hcur, Function.update_self, Function.update_self]
    · rw [Function.update_of_ne hcur, Function.update_of_ne (by omega), h.row r hr]
  · intro r (hr : p.line < r)
    show Function.update p.row p.line (f (p.row p.line)) r = blank
    rw [Function.update_of_ne (Nat.ne_of_gt hr)]
    exact h.ahead r hr

theorem Shows.advance (h : Shows blank rows p w) (hrows : 0 < rows) :
    Shows blank rows p.advance (w.scrollDown blank rows) := by
  have hline := h.line
  have hahead : ∀ r, p.line + 1 < r → p.row r = blank := fun r hr => h.ahead r (by omega)
  unfold Page.scrollDown
  split
  · next hlast =>
    -- the screen is full: what it shows moves up by one row
    refine ⟨?_, ?_, hahead⟩
    · show rows - 1 = min (p.line + 1) (rows - 1)
      omega
    · intro r hr
      show scroll blank rows w.row r = p.row (p.line + 1 - (rows - 1) + r)
      unfold scroll
      split
      · next hin =>
        rw [h.row _ hin]
        congr 1
        omega
      · rw [if_pos (by omega), h.ahead _ (by omega)]
  · next hroom =>
    refine ⟨?_, ?_, hahead⟩
    · show w.line + 1 = min (p.line + 1) (rows - 1)
      omega
    · intro r hr
      show w.row r = p.row (p.line + 1 - (w.line + 1) + r)
      rw [h.row r hr]
      congr 1
      omega

end ScrollWindow
