import Pdp11.Words
import Pdp11.Lib.ScrollWindow

namespace Pdp11

open ScrollWindow

/-! The text terminal of the interactive frontend. -/

abbrev tcols : ℕ := 80
abbrev trows : ℕ := 25

abbrev chBell : Byte := 0o007
abbrev chBackspace : Byte := 0o010
abbrev chTab : Byte := 0o011
abbrev chNewline : Byte := 0o012
abbrev chReturn : Byte := 0o015
abbrev chBlank : Byte := 0o040
abbrev chErase : Byte := 0o043

/-- `vt_term`: the cells, the cursor, and the erase characters sent but not yet echoed back. Only 25
rows of 80 cells are the terminal's; what a `cell` outside them holds is other memory. -/
structure VtTerm where
  cell : ℕ → ℕ → Byte
  cx : ℕ
  cy : ℕ
  erasePending : ℕ

/-- A cell of the 25 by 80 array. -/
def onScreen (r c : ℕ) : Prop := r < trows ∧ c < tcols

instance (r c : ℕ) : Decidable (onScreen r c) := inferInstanceAs (Decidable (_ ∧ _))

/-- The array is cleared; what lies around it in memory stays. -/
def vtInit (t : VtTerm) : VtTerm :=
  { cell := fun r c => if onScreen r c then chBlank else t.cell r c
    cx := 0
    cy := 0
    erasePending := 0 }

/-- The rows move up by one and the last is cleared. -/
def vtScroll (t : VtTerm) : VtTerm :=
  { t with cell := fun r c =>
      if c < tcols then scroll (fun _ => chBlank) trows t.cell r c else t.cell r c }

def vtNewline (t : VtTerm) : VtTerm :=
  let t := { t with cy := t.cy + 1 }
  if trows ≤ t.cy then vtScroll { t with cy := trows - 1 } else t

/-- `t->cell[t->cy][t->cx] = c` -/
def vtStore (t : VtTerm) (c : Byte) : VtTerm :=
  { t with cell := Function.update t.cell t.cy (Function.update (t.cell t.cy) t.cx c) }

/-- The echo of an erase character that this terminal sent. -/
def vtErase (t : VtTerm) : VtTerm :=
  let t := { t with erasePending := t.erasePending - 1 }
  if 0 < t.cx then vtStore { t with cx := t.cx - 1 } chBlank else t

def vtPrint (t : VtTerm) (c : Byte) : VtTerm :=
  let t := vtStore t c
  let t := { t with cx := t.cx + 1 }
  if tcols ≤ t.cx then vtNewline { t with cx := 0 } else t

def vtPutc (t : VtTerm) (c : Byte) : VtTerm :=
  if c = chErase ∧ 0 < t.erasePending then vtErase t
  else if c = chReturn then { t with cx := 0 }
  else if c = chNewline then vtNewline t
  else if c = chBackspace then { t with cx := t.cx - 1 }
  else if c = chTab then
    let cx := (t.cx + 8) / 8 * 8
    { t with cx := if tcols ≤ cx then tcols - 1 else cx }
  else if c = chBell then t
  else if c < 32 ∨ 126 < c then t
  else vtPrint t c

/-- The sink of the console: the terminal shows seven bits of each character. -/
def vtSink (t : VtTerm) (ch : Byte) : VtTerm := vtPutc t (ch &&& 0o177)

/-- What the host does to the terminal. -/
inductive VtEvent
  | receive (ch : Byte)
  | armErase
  deriving DecidableEq, Repr

def VtEvent.apply (t : VtTerm) : VtEvent → VtTerm
  | .receive ch => vtSink t ch
  | .armErase => { t with erasePending := t.erasePending + 1 }

end Pdp11
