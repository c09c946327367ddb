import Pdp11.Frontend.Terminal

namespace Pdp11

open ScrollWindow

/-! What the terminal shows of everything printed on it. -/

/-! ## The array stays in its bounds -/

def isPrintable (c : Byte) : Prop := 32 ≤ c ∧ c ≤ 126

instance (c : Byte) : Decidable (isPrintable c) := inferInstanceAs (Decidable (_ ∧ _))

/-- The cursor is on the screen, the cells there are printable, and around the array stands what was
in `memory`. -/
structure VtSound (memory : ℕ → ℕ → Byte) (t : VtTerm) : Prop where
  cursor : onScreen t.cy t.cx
  cells : ∀ r c, onScreen r c → isPrintable (t.cell r c)
  around : ∀ r c, ¬onScreen r c → t.cell r c = memory r c

theorem vtInit_sound (t : VtTerm) : VtSound t.cell (vtInit t) where
  cursor := by simp [onScreen, vtInit]
  cells r c hon := by simp [vtInit, hon, isPrintable]
  around r c hout := if_neg hout

namespace VtSound

variable {memory : ℕ → ℕ → Byte} {t : VtTerm} (h : VtSound memory t)
include h

theorem moveTo {cx : ℕ} (hcx : cx < tcols) : VtSound memory { t with cx := cx } :=
  ⟨⟨h.cursor.1, hcx⟩, h.cells, h.around⟩

theorem store {c : Byte} (hc : isPrintable c) : VtSound memory (vtStore t c) := by
  have hcell : ∀ r k, (vtStore t c).cell r k =
      if r = t.cy ∧ k = t.cx then c else t.cell r k := by
    intro r k
    unfold vtStore
    by_cases hr : r = t.cy
    · subst hr
      simp [Function.update_apply]
    · simp [hr]
  refine ⟨h.cursor, ?_, ?_⟩
  · intro r k hon
    rw [hcell]
    split
    · exact hc
    · exact h.cells r k hon
  · intro r k hout
    rw [hcell, if_neg]
    · exact h.around r k hout
    · rintro ⟨rfl, rfl⟩
      exact hout h.cursor

theorem scrolled : VtSound memory (vtScroll t) := by
  refine ⟨h.cursor, ?_, ?_⟩
  · intro r k hon
    unfold vtScroll scroll
    dsimp only
    split_ifs with hcol hin
    · exact h.cells (r + 1) k ⟨hin, hcol⟩
    · simp [isPrintable]
    · exact h.cells r k hon
    · exact h.cells r k hon
  · intro r k hout
    unfold vtScroll scroll
    dsimp only
    split_ifs with hcol hin hlast
    · exact absurd ⟨by omega, hcol⟩ hout
    · exact absurd ⟨by omega, hcol⟩ hout
    · exact h.around r k hout
    · exact h.around r k hout

theorem newline : VtSound memory (vtNewline t) := by
  have hcy := h.cursor.1
  unfold vtNewline
  dsimp only
  split
  · exact VtSound.scrolled ⟨⟨Nat.lt_add_one 24, h.cursor.2⟩, h.cells, h.around⟩
  · next hroom => exact ⟨⟨Nat.lt_of_not_le hroom, h.cursor.2⟩, h.cells, h.around⟩

theorem erase : VtSound memory (vtErase t) := by
  have hcx := h.cursor.2
  unfold vtErase
  dsimp only
  split
  · have hblank : isPrintable chBlank := by simp [isPrintable]
    have hback : VtSound memory { t with cx := t.cx - 1, erasePending := t.erasePending - 1 } :=
      ⟨⟨h.cursor.1, show t.cx - 1 < tcols by omega⟩, h.cells, h.around⟩
    exact hback.store hblank
  · exact ⟨h.cursor, h.cells, h.around⟩

theorem print {c : Byte} (hc : isPrintable c) : VtSound memory (vtPrint t c) := by
  have hs := h.store hc
  unfold vtPrint
  dsimp only
  split
  · exact (hs.moveTo (by decide)).newline
  · next hroom => exact hs.moveTo (Nat.lt_of_not_le hroom)

theorem putc (c : Byte) : VtSound memory (vtPutc t c) := by
  have hcx := h.cursor.2
  unfold vtPutc
  dsimp only
  split_ifs with _ _ _ _ _ hlong _ hcontrol
  · exact h.erase
  · exact h.moveTo (by decide)
  · exact h.newline
  · exact h.moveTo (by omega)
  · exact h.moveTo (by decide)
  · exact h.moveTo (Nat.lt_of_not_le hlong)
  · exact h
  · exact h
  · rw [not_or, BitVec.not_lt, BitVec.not_lt] at hcontrol
    exact h.print hcontrol

theorem event (e : VtEvent) : VtSound memory (e.apply t) := by
  cases e with
  | receive ch => exact h.putc _
  | armErase => exact ⟨h.cursor, h.cells, h.around⟩

end VtSound

/-- Whatever is printed and typed, the cursor stays on the screen, the screen holds printable
characters, and the memory around the array keeps whatever it held before. -/
theorem terminal_stays_on_screen (t : VtTerm) (es : List VtEvent) :
    VtSound t.cell (es.foldl VtEvent.apply (vtInit t)) := by
  have hrun : ∀ u, VtSound t.cell u → VtSound t.cell (es.foldl VtEvent.apply u) := by
    induction es with
    | nil => exact fun _ h => h
    | cons e es ih => exact fun u h => ih _ (h.event e)
  exact hrun _ (vtInit_sound t)

/-! ## Rub-outs undo what was typed -/

/-- A character that shows as itself, and is no erase character. -/
def isPlain (c : Byte) : Prop := isPrintable c ∧ c ≠ chErase

instance (c : Byte) : Decidable (isPlain c) := inferInstanceAs (Decidable ((_ ∧ _) ∧ _))

def vtArm (n : ℕ) (t : VtTerm) : VtTerm := { t with erasePending := t.erasePending + n }

/-- The cursor after a character that does not fill the row. -/
def vtTyped (t : VtTerm) (c : Byte) : VtTerm := { vtStore t c with cx := t.cx + 1 }

theorem vtSink_plain {t : VtTerm} {c : Byte} (hc : isPlain c) (hroom : t.cx + 1 < tcols) :
    vtSink t c = vtTyped t c := by
  obtain ⟨⟨hlow, hhigh⟩, herase⟩ := hc
  have hseven : c &&& 0o177 = c := by
    have hlt : c.toNat < 2 ^ 7 := Nat.lt_of_le_of_lt (BitVec.le_def.1 hhigh) (by decide)
    apply BitVec.eq_of_toNat_eq
    rw [BitVec.toNat_and]
    exact (Nat.and_two_pow_sub_one_eq_mod c.toNat 7).trans (Nat.mod_eq_of_lt hlt)
  have hne {k : Byte} (hk : k < 32) : c ≠ k := by
    rintro rfl
    exact absurd hlow (BitVec.not_le.2 hk)
  have hshown : ¬(c < 32 ∨ 126 < c) := by
    rw [not_or, BitVec.not_lt, BitVec.not_lt]
    exact ⟨hlow, hhigh⟩
  unfold vtSink vtPutc vtPrint vtTyped
  dsimp only
  rw [hseven, if_neg (fun h => herase h.1), if_neg (hne (by decide)), if_neg (hne (by decide)),
    if_neg (hne (by decide)), if_neg (hne (by decide)), if_neg (hne (by decide)), if_neg hshown]
  exact if_neg (Nat.not_le.2 hroom)

/-- The echo of one rub-out takes back the last character. -/
theorem vtSink_erase {t : VtTerm} (c : Byte) (n : ℕ) (hblank : t.cell t.cy t.cx = chBlank) :
    vtSink (vtArm (n + 1) (vtTyped t c)) chErase = vtArm n t := by
  have hseven : chErase &&& 0o177 = chErase := by decide
  have hrow : Function.update (Function.update (t.cell t.cy) t.cx c) t.cx chBlank =
      t.cell t.cy := by
    rw [Function.update_idem, ← hblank, Function.update_eq_self]
  unfold vtSink vtPutc
  rw [hseven, if_pos ⟨rfl, Nat.lt_of_lt_of_le (Nat.succ_pos n) (Nat.le_add_left _ _)⟩]
  unfold vtErase vtArm vtTyped vtStore
  dsimp only
  rw [if_pos (Nat.succ_pos _)]
  simp only [Nat.add_sub_cancel, ← Nat.add_assoc, Function.update_self, Function.update_idem, hrow,
    Function.update_eq_self]

/-- The rest of the row from the cursor on is blank and has room for `n` characters. -/
structure BlankAhead (t : VtTerm) (n : ℕ) : Prop where
  room : t.cx + n < tcols
  blank : ∀ i < n, t.cell t.cy (t.cx + i) = chBlank

theorem BlankAhead.typed {t : VtTerm} {n : ℕ} (h : BlankAhead t (n + 1)) (c : Byte) :
    BlankAhead (vtTyped t c) n := by
  refine ⟨by simpa [vtTyped, Nat.add_assoc, Nat.add_comm 1] using h.room, ?_⟩
  intro i hi
  have hcell := h.blank (i + 1) (by omega)
  have hne : t.cx + 1 + i ≠ t.cx := by omega
  simpa [vtTyped, vtStore, Function.update_of_ne hne, Nat.add_assoc, Nat.add_comm 1] using hcell

theorem erase_all (n k : ℕ) (t : VtTerm) (xs : List Byte) (hplain : ∀ x ∈ xs, isPlain x)
    (hahead : BlankAhead t xs.length) (hn : n = xs.length + k) :
    (List.replicate xs.length chErase).foldl vtSink (vtArm n (xs.foldl vtSink t)) = vtArm k t := by
  induction xs generalizing t k with
  | nil =>
    rw [List.length_nil, Nat.zero_add] at hn
    rw [hn]
    rfl
  | cons x xs ih =>
    have hx := hplain x List.mem_cons_self
    have hroom := hahead.room
    rw [List.length_cons] at hroom hn
    have hblank : t.cell t.cy t.cx = chBlank := hahead.blank 0 (Nat.succ_pos _)
    -- the last rub-out meets the first character, alone on the row again
    have htyped : (x :: xs).foldl vtSink t = xs.foldl vtSink (vtTyped t x) := by
      rw [List.foldl_cons, vtSink_plain hx (by omega)]
    rw [List.length_cons, List.replicate_succ', List.foldl_append, htyped,
      ih (k + 1) (vtTyped t x) (fun y hy => hplain y (List.mem_cons_of_mem x hy))
        (hahead.typed x) (by omega)]
    exact vtSink_erase x k hblank

/-- Characters typed at the end of a row and as many rub-outs, each announced and echoed, leave the
terminal as it was. -/
theorem rubbed_out_restores (t : VtTerm) (xs : List Byte) (hplain : ∀ x ∈ xs, isPlain x)
    (hahead : BlankAhead t xs.length) :
    (xs.map VtEvent.receive ++ List.replicate xs.length VtEvent.armErase ++
      List.replicate xs.length (VtEvent.receive chErase)).foldl VtEvent.apply t = t := by
  have harm (n : ℕ) (u : VtTerm) :
      (List.replicate n VtEvent.armErase).foldl VtEvent.apply u = vtArm n u := by
    induction n generalizing u with
    | zero => rfl
    | succ n ih =>
      rw [List.replicate_succ, List.foldl_cons, ih]
      simp [vtArm, VtEvent.apply, Nat.add_assoc, Nat.add_comm 1]
  have hall := erase_all xs.length 0 t xs hplain hahead rfl
  rw [List.foldl_append, List.foldl_append, List.foldl_map, harm, ← List.map_replicate,
    List.foldl_map]
  exact hall

theorem word_rubbed_out :
    let t := vtInit ⟨fun _ _ => 0, 0, 0, 0⟩
    ([0o165, 0o156, 0o151, 0o170].map VtEvent.receive ++ List.replicate 4 VtEvent.armErase ++
      List.replicate 4 (VtEvent.receive chErase)).foldl VtEvent.apply t = t :=
  rubbed_out_restores (vtInit ⟨fun _ _ => 0, 0, 0, 0⟩) [0o165, 0o156, 0o151, 0o170] (by decide)
    ⟨by decide, by decide⟩

/-! ## The screen shows the end of what was printed -/

/-- A printing terminal: an endless sheet, and the column it prints in. -/
structure Paper where
  sheet : Page (ℕ → Byte)
  col : ℕ
  erasePending : ℕ

namespace Paper

def blank : Paper := { sheet := empty fun _ => chBlank, col := 0, erasePending := 0 }

def store (p : Paper) (c : Byte) : Paper :=
  { p with sheet := p.sheet.edit fun row => Function.update row p.col c }

def newline (p : Paper) : Paper := { p with sheet := p.sheet.advance }

def erase (p : Paper) : Paper :=
  let p := { p with erasePending := p.erasePending - 1 }
  if 0 < p.col then store { p with col := p.col - 1 } chBlank else p

def print (p : Paper) (c : Byte) : Paper :=
  let p := p.store c
  if tcols ≤ p.col + 1 then newline { p with col := 0 } else { p with col := p.col + 1 }

def putc (p : Paper) (c : Byte) : Paper :=
  if c = chErase ∧ 0 < p.erasePending then p.erase
  else if c = chReturn then { p with col := 0 }
  else if c = chNewline then p.newline
  else if c = chBackspace then { p with col := p.col - 1 }
  else if c = chTab then { p with col := min ((p.col + 8) / 8 * 8) (tcols - 1) }
  else if 32 ≤ c ∧ c ≤ 126 then p.print c
  else p

def event (p : Paper) : VtEvent → Paper
  | .receive ch => p.putc (ch &&& 0o177)
  | .armErase => { p with erasePending := p.erasePending + 1 }

end Paper

/-- The rows of a terminal as long as the paper's, blank past their ends. -/
def vtRows (t : VtTerm) : ℕ → ℕ → Byte := fun r c => if c < tcols then t.cell r c else chBlank

theorem vtRows_store {t : VtTerm} (hcx : t.cx < tcols) (c : Byte) :
    vtRows (vtStore t c) =
      Function.update (vtRows t) t.cy (Function.update (vtRows t t.cy) t.cx c) := by
  funext r k
  unfold vtRows vtStore
  by_cases hr : r = t.cy
  · subst hr
    by_cases hk : k = t.cx
    · subst hk
      simp [hcx]
    · simp [hk]
  · simp [hr]

theorem vtRows_scroll (t : VtTerm) :
    vtRows (vtScroll t) = scroll (fun _ => chBlank) trows (vtRows t) := by
  funext r k
  unfold vtRows vtScroll scroll
  dsimp only
  by_cases hk : k < tcols
  · simp only [hk, if_true]
    split_ifs <;> simp [hk]
  · simp only [hk, if_false]
    split_ifs <;> simp [hk]

/-- The terminal shows the last rows of the paper, with the cursor in the same place. -/
structure Displays (p : Paper) (t : VtTerm) : Prop where
  rows : Shows (fun _ => chBlank) trows p.sheet ⟨vtRows t, t.cy⟩
  col : t.cx = p.col
  inside : t.cx < tcols
  pending : t.erasePending = p.erasePending

theorem displays_blank (t : VtTerm) : Displays Paper.blank (vtInit t) := by
  refine ⟨⟨rfl, fun r hr => ?_, fun _ _ => rfl⟩, rfl, Nat.zero_lt_succ 79, rfl⟩
  show (fun c => if c < tcols then if onScreen r c then chBlank else t.cell r c else chBlank) =
    fun _ => chBlank
  funext c
  split_ifs with hc hon
  · rfl
  · exact absurd ⟨hr, hc⟩ hon
  · rfl

namespace Displays

variable {p : Paper} {t : VtTerm} (h : Displays p t)
include h

theorem moveTo {col : ℕ} (hcol : col < tcols) :
    Displays { p with col := col } { t with cx := col } := ⟨h.rows, rfl, hcol, h.pending⟩

theorem store (c : Byte) : Displays (p.store c) (vtStore t c) := by
  refine ⟨?_, h.col, h.inside, h.pending⟩
  have hedit := h.rows.edit (by decide) fun row => Function.update row p.col c
  rw [← h.col] at hedit
  have hcol : p.store c = { p with sheet := p.sheet.edit fun row => Function.update row t.cx c } := by
    rw [h.col]
    rfl
  rw [hcol, vtRows_store h.inside]
  exact hedit

theorem newline : Displays p.newline (vtNewline t) := by
  have hrows := h.rows.advance (by decide)
  unfold Page.scrollDown at hrows
  unfold vtNewline vtScroll
  dsimp only at hrows ⊢
  split
  · next hlast =>
    rw [if_pos hlast, ← vtRows_scroll] at hrows
    exact ⟨hrows, h.col, h.inside, h.pending⟩
  · next hroom =>
    rw [if_neg hroom] at hrows
    exact ⟨hrows, h.col, h.inside, h.pending⟩

theorem erase : Displays p.erase (vtErase t) := by
  obtain ⟨cell, cx, cy, pending⟩ := t
  obtain ⟨hrows, rfl, hcx, rfl⟩ := h
  have hback : Displays { p with col := p.col - 1, erasePending := p.erasePending - 1 }
      ⟨cell, p.col - 1, cy, p.erasePending - 1⟩ :=
    ⟨hrows, rfl, Nat.lt_of_le_of_lt (Nat.sub_le _ _) hcx, rfl⟩
  unfold Paper.erase vtErase
  dsimp only
  split
  · exact hback.store chBlank
  · exact ⟨hrows, rfl, hcx, rfl⟩

theorem print (c : Byte) : Displays (p.print c) (vtPrint t c) := by
  have hs := h.store c
  have hcol : (vtStore t c).cx = (p.store c).col := hs.col
  unfold Paper.print vtPrint
  dsimp only
  rw [hcol]
  split
  · exact (hs.moveTo (by decide)).newline
  · next hroom => exact hs.moveTo (Nat.lt_of_not_le hroom)

theorem putc (c : Byte) : Displays (p.putc c) (vtPutc t c) := by
  obtain ⟨cell, cx, cy, pending⟩ := t
  have h' := h
  obtain ⟨-, rfl, hcx, rfl⟩ := h'
  unfold Paper.putc vtPutc
  dsimp only
  by_cases herase : c = chErase ∧ 0 < p.erasePending
  · rw [if_pos herase, if_pos herase]
    exact h.erase
  rw [if_neg herase, if_neg herase]
  by_cases hreturn : c = chReturn
  · rw [if_pos hreturn, if_pos hreturn]
    exact h.moveTo (by decide)
  rw [if_neg hreturn, if_neg hreturn]
  by_cases hnewline : c = chNewline
  · rw [if_pos hnewline, if_pos hnewline]
    exact h.newline
  rw [if_neg hnewline, if_neg hnewline]
  by_cases hback : c = chBackspace
  · rw [if_pos hback, if_pos hback]
    exact h.moveTo (Nat.lt_of_le_of_lt (Nat.sub_le _ _) hcx)
  rw [if_neg hback, if_neg hback]
  by_cases htab : c = chTab
  · rw [if_pos htab, if_pos htab]
    have hstop : (if tcols ≤ (p.col + 8) / 8 * 8 then tcols - 1 else (p.col + 8) / 8 * 8) =
        min ((p.col + 8) / 8 * 8) (tcols - 1) := by
      split <;> omega
    rw [hstop]
    exact h.moveTo (Nat.lt_of_le_of_lt (Nat.min_le_right _ _) (by decide))
  rw [if_neg htab, if_neg htab]
  by_cases hbell : c = chBell
  · rw [if_neg (by rw [hbell]; decide), if_pos hbell]
    exact h
  rw [if_neg hbell]
  by_cases hprint : 32 ≤ c ∧ c ≤ 126
  · rw [if_pos hprint, if_neg (by rw [not_or, BitVec.not_lt, BitVec.not_lt]; exact hprint)]
    exact h.print c
  · rw [if_neg hprint, if_pos (by rwa [← BitVec.not_le, ← BitVec.not_le, ← not_and_or])]
    exact h

theorem event (e : VtEvent) : Displays (p.event e) (e.apply t) := by
  cases e with
  | receive ch => exact h.putc _
  | armErase => exact ⟨h.rows, h.col, h.inside, congrArg (· + 1) h.pending⟩

end Displays

theorem Displays.events {p : Paper} {t : VtTerm} (h : Displays p t) (es : List VtEvent) :
    Displays (es.foldl Paper.event p) (es.foldl VtEvent.apply t) := by
  induction es generalizing p t with
  | nil => exact h
  | cons e es ih => exact ih (h.event e)

end Pdp11
