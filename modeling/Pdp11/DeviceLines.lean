import Pdp11.DeviceEffects
import Pdp11.Lib.BitMask
import Pdp11.Lib.InterruptLine

namespace Pdp11

open InterruptLine Function

/-! The controllers as interrupt lines. -/

/-- The line a status register with done in bit 7 and the enable in bit 6 drives. -/
def statusLine (csr : Word) (busy requested : Bool) : InterruptLine :=
  ⟨csr.getLsbD 7, csr.getLsbD 6, busy, requested⟩

/-- The request bit of a device. -/
def requests (dev : Devices) (d : IntId) : Bool := dev.intReq.getLsbD d.bit

/-- The interrupt line of a device. -/
def lineOf (dev : Devices) (d : IntId) : InterruptLine :=
  match d with
  | .clk => statusLine dev.clkCsr false (requests dev .clk)
  | .tti => statusLine dev.ttiCsr false (requests dev .tti)
  | .tto => statusLine dev.ttoCsr dev.ttoBusy (requests dev .tto)
  | .rk => statusLine dev.rk.rkcs dev.rk.busy (requests dev .rk)
  | .rp => statusLine dev.rp.cs1 dev.rp.busy (requests dev .rp)
  | .tm => statusLine dev.tm.cmd dev.tm.busy (requests dev .tm)
  | .rl => statusLine dev.rl.rlcs dev.rl.busy (requests dev .rl)
  | .rx => ⟨dev.rx.rxcs.getLsbD 5, dev.rx.rxcs.getLsbD 6, dev.rx.state ≠ .idle, requests dev .rx⟩

/-- The lines of all devices. -/
abbrev lines (s : Cpu) : IntId → InterruptLine := lineOf s.dev

/-! ## Status bits -/

theorem ie_clear (v : Word) : v &&& 0o100 = 0 ↔ v.getLsbD 6 = false :=
  BitMask.and_twoPow_eq_zero (i := 6) (by decide)

theorem done_clear (v : Word) : v &&& 0o200 = 0 ↔ v.getLsbD 7 = false :=
  BitMask.and_twoPow_eq_zero (i := 7) (by decide)

theorem done_ie (csr : Word) : csr &&& 0o300 =
    (if csr.getLsbD 7 then 0o200 else 0) ||| (if csr.getLsbD 6 then 0o100 else 0) :=
  BitMask.and_twoPow_or csr 7 6

/-- Done and not yet enabled, as the controllers test it. -/
theorem done_only (csr : Word) :
    csr &&& 0o300 = 0o200 ↔ csr.getLsbD 7 = true ∧ csr.getLsbD 6 = false := by
  rw [done_ie]
  cases csr.getLsbD 7 <;> cases csr.getLsbD 6 <;> decide

/-- The same test where done is bit 5. -/
theorem rxDone_only (csr : Word) :
    csr &&& 0o140 = 0o040 ↔ csr.getLsbD 5 = true ∧ csr.getLsbD 6 = false := by
  have h : csr &&& 0o140 =
      (if csr.getLsbD 5 then 0o040 else 0) ||| (if csr.getLsbD 6 then 0o100 else 0) :=
    BitMask.and_twoPow_or csr 5 6
  rw [h]
  cases csr.getLsbD 5 <;> cases csr.getLsbD 6 <;> decide

theorem done_both (csr : Word) :
    csr &&& 0o300 = 0o300 ↔ csr.getLsbD 7 = true ∧ csr.getLsbD 6 = true := by
  rw [done_ie]
  cases csr.getLsbD 7 <;> cases csr.getLsbD 6 <;> decide

/-- A line sees two bits of its status register. -/
theorem statusLine_congr {csr csr' : Word} (h : csr' &&& 0o300 = csr &&& 0o300)
    (busy requested : Bool) : statusLine csr' busy requested = statusLine csr busy requested := by
  have hbit (i : ℕ) (hi : (0o300 : Word).getLsbD i = true) : csr'.getLsbD i = csr.getLsbD i := by
    have hb := congrArg (fun v : Word => v.getLsbD i) h
    simpa only [BitVec.getLsbD_and, hi, Bool.and_true] using hb
  unfold statusLine
  rw [hbit 7 (by decide), hbit 6 (by decide)]

theorem statusLine_done (csr : Word) (busy requested : Bool) :
    statusLine (csr ||| 0o200) busy requested =
      { statusLine csr busy requested with done := true } := by
  simp [statusLine]

theorem statusLine_clearDone (csr : Word) (busy requested : Bool) :
    statusLine (csr &&& ~~~0o200) busy requested =
      { statusLine csr busy requested with done := false } := by
  simp [statusLine]

/-- The writable bits of a status register are loaded: the enable bit, not done. -/
theorem statusLine_load (csr value : Word) {m : Word} (h7 : m.getLsbD 7 = false)
    (h6 : m.getLsbD 6 = true) (busy requested : Bool) :
    statusLine ((csr &&& ~~~m) ||| (value &&& m)) busy requested =
      { statusLine csr busy requested with ie := value.getLsbD 6 } := by
  simp only [statusLine, BitVec.getLsbD_or, BitVec.getLsbD_and, BitVec.getLsbD_not, h7, h6]
  simp

theorem statusLine_ready (busy requested : Bool) :
    statusLine 0o200 busy requested = ⟨true, false, busy, requested⟩ := by
  simp [statusLine]

/-! ## Requests -/

theorem lines_intReq (s : Cpu) (v : BitVec 32) (d : IntId) :
    lines { s with dev.intReq := v } d = { lines s d with requested := v.getLsbD d.bit } := by
  cases d <;> rfl

theorem lines_setInt (s : Cpu) (e : IntId) :
    lines (setInt s e) = update (lines s) e { lines s e with requested := true } := by
  funext d
  rw [setInt, lines_intReq]
  by_cases h : d = e
  · subst h
    rw [update_self]
    cases d <;> simp [IntId.bit]
  · rw [update_of_ne h]
    have hreq : (s.dev.intReq ||| 1#32 <<< e.bit).getLsbD d.bit = requests s.dev d := by
      cases d <;> cases e <;> simp_all [requests, IntId.bit]
    rw [hreq]
    cases d <;> rfl

theorem lines_clrInt (s : Cpu) (e : IntId) :
    lines (clrInt s e) = update (lines s) e { lines s e with requested := false } := by
  funext d
  rw [clrInt, lines_intReq]
  by_cases h : d = e
  · subst h
    rw [update_self]
    cases d <;> simp [IntId.bit]
  · rw [update_of_ne h]
    have hreq : (s.dev.intReq &&& ~~~(1#32 <<< e.bit)).getLsbD d.bit = requests s.dev d := by
      cases d <;> cases e <;> simp_all [requests, IntId.bit]
    rw [hreq]
    cases d <;> rfl

/-- A completion's request: raised if the controller is enabled, else dropped. -/
def settle (s : Cpu) (csr : Word) (e : IntId) : Cpu :=
  if csr &&& 0o100 ≠ 0 then setInt s e else clrInt s e

/-- A write of the enable bit: the request is dropped, or raised if the controller is done and was
not enabled. -/
def ieWrite (s : Cpu) (ready : Prop) [Decidable ready] (value : Word) (e : IntId) : Cpu :=
  if value &&& 0o100 = 0 then clrInt s e
  else if ready then setInt s e
  else s

/-! ## Lines that move -/

/-- No line moves, and the RX11 is left alone. -/
structure Quiet (s t : Cpu) : Prop where
  moves : lines t = lines s
  floppy : t.dev.rx = s.dev.rx

namespace Quiet

variable {s t u : Cpu}

theorem refl (s : Cpu) : Quiet s s := ⟨rfl, rfl⟩

theorem trans (h : Quiet s t) (h' : Quiet t u) : Quiet s u :=
  ⟨h'.moves.trans h.moves, h'.floppy.trans h.floppy⟩

theorem ite {c : Prop} [Decidable c] (ht : Quiet s t) (hu : Quiet s u) :
    Quiet s (if c then t else u) := by
  split
  · exact ht
  · exact hu

theorem foldl {ι : Type} {f : Cpu → ι → Cpu} (h : Quiet s t) (hf : ∀ t i, Quiet t (f t i))
    (l : List ι) : Quiet s (l.foldl f t) := by
  induction l generalizing t with
  | nil => exact h
  | cons i l ih => exact ih (h.trans (hf t i))

end Quiet

/-- The line of `e` moves to `l`, and no other moves; only the RX11 changes its own registers. -/
structure Moved (e : IntId) (s t : Cpu) (l : InterruptLine) : Prop where
  moves : lines t = update (lines s) e l
  floppy : e ≠ .rx → t.dev.rx = s.dev.rx

namespace Moved

variable {e : IntId} {s t u : Cpu} {l : InterruptLine}

theorem refl (e : IntId) (s : Cpu) : Moved e s s (lines s e) :=
  ⟨(update_eq_self e (lines s)).symm, fun _ => rfl⟩

theorem own (h : Moved e s t l) : lines t e = l := by rw [h.moves, update_self]

theorem others (h : Moved e s t l) {d : IntId} (hd : d ≠ e) :
    lines t d = lines s d := by
  rw [h.moves, update_of_ne hd]

theorem quiet (h : Moved e s t l) (hu : Quiet t u) : Moved e s u l :=
  ⟨hu.moves.trans h.moves, fun he => hu.floppy.trans (h.floppy he)⟩

theorem trans {l' : InterruptLine} (h : Moved e s t l) (h' : Moved e t u l') : Moved e s u l' := by
  refine ⟨?_, fun he => (h'.floppy he).trans (h.floppy he)⟩
  rw [h'.moves, h.moves, update_idem]

theorem kept (h : Moved e s t (lines s e)) : lines t = lines s :=
  h.moves.trans (update_eq_self e (lines s))

/-- A change of the registers of `e` alone, which moves its line by `f`. -/
theorem step (h : Moved e s t l) (f : InterruptLine → InterruptLine)
    (hothers : ∀ d, d ≠ e → lines u d = lines t d)
    (hown : lines u e = f (lines t e)) (hrx : e ≠ .rx → u.dev.rx = t.dev.rx) :
    Moved e s u (f l) := by
  have hu : Moved e t u (f l) := by
    refine ⟨?_, hrx⟩
    funext d
    by_cases hd : d = e
    · subst hd
      rw [update_self, hown, h.own]
    · rw [update_of_ne hd, hothers d hd]
  exact h.trans hu

theorem raise (h : Moved e s t l) : Moved e s (setInt t e) { l with requested := true } := by
  have h' : Moved e t (setInt t e) _ := ⟨lines_setInt t e, fun _ => rfl⟩
  rw [h.own] at h'
  exact h.trans h'

theorem drop (h : Moved e s t l) : Moved e s (clrInt t e) { l with requested := false } := by
  have h' : Moved e t (clrInt t e) _ := ⟨lines_clrInt t e, fun _ => rfl⟩
  rw [h.own] at h'
  exact h.trans h'

theorem settle (h : Moved e s t l) {csr : Word} (hie : csr.getLsbD 6 = l.ie) :
    Moved e s (settle t csr e) { l with requested := l.ie } := by
  have hline (r : Bool) (hr : r = l.ie) :
      ({ l with requested := r } : InterruptLine) = { l with requested := l.ie } := by rw [hr]
  unfold Pdp11.settle
  by_cases hc : csr &&& 0o100 = 0
  · rw [if_neg (not_not.2 hc), ← hline false (by rw [← hie, (ie_clear csr).1 hc])]
    exact h.drop
  · have h6 : csr.getLsbD 6 = true := by simpa using mt (ie_clear csr).2 hc
    rw [if_pos hc, ← hline true (by rw [← hie, h6])]
    exact h.raise

/-- The request after a write of the enable bit; the bit itself is yet to be loaded. -/
theorem ieWrite (h : Moved e s t l) {ready : Prop} [Decidable ready]
    (hready : ready ↔ l.done = true ∧ l.ie = false) (value : Word) :
    Moved e s (ieWrite t ready value e) { l.setIe (value.getLsbD 6) with ie := l.ie } := by
  have hline (r : Bool)
      (hr : r = (value.getLsbD 6 && ((l.done && !l.ie) || l.requested))) :
      ({ l with requested := r } : InterruptLine) =
        { l.setIe (value.getLsbD 6) with ie := l.ie } := by
    rw [hr]
    rfl
  unfold Pdp11.ieWrite
  by_cases hv : value &&& 0o100 = 0
  · rw [if_pos hv, ← hline false (by rw [(ie_clear value).1 hv]; rfl)]
    exact h.drop
  · have h6 : value.getLsbD 6 = true := by simpa using mt (ie_clear value).2 hv
    rw [if_neg hv]
    by_cases hd : ready
    · rw [if_pos hd, ← hline true (by rw [h6, (hready.1 hd).1, (hready.1 hd).2]; rfl)]
      exact h.raise
    · have hn : (l.done && !l.ie) = false := by simpa using mt hready.2 hd
      rw [if_neg hd, ← hline l.requested (by rw [h6, hn]; rfl)]
      exact h

end Moved

/-- The line of `e` moves from `l` along `R`, and no other moves. -/
def Follows (R : InterruptLine → InterruptLine → Prop) (e : IntId) (s t : Cpu)
    (l : InterruptLine) : Prop := ∃ l', R l l' ∧ Moved e s t l'

section

variable {R R' : InterruptLine → InterruptLine → Prop} {e : IntId} {s t u : Cpu}
  {l l' : InterruptLine}

theorem Moved.follows (h : Moved e s t l') (hl : R l l') : Follows R e s t l := ⟨l', hl, h⟩

theorem Follows.ite {c : Prop} [Decidable c] (ht : Follows R e s t l) (hu : Follows R e s u l) :
    Follows R e s (if c then t else u) l := by
  split
  · exact ht
  · exact hu

theorem Follows.ite_of {c : Prop} [Decidable c] (ht : c → Follows R e s t l)
    (hu : ¬c → Follows R e s u l) : Follows R e s (if c then t else u) l := by
  split
  · exact ht ‹_›
  · exact hu ‹_›

theorem Follows.mono (h : Follows R e s t l) (hR : ∀ l l', R l l' → R' l l') :
    Follows R' e s t l := by
  obtain ⟨l', hl, ht⟩ := h
  exact ⟨l', hR l l' hl, ht⟩

theorem Quiet.follows (h : Quiet s t) (e : IntId) : Follows Served e s t (lines s e) :=
  ⟨lines s e, .rest _, (Moved.refl e s).quiet h⟩

end

/-! ## Line clock and console -/

theorem Moved.clk {s t : Cpu} {l : InterruptLine} (h : Moved .clk s t l) {csr : Word} {next : Time}
    (f : InterruptLine → InterruptLine)
    (hf : statusLine csr false (requests t.dev .clk) = f (lines t .clk)) :
    Moved .clk s { t with dev.clkCsr := csr, dev.clkNextNs := next } (f l) := by
  refine h.step f (fun d hd => ?_) hf fun _ => rfl
  cases d <;> first | rfl | exact absurd rfl hd

theorem Moved.tti {s t : Cpu} {l : InterruptLine} (h : Moved .tti s t l) {csr buf : Word}
    (f : InterruptLine → InterruptLine)
    (hf : statusLine csr false (requests t.dev .tti) = f (lines t .tti)) :
    Moved .tti s { t with dev.ttiCsr := csr, dev.ttiBuf := buf } (f l) := by
  refine h.step f (fun d hd => ?_) hf fun _ => rfl
  cases d <;> first | rfl | exact absurd rfl hd

theorem Moved.tto {s t : Cpu} {l : InterruptLine} (h : Moved .tto s t l) {csr buf : Word}
    {busy : Bool} {doneNs : Time} {out : Option (List Byte)}
    (f : InterruptLine → InterruptLine)
    (hf : statusLine csr busy (requests t.dev .tto) = f (lines t .tto)) :
    Moved .tto s { t with
      dev.ttoCsr := csr
      dev.ttoBuf := buf
      dev.ttoBusy := busy
      dev.ttoDoneNs := doneNs
      dev.consoleOut := out } (f l) := by
  refine h.step f (fun d hd => ?_) hf fun _ => rfl
  cases d <;> first | rfl | exact absurd rfl hd

/-- What arrives sets done, and raises the request if the controller is enabled. -/
theorem Moved.arrive {e : IntId} {s t : Cpu} {l : InterruptLine} {csr : Word}
    (h : Moved e s t { l with done := true, busy := false }) (hie : csr.getLsbD 6 = l.ie) :
    Moved e s (if csr &&& 0o100 ≠ 0 then setInt t e else t) l.arrive := by
  by_cases hc : csr &&& 0o100 = 0
  · have hline : l.arrive = { l with done := true, busy := false } := by
      unfold InterruptLine.arrive
      rw [← hie, (ie_clear csr).1 hc, Bool.false_or]
    rw [if_neg (not_not.2 hc), hline]
    exact h
  · have hie : l.ie = true := by
      rw [← hie]
      simpa using mt (ie_clear csr).2 hc
    have hline : l.arrive = { l with done := true, busy := false, requested := true } := by
      unfold InterruptLine.arrive
      rw [hie, Bool.true_or]
    rw [if_pos hc, hline]
    exact h.raise

/-- The request of a controller whose done and enable bits are both loaded. -/
theorem Moved.assign {e : IntId} {s t : Cpu} {l : InterruptLine} {csr : Word} {done ie : Bool}
    (h : Moved e s t { l with done := done, ie := ie }) (h7 : csr.getLsbD 7 = done)
    (h6 : csr.getLsbD 6 = ie) :
    Moved e s (if csr &&& 0o300 = 0o300 then setInt t e else clrInt t e) (l.assign done ie) := by
  have hline (requested : Bool) (hr : requested = (done && ie)) :
      l.assign done ie = { l with done := done, ie := ie, requested := requested } := by
    rw [hr]
    rfl
  by_cases hb : csr &&& 0o300 = 0o300
  · obtain ⟨hd, hi⟩ := (done_both csr).1 hb
    rw [if_pos hb, hline true (by rw [← h7, ← h6, hd, hi]; rfl)]
    exact h.raise
  · have hn : (done && ie) = false := by
      rw [← h7, ← h6]
      simpa using mt (done_both csr).2 hb
    rw [if_neg hb, hline false hn.symm]
    exact h.drop

theorem clkTick_moved (s : Cpu) : Moved .clk s (clkTick s) (lines s .clk).arrive := by
  have h1 : Moved .clk s { s with dev.clkCsr := s.dev.clkCsr ||| kw11lDone }
      { lines s .clk with done := true, busy := false } :=
    (Moved.refl .clk s).clk (fun l => { l with done := true, busy := false })
      (statusLine_done _ _ _)
  exact h1.arrive (by simp [lineOf, statusLine])

theorem serviceClock_follows (s : Cpu) : Follows Served .clk s (serviceClock s) (lines s .clk) := by
  unfold serviceClock
  refine .ite ?_ ((Quiet.refl s).follows .clk)
  exact ⟨_, .arrive _, (clkTick_moved s).quiet ⟨rfl, rfl⟩⟩

/-- A write clears done or keeps it, loads the enable, and the request is that of the new bits. -/
theorem clkWrite_moved (s : Cpu) (value : Word) :
    Moved .clk s (clkWrite s value)
      ((lines s .clk).assign ((lines s .clk).done && value.getLsbD 7) (value.getLsbD 6)) := by
  have hline (csr : Word) (requested : Bool) : statusLine
      (let csr := (csr &&& ~~~kw11lIe) ||| (value &&& kw11lIe)
      if value &&& kw11lDone = 0 then csr &&& ~~~kw11lDone else csr) false requested =
        ⟨csr.getLsbD 7 && value.getLsbD 7, value.getLsbD 6, false, requested⟩ := by
    dsimp only
    have hload := statusLine_load csr value (m := kw11lIe) (by decide) (by decide) false requested
    by_cases h7 : value &&& kw11lDone = 0
    · rw [if_pos h7, statusLine_clearDone, hload, (done_clear value).1 h7, Bool.and_false]
      rfl
    · have hv : value.getLsbD 7 = true := by simpa using mt (done_clear value).2 h7
      rw [if_neg h7, hload, hv, Bool.and_true]
      rfl
  have h1 : Moved .clk s
      (let csr := (s.dev.clkCsr &&& ~~~kw11lIe) ||| (value &&& kw11lIe)
      let csr := if value &&& kw11lDone = 0 then csr &&& ~~~kw11lDone else csr
      { s with dev.clkCsr := csr })
      { lines s .clk with
        done := (lines s .clk).done && value.getLsbD 7
        ie := value.getLsbD 6 } :=
    (Moved.refl .clk s).clk
      (fun l => { l with done := l.done && value.getLsbD 7, ie := value.getLsbD 6 }) (hline _ _)
  exact h1.assign (congrArg InterruptLine.done (hline s.dev.clkCsr false))
    (congrArg InterruptLine.ie (hline s.dev.clkCsr false))

theorem clkWrite_follows (s : Cpu) (value : Word) :
    Follows Changes .clk s (clkWrite s value) (lines s .clk) :=
  ⟨_, (Change.assign _ _ _).changes, clkWrite_moved s value⟩

theorem consoleInput_moved (s : Cpu) (ch : Byte) :
    Moved .tti s (consoleInput s ch) (lines s .tti).arrive := by
  have h1 : Moved .tti s { s with
      dev.ttiBuf := ch.setWidth 16
      dev.ttiCsr := s.dev.ttiCsr ||| dl11Done } { lines s .tti with done := true, busy := false } :=
    (Moved.refl .tti s).tti (fun l => { l with done := true, busy := false })
      (statusLine_done _ _ _)
  exact h1.arrive (by simp [lineOf, statusLine])

/-- The character a poll finds sent. -/
theorem consoleTxPoll_due {s : Cpu} (h : s.dev.ttoBusy ∧ s.dev.ttoDoneNs ≤ s.acct.timeNs) :
    Moved .tto s (consoleTxPoll s) (lines s .tto).arrive := by
  have h1 : Moved .tto s { s with
      dev.ttoBusy := false
      dev.ttoCsr := s.dev.ttoCsr ||| dl11Done } { lines s .tto with done := true, busy := false } :=
    (Moved.refl .tto s).tto (fun l => { l with done := true, busy := false })
      (statusLine_done _ _ _)
  unfold consoleTxPoll
  rw [if_pos h]
  exact h1.arrive (by simp [lineOf, statusLine])

theorem consoleTxPoll_follows (s : Cpu) :
    Follows Served .tto s (consoleTxPoll s) (lines s .tto) := by
  by_cases h : s.dev.ttoBusy ∧ s.dev.ttoDoneNs ≤ s.acct.timeNs
  · exact (consoleTxPoll_due h).follows (.arrive _)
  · have hpoll : consoleTxPoll s = s := if_neg h
    rw [hpoll]
    exact (Quiet.refl s).follows .tto

/-- Only a read of the receiver buffer moves a line: the character is taken. -/
theorem consoleRead_moved (s : Cpu) (addr : Word) : Quiet s (consoleRead s addr).2 ∨
    Moved .tti s (consoleRead s addr).2 ((lines s .tti).assign false (lines s .tti).ie) := by
  have h1 : Moved .tti s { s with dev.ttiCsr := s.dev.ttiCsr &&& ~~~dl11Done }
      { lines s .tti with done := false } :=
    (Moved.refl .tti s).tti (fun l => { l with done := false }) (statusLine_clearDone _ _ _)
  unfold consoleRead
  split_ifs
  · exact .inl (.refl s)
  · exact .inr h1.drop
  · exact .inl (.refl s)
  · exact .inl (.refl s)
  · exact .inl (.refl s)

theorem consoleRead_follows (s : Cpu) (addr : Word) :
    Follows Changes .tti s (consoleRead s addr).2 (lines s .tti) := by
  rcases consoleRead_moved s addr with h | h
  · exact (h.follows .tti).mono fun _ _ h => h.steps.changes
  · exact ⟨_, (Change.assign _ _ _).changes, h⟩

/-- A console write loads the enable of the half it addresses, or gives the transmitter a
character. -/
theorem consoleWrite_cases (s : Cpu) (addr value : Word) :
    (addr = dl11Rcsr ∧
      Moved .tti s (consoleWrite s addr value) ((lines s .tti).setIe (value.getLsbD 6))) ∨
    (addr = dl11Xcsr ∧
      Moved .tto s (consoleWrite s addr value) ((lines s .tto).setIe (value.getLsbD 6))) ∨
    (addr = dl11Xbuf ∧ Moved .tto s (consoleWrite s addr value) (lines s .tto).begin) ∨
    Quiet s (consoleWrite s addr value) := by
  unfold consoleWrite
  split_ifs with hrcsr hxcsr hxbuf
  · refine .inl ⟨hrcsr, ?_⟩
    have h1 := (Moved.refl .tti s).ieWrite (done_only s.dev.ttiCsr) value
    exact h1.tti (fun l => { l with ie := value.getLsbD 6 })
      (statusLine_load _ _ (by decide) (by decide) _ _)
  · refine .inr (.inl ⟨hxcsr, ?_⟩)
    have h1 := (Moved.refl .tto s).ieWrite (done_only s.dev.ttoCsr) value
    exact h1.tto (fun l => { l with ie := value.getLsbD 6 })
      (statusLine_load _ _ (by decide) (by decide) _ _)
  · have h1 : Moved .tto s { s with
        dev.ttoBuf := value &&& 0o377
        dev.consoleOut := s.dev.consoleOut.map (· ++ [value.setWidth 8])
        dev.ttoCsr := s.dev.ttoCsr &&& ~~~dl11Done } { lines s .tto with done := false } :=
      (Moved.refl .tto s).tto (fun l => { l with done := false }) (statusLine_clearDone _ _ _)
    refine .inr (.inr (.inl ⟨hxbuf, ?_⟩))
    exact h1.drop.tto (fun l => { l with busy := true }) rfl
  · exact .inr (.inr (.inr (.refl s)))

theorem consoleWrite_follows (s : Cpu) (addr value : Word) :
    Follows Steps .tti s (consoleWrite s addr value) (lines s .tti) ∨
      Follows Steps .tto s (consoleWrite s addr value) (lines s .tto) := by
  obtain ⟨-, h⟩ | ⟨-, h⟩ | ⟨-, h⟩ | h := consoleWrite_cases s addr value
  · exact .inl (h.follows (Step.setIe _ _).steps)
  · exact .inr (h.follows (Step.setIe _ _).steps)
  · exact .inr (h.follows (Step.begin _).steps)
  · exact .inl ((h.follows .tti).mono fun _ _ => Served.steps)

end Pdp11
