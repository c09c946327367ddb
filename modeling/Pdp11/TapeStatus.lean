import Pdp11.TapeTransfer
import Pdp11.Lib.BitMask

namespace Pdp11

open BitMask

/-! What the status registers of the tape show once a command has completed. -/

abbrev tmMts : Word := 0o172520
abbrev tmMtc : Word := 0o172522

/-- MTS and MTC as a program reads them. -/
def mts (s : Cpu) : Word := (tmRead s tmMts).1
def mtc (s : Cpu) : Word := (tmRead s tmMtc).1

/-- The errors that are no dynamic bits. -/
abbrev staLatched : Word := staIll ||| staRle ||| staNxm

theorem ite_or_and {c : Prop} [Decidable c] (x : Word) {b m : Word} (h : b &&& m = 0) :
    (if c then x ||| b else x) &&& m = x &&& m := by
  split
  · exact or_and_eq x h
  · rfl

/-- The bits that `tm_status` does not make up are those of `sta` outside its mask. -/
theorem tmStatus_and (tm : Tm11) {m : Word}
    (h : (staTur ||| staOnl ||| staBot ||| staWlk ||| staEot) &&& m = 0) :
    tmStatus tm &&& m = tm.sta &&& ~~~staDyn &&& m := by
  have hpart (b : Word) (hb : (staTur ||| staOnl ||| staBot ||| staWlk ||| staEot) &&& b = b) :
      b &&& m = 0 := by
    rw [BitVec.and_comm] at h ⊢
    exact and_eq_zero_of_part h hb
  unfold tmStatus
  dsimp only
  rw [ite_or_and _ (hpart staTur (by decide))]
  split
  · rw [ite_or_and _ (hpart staEot (by decide)), ite_or_and _ (hpart staWlk (by decide)),
      ite_or_and _ (hpart staBot (by decide)), or_and_eq _ (hpart staOnl (by decide))]
  · rfl

/-- The mask takes the tape mark away, and nothing puts it back. -/
theorem mts_eof (s : Cpu) : mts s &&& staEof = 0 := by
  have hmask : ~~~staDyn &&& staEof = (0 : Word) := by decide
  rw [mts, tmRead, if_pos rfl, tmStatus_and _ (by decide), BitVec.and_assoc, hmask]
  exact BitVec.and_zero

/-- A latched error is shown. -/
theorem mts_latched (s : Cpu) {m : Word} (h : staLatched &&& m = m) :
    mts s &&& m = s.dev.tm.sta &&& m := by
  have hmade : (staTur ||| staOnl ||| staBot ||| staWlk ||| staEot) &&& staLatched = (0 : Word) :=
    by decide
  have hmask : ~~~staDyn &&& staLatched = staLatched := by decide
  rw [mts, tmRead, if_pos rfl, tmStatus_and _ (and_eq_zero_of_part hmade h), BitVec.and_assoc, ← h,
    ← BitVec.and_assoc (~~~staDyn), hmask]

theorem mtc_err (s : Cpu) : mtc s &&& mtcErr ≠ 0 ↔ mts s &&& staLatched ≠ 0 := by
  have hflags : mts s &&& staEflgs = mts s &&& staLatched := by
    have hsplit : staEflgs = staLatched ||| staEof := by decide
    rw [hsplit, BitVec.and_or_distrib_left, mts_eof]
    exact BitVec.or_zero
  have hclear : s.dev.tm.cmd &&& ~~~mtcErr &&& mtcErr = 0 := by
    rw [BitVec.and_assoc, BitVec.and_comm (~~~mtcErr), BitVec.and_not_self]
    exact BitVec.and_zero
  have hread : mtc s = if mts s &&& staEflgs ≠ 0 then s.dev.tm.cmd &&& ~~~mtcErr ||| mtcErr
      else s.dev.tm.cmd &&& ~~~mtcErr := rfl
  rw [hread, hflags]
  split
  · next h =>
    rw [or_and_self]
    exact iff_of_true (by decide) h
  · next h =>
    rw [hclear]
    exact iff_of_false (not_not.2 rfl) h

/-! ## From one command to the next -/

/-- The write of MTC starts a command. -/
def StartsNow (s : Cpu) (value : Word) : Prop :=
  s.dev.tm.busy = false ∧ (tmWriteMtc s value).dev.tm.busy = true

/-- A register write that initialises the controller or starts a command. -/
def Restarts (s : Cpu) (addr value : Word) : Prop :=
  addr = tmMtc ∧ (value &&& mtcInit ≠ 0 ∨ StartsNow s value)

/-- No command is accepted and nothing initialised: register reads, the other register writes, and
anything that leaves the command, the latched status and the outstanding completion alone. -/
inductive Uncommanded (s : Cpu) : Cpu → Prop
  | refl : Uncommanded s s
  | read {t : Cpu} (addr : Word) : Uncommanded s t → Uncommanded s (tmRead t addr).2
  | write {t : Cpu} (addr value : Word) : Uncommanded s t → ¬Restarts t addr value →
      Uncommanded s (tmWrite t addr value)
  | other {t : Cpu} (u : Cpu) : Uncommanded s t → u.dev.tm.sta = t.dev.tm.sta →
      u.dev.tm.cmd = t.dev.tm.cmd → u.dev.tm.busy = t.dev.tm.busy → Uncommanded s u

/-- What a command looks at stays. -/
def StatusHeld (s t : Cpu) : Prop :=
  t.dev.tm.sta = s.dev.tm.sta ∧ t.dev.tm.cmd = s.dev.tm.cmd ∧ t.dev.tm.busy = s.dev.tm.busy

theorem tmRead_held (s : Cpu) (addr : Word) : StatusHeld s (tmRead s addr).2 := by
  unfold tmRead
  dsimp only
  split_ifs <;> exact ⟨rfl, rfl, rfl⟩

theorem tmWrite_held {s : Cpu} {addr : Word} (value : Word) (h : addr ≠ tmMtc) :
    StatusHeld s (tmWrite s addr value) := by
  unfold tmWrite
  rw [if_neg h]
  split_ifs <;> exact ⟨rfl, rfl, rfl⟩

/-- A property of the status that a write of MTC keeps holds until the next command. -/
theorem Uncommanded.keeps {P : Cpu → Prop} {s t : Cpu} (h : Uncommanded s t)
    (hheld : ∀ u v, StatusHeld u v → P u → P v)
    (hwrite : ∀ u value, value &&& mtcInit = 0 → ¬StartsNow u value → P u → P (tmWriteMtc u value))
    (hs : P s) : P t := by
  induction h with
  | refl => exact hs
  | read addr _ ih => exact hheld _ _ (tmRead_held _ addr) ih
  | @write t addr value _ hn ih =>
    by_cases ha : addr = tmMtc
    · subst ha
      have hmtc : tmWrite t tmMtc value = tmWriteMtc t value := if_pos rfl
      rw [hmtc]
      apply hwrite t value _ _ ih
      · by_contra hinit
        exact hn ⟨rfl, .inl hinit⟩
      · exact fun hstart => hn ⟨rfl, .inr hstart⟩
    · exact hheld _ _ (tmWrite_held value ha) ih
  | other u _ hsta hcmd hbusy ih => exact hheld _ _ ⟨hsta, hcmd, hbusy⟩ ih

/-- At work on a command, with no error shown. -/
structure Working (s : Cpu) : Prop where
  busy : s.dev.tm.busy = true
  notDone : s.dev.tm.cmd &&& mtcDone = 0
  clear : s.dev.tm.sta &&& staLatched = 0

theorem Working.held {s t : Cpu} (h : StatusHeld s t) (hs : Working s) : Working t := by
  obtain ⟨hsta, hcmd, hbusy⟩ := h
  exact ⟨hbusy.trans hs.busy, hcmd ▸ hs.notDone, hsta ▸ hs.clear⟩

/-- An accepted command clears the errors. -/
theorem working_of_starts {s : Cpu} {value : Word} (h : StartsNow s value) :
    Working (tmWriteMtc s value) := by
  obtain ⟨hidle, hbusy⟩ := h
  by_cases hinit : value &&& mtcInit = 0
  · obtain ⟨intReq, heq⟩ := tmWriteMtc_eq (s := s) hinit
    dsimp only at heq
    rw [heq] at hbusy ⊢
    split at hbusy
    · next hgo =>
      rw [if_pos hgo]
      unfold tmGo at hbusy ⊢
      dsimp only at hbusy ⊢
      split at hbusy
      · rw [tmSetDone_tm] at hbusy
        cases hbusy
      · next hstart =>
        rw [if_neg hstart]
        refine ⟨rfl, ?_, ?_⟩
        · show ((_ ||| _) &&& ~~~mtcDone) &&& mtcDone = 0
          rw [BitVec.and_assoc, BitVec.and_comm (~~~mtcDone), BitVec.and_not_self]
          exact BitVec.and_zero
        · show (if _ then staRew else 0) &&& staLatched = 0
          split <;> decide
    · rw [hidle] at hbusy
      cases hbusy
  · unfold tmWriteMtc at hbusy
    rw [if_pos hinit] at hbusy
    cases hbusy

theorem Working.write {s : Cpu} {value : Word} (hinit : value &&& mtcInit = 0) (h : Working s) :
    Working (tmWriteMtc s value) := by
  obtain ⟨intReq, heq⟩ := tmWriteMtc_eq (s := s) hinit
  dsimp only at heq
  rw [if_neg fun hgo => hgo.1 h.notDone] at heq
  rw [heq]
  exact ⟨h.busy, (mtcDone_load _ _).trans h.notDone, h.clear⟩

theorem Uncommanded.working {s t : Cpu} (h : Uncommanded s t) (hs : Working s) : Working t :=
  h.keeps (fun _ _ hh => Working.held hh) (fun _ _ hinit _ => Working.write hinit) hs

/-- Idle, with no error but those of commands that were refused. -/
structure Settled (s : Cpu) : Prop where
  idle : s.dev.tm.busy = false
  clear : s.dev.tm.sta &&& (staRle ||| staNxm) = 0

theorem Settled.held {s t : Cpu} (h : StatusHeld s t) (hs : Settled s) : Settled t :=
  ⟨h.2.2.trans hs.idle, h.1 ▸ hs.clear⟩

/-- A refused command is an illegal one. -/
theorem Settled.write {s : Cpu} {value : Word} (hinit : value &&& mtcInit = 0)
    (hn : ¬StartsNow s value) (h : Settled s) : Settled (tmWriteMtc s value) := by
  have hidle : (tmWriteMtc s value).dev.tm.busy = false := by
    by_contra hbusy
    exact hn ⟨h.idle, by simpa using hbusy⟩
  refine ⟨hidle, ?_⟩
  obtain ⟨intReq, heq⟩ := tmWriteMtc_eq (s := s) hinit
  dsimp only at heq
  rw [heq] at hidle ⊢
  split
  · next hgo =>
    rw [if_pos hgo] at hidle
    unfold tmGo at hidle ⊢
    dsimp only at hidle ⊢
    split
    · rw [tmSetDone_tm]
      exact (or_and_eq _ (by decide)).trans h.clear
    · next hstart =>
      rw [if_neg hstart] at hidle
      cases hidle
  · exact h.clear

theorem Uncommanded.settled {s t : Cpu} (h : Uncommanded s t) (hs : Settled s) : Settled t :=
  h.keeps (fun _ _ hh => Settled.held hh) (fun _ _ hinit hn => Settled.write hinit hn) hs

/-! ## Completions over a tape mark -/

/-- A READ or a SPACE FORWARD is due that was accepted and is the last command. -/
def ForwardDue (t : Cpu) : Prop :=
  (∃ s value, StartsNow s value ∧ Uncommanded (tmWriteMtc s value) t) ∧
    (tmPollOperation t = some .read ∨ tmPollOperation t = some .spaceForward)

/-- The length at the position, by which a forward command knows a mark and the end. -/
def lengthAhead (s : Cpu) : BitVec 32 := tapLenAt s.dev.tm s.dev.tm.pos

/-- What the completion in `t` promises: from there to the next command a tape mark passed is shown
as EOF and ERR, and after a record EOF is not shown, nor ERR but for another error. -/
def ReportsMark (t : Cpu) : Prop :=
  ∀ u, Uncommanded (tmPoll t) u →
    (lengthAhead t = 0 → mts u &&& staEof ≠ 0 ∧ mtc u &&& mtcErr ≠ 0) ∧
    (lengthAhead t ≠ 0 → lengthAhead t ≠ 0xFFFFFFFF →
      mts u &&& staEof = 0 ∧ (mtc u &&& mtcErr ≠ 0 → mts u &&& staLatched ≠ 0))

theorem poll_mark {t : Cpu}
    (hop : tmPollOperation t = some .read ∨ tmPollOperation t = some .spaceForward)
    (hmark : lengthAhead t = 0) : (tmPoll t).dev.tm.busy = false ∧
      (tmPoll t).dev.tm.sta = t.dev.tm.sta ||| staEof := by
  rcases hop with hop | hop
  · have hread : tmPoll t = tmExecute t tmFncRead := by
      rw [tmPoll_eq, hop]
      rfl
    have hexec (xma cbc : BitVec 32) : tmExecRead t xma cbc = { t with
        dev.tm.sta := t.dev.tm.sta ||| staEof
        dev.tm.pos := t.dev.tm.pos + 4 } := if_pos hmark
    rw [hread, tmExecute_read, tmSetDone_tm, hexec]
    exact ⟨rfl, rfl⟩
  · have hspace : tmPoll t = tmExecute t tmFncSpacef := by
      rw [tmPoll_eq, hop]
      rfl
    have hexec : tmExecSpacef t = { t with
        dev.tm.sta := t.dev.tm.sta ||| staEof
        dev.tm.pos := t.dev.tm.pos + 4 } := if_pos hmark
    rw [hspace, tmExecute_spacef, tmSetDone_tm, hexec]
    exact ⟨rfl, rfl⟩

theorem settled_of_mark {t : Cpu} (h : ForwardDue t) (hmark : lengthAhead t = 0) :
    Settled (tmPoll t) ∧ (tmPoll t).dev.tm.sta &&& staLatched = 0 := by
  obtain ⟨⟨s, value, hstart, hno⟩, hop⟩ := h
  have hclear := (hno.working (working_of_starts hstart)).clear
  obtain ⟨hidle, hsta⟩ := poll_mark hop hmark
  have hnone : (tmPoll t).dev.tm.sta &&& staLatched = 0 := by
    rw [hsta, or_and_eq _ (by decide)]
    exact hclear
  exact ⟨⟨hidle, and_eq_zero_of_part hnone (by decide)⟩, hnone⟩

/-- A READ or SPACE FORWARD reports what it passed exactly when that was no tape mark. The mark is
never shown: no read of MTS has EOF, and MTC has no ERR, until a command is refused as illegal. -/
theorem tape_mark_reported_iff {t : Cpu} (h : ForwardDue t) :
    (ReportsMark t ↔ lengthAhead t ≠ 0) ∧
      (lengthAhead t = 0 → mtc (tmPoll t) &&& mtcErr = 0 ∧
        ∀ u, Uncommanded (tmPoll t) u → mts u &&& staEof = 0 ∧
          (mtc u &&& mtcErr ≠ 0 ↔ mts u &&& staIll ≠ 0)) := by
  refine ⟨⟨fun hr hmark => ?_, fun hne u hu => ?_⟩, fun hmark => ⟨?_, fun u hu => ?_⟩⟩
  · exact ((hr _ .refl).1 hmark).1 (mts_eof _)
  · exact ⟨fun hmark => absurd hmark hne, fun _ _ => ⟨mts_eof u, (mtc_err u).1⟩⟩
  · have hclear : mts (tmPoll t) &&& staLatched = 0 := by
      rw [mts_latched _ (BitVec.and_self ..)]
      exact (settled_of_mark h hmark).2
    exact not_not.1 (mt (mtc_err _).1 (not_not.2 hclear))
  · refine ⟨mts_eof u, ?_⟩
    have hother : mts u &&& (staRle ||| staNxm) = 0 := by
      rw [mts_latched u (by decide)]
      exact (hu.settled (settled_of_mark h hmark).1).clear
    have hsplit : staLatched = staIll ||| (staRle ||| staNxm) := by decide
    have hzero : mts u &&& staIll ||| 0 = mts u &&& staIll := BitVec.or_zero
    rw [mtc_err, hsplit, BitVec.and_or_distrib_left, hother, hzero]

/-- A blank tape begins with a mark, and a READ of it is due. -/
def markReading : Cpu := commanded tapeMachine 4 0 0o3

theorem markReading_due : ForwardDue markReading := by
  refine ⟨⟨tmWrite (tmWrite tapeMachine 0o172524 (BitVec.ofNat 16 (2 ^ 16 - 4))) 0o172526 0, 0o3,
    ⟨by decide, by decide⟩, ?_⟩, .inl (by decide)⟩
  exact Uncommanded.refl.other _ rfl rfl rfl

/-- The READ of a mark completes, and neither register shows it. -/
theorem mark_not_reported : ¬∀ t : Cpu, ForwardDue t → ReportsMark t := by
  intro h
  have hshown := ((h markReading markReading_due) _ .refl).1 (by decide)
  exact absurd hshown.1 (by decide)

/-- The READ of a mark leaves no error in MTC. -/
theorem mark_without_error : mtc (tmPoll markReading) &&& mtcErr = 0 :=
  ((tape_mark_reported_iff markReading_due).2 (by decide)).1

end Pdp11
