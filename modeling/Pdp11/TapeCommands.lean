import Pdp11.DeviceEffects

namespace Pdp11

/-! Which operation a tape command carries out, and what writes of MTC meanwhile do to it. -/

/-- What the tape can be made to do: a write with extended gap is a write, an unload a rewind. -/
inductive TapeOperation
  | rewind | read | write | mark | spaceForward | spaceReverse
  deriving DecidableEq, Repr

/-- The operation of a function code. -/
def tmOperation (func : Word) : TapeOperation :=
  if func = tmFncRead then .read
  else if func = tmFncWrite ∨ func = tmFncWrext then .write
  else if func = tmFncWreof then .mark
  else if func = tmFncSpacef then .spaceForward
  else if func = tmFncSpacer then .spaceReverse
  else .rewind

def TapeOperation.perform (s : Cpu) : TapeOperation → Cpu
  | .rewind => tmSetDone { s with
      dev.tm.pos := 0
      dev.tm.sta := s.dev.tm.sta &&& ~~~staRew }
  | .read => tmExecute s tmFncRead
  | .write => tmExecute s tmFncWrite
  | .mark => tmExecute s tmFncWreof
  | .spaceForward => tmExecute s tmFncSpacef
  | .spaceReverse => tmExecute s tmFncSpacer

/-- The operation a poll carries out, when a command is due. -/
def tmPollOperation (s : Cpu) : Option TapeOperation :=
  if !s.dev.tm.busy ∨ s.acct.timeNs < s.dev.tm.doneNs then none
  else some (tmOperation (tmGetFnc s.dev.tm.cmd))

/-- The byte count of a command. -/
def tmByteCount (tm : Tm11) : BitVec 32 := (0o200000 - tm.bc.setWidth 32) &&& 0o177777

theorem tmExecute_read (s : Cpu) : tmExecute s tmFncRead = tmSetDone (tmExecRead s
    (tmGetEma s.dev.tm.cmd ||| s.dev.tm.ca.setWidth 32) (tmByteCount s.dev.tm)) := by
  unfold tmExecute tmByteCount
  dsimp only
  rw [if_pos rfl]

theorem tmExecute_write (s : Cpu) : tmExecute s tmFncWrite = tmSetDone (tmExecWrite s
    (tmGetEma s.dev.tm.cmd ||| s.dev.tm.ca.setWidth 32) (tmByteCount s.dev.tm)) := by
  unfold tmExecute tmByteCount
  dsimp only
  rw [if_neg (by decide), if_pos (.inl rfl)]

theorem tmExecute_wrext (s : Cpu) : tmExecute s tmFncWrext = tmExecute s tmFncWrite := by
  rw [tmExecute_write]
  unfold tmExecute tmByteCount
  dsimp only
  rw [if_neg (by decide), if_pos (.inr rfl)]

theorem tmExecute_spacef (s : Cpu) : tmExecute s tmFncSpacef = tmSetDone (tmExecSpacef s) := by
  unfold tmExecute
  dsimp only
  rw [if_neg (by decide), if_neg (by decide), if_neg (by decide), if_pos rfl]

theorem tmExecute_spacer (s : Cpu) : tmExecute s tmFncSpacer = tmSetDone (tmExecSpacer s) := by
  unfold tmExecute
  dsimp only
  rw [if_neg (by decide), if_neg (by decide), if_neg (by decide), if_neg (by decide), if_pos rfl]

/-- A function code has three bits. -/
theorem tmGetFnc_cases (c : Word) : tmGetFnc c = 0 ∨ tmGetFnc c = 1 ∨ tmGetFnc c = 2 ∨
    tmGetFnc c = 3 ∨ tmGetFnc c = 4 ∨ tmGetFnc c = 5 ∨ tmGetFnc c = 6 ∨ tmGetFnc c = 7 := by
  have hand : (tmGetFnc c).toNat = (c >>> 1).toNat &&& 7 := BitVec.toNat_and _ _
  have hle : (c >>> 1).toNat &&& 7 ≤ 7 := Nat.and_le_right
  have hlt : (tmGetFnc c).toNat < 8 := by omega
  generalize tmGetFnc c = f at hlt
  bv_omega

/-- A poll performs the operation of the function code it finds in MTC. -/
theorem tmPoll_eq (s : Cpu) :
    tmPoll s = match tmPollOperation s with
      | some op => op.perform s
      | none => s := by
  unfold tmPoll tmPollOperation
  by_cases hdue : !s.dev.tm.busy ∨ s.acct.timeNs < s.dev.tm.doneNs
  · rw [if_pos hdue, if_pos hdue]
  rw [if_neg hdue, if_neg hdue]
  dsimp only
  have hop (f : Word) (op : TapeOperation) (hf : tmOperation f = op)
      (h : (if f = tmFncRewind ∨ f = tmFncUnload then TapeOperation.rewind.perform s
        else tmExecute s f) = op.perform s) (hc : tmGetFnc s.dev.tm.cmd = f) :
      (if tmGetFnc s.dev.tm.cmd = tmFncRewind ∨ tmGetFnc s.dev.tm.cmd = tmFncUnload then
        tmSetDone { s with dev.tm.pos := 0, dev.tm.sta := s.dev.tm.sta &&& ~~~staRew }
        else tmExecute s (tmGetFnc s.dev.tm.cmd)) =
      (tmOperation (tmGetFnc s.dev.tm.cmd)).perform s := by
    rw [hc, hf, ← h]
    rfl
  rcases tmGetFnc_cases s.dev.tm.cmd with h | h | h | h | h | h | h | h
  · exact hop 0 .rewind rfl (if_pos (by decide)) h
  · exact hop 1 .read rfl (if_neg (by decide)) h
  · exact hop 2 .write rfl (if_neg (by decide)) h
  · exact hop 3 .mark rfl (if_neg (by decide)) h
  · exact hop 4 .spaceForward rfl (if_neg (by decide)) h
  · exact hop 5 .spaceReverse rfl (if_neg (by decide)) h
  · exact hop 6 .write rfl ((if_neg (by decide)).trans (tmExecute_wrext s)) h
  · exact hop 7 .rewind rfl (if_pos (by decide)) h

/-! ## Writes of MTC -/

/-- Writes of MTC without the initialise bit, in order, with anything in between that leaves MTC
and the outstanding completion alone: time, other registers, other controllers. -/
inductive Meanwhile (s : Cpu) : List Word → Cpu → Prop
  | refl : Meanwhile s [] s
  | write {ws : List Word} {t : Cpu} (value : Word) : Meanwhile s ws t → value &&& mtcInit = 0 →
      Meanwhile s (ws ++ [value]) (tmWriteMtc t value)
  | other {ws : List Word} {t : Cpu} (u : Cpu) : Meanwhile s ws t →
      u.dev.tm.cmd = t.dev.tm.cmd → u.dev.tm.busy = t.dev.tm.busy → Meanwhile s ws u

/-- A command with function code `func` is outstanding. -/
structure Outstanding (func : Word) (s : Cpu) : Prop where
  busy : s.dev.tm.busy = true
  notDone : s.dev.tm.cmd &&& mtcDone = 0
  func : tmGetFnc s.dev.tm.cmd = func

/-- The function bits of MTC are those last written. -/
theorem tmGetFnc_load (c value : Word) :
    tmGetFnc ((c &&& ~~~mtcRw) ||| (value &&& mtcRw)) = tmGetFnc value := by
  have hkept : (~~~mtcRw >>> 1) &&& 7 = (0 : Word) := by decide
  have hloaded : (mtcRw >>> 1) &&& 7 = (7 : Word) := by decide
  unfold tmGetFnc
  rw [BitVec.ushiftRight_or_distrib, BitVec.ushiftRight_and_distrib, BitVec.ushiftRight_and_distrib,
    BitVec.and_or_distrib_right, BitVec.and_assoc, BitVec.and_assoc, hkept, hloaded]
  simp

theorem tmGetFnc_clearDone (c : Word) : tmGetFnc (c &&& ~~~mtcDone) = tmGetFnc c := by
  have hkept : (~~~mtcDone >>> 1) &&& 7 = (7 : Word) := by decide
  unfold tmGetFnc
  rw [BitVec.ushiftRight_and_distrib, BitVec.and_assoc, hkept]

/-- The done bit is no bit a program writes. -/
theorem mtcDone_load (c value : Word) :
    ((c &&& ~~~mtcRw) ||| (value &&& mtcRw)) &&& mtcDone = c &&& mtcDone := by
  have hkept : ~~~mtcRw &&& mtcDone = mtcDone := by decide
  have hloaded : mtcRw &&& mtcDone = 0 := by decide
  rw [BitVec.and_or_distrib_right, BitVec.and_assoc, BitVec.and_assoc, hkept, hloaded]
  simp

/-- A write of MTC without the initialise bit loads it, and starts a command if the controller is
done and the go bit is set. -/
theorem tmWriteMtc_eq {s : Cpu} {value : Word} (hinit : value &&& mtcInit = 0) :
    ∃ intReq, tmWriteMtc s value =
      let s' := { s with
        dev.intReq := intReq
        dev.tm.cmd := (s.dev.tm.cmd &&& ~~~mtcRw) ||| (value &&& mtcRw) }
      if s.dev.tm.cmd &&& mtcDone ≠ 0 ∧ value &&& mtcGo ≠ 0 then tmGo s' else s' := by
  obtain ⟨intReq, hreq⟩ := request_ite s .tm (value &&& mtcIe = 0)
    (s.dev.tm.cmd &&& (mtcDone ||| mtcIe) = mtcDone)
  refine ⟨intReq, ?_⟩
  unfold tmWriteMtc
  rw [if_neg (not_not.2 hinit), hreq]
  dsimp only
  rw [mtcDone_load]

/-- A command that is accepted is outstanding with the function it was given. -/
theorem outstanding_of_accepted {s : Cpu} {value : Word} (hinit : value &&& mtcInit = 0)
    (hdone : s.dev.tm.cmd &&& mtcDone ≠ 0) (hgo : value &&& mtcGo ≠ 0)
    (haccepted : (tmWriteMtc s value).dev.tm.busy = true) :
    Outstanding (tmGetFnc value) (tmWriteMtc s value) := by
  obtain ⟨intReq, heq⟩ := tmWriteMtc_eq (s := s) hinit
  dsimp only at heq
  rw [if_pos ⟨hdone, hgo⟩] at heq
  rw [heq] at haccepted ⊢
  unfold tmGo at haccepted ⊢
  dsimp only at haccepted ⊢
  split at haccepted
  · unfold tmSetDone at haccepted
    dsimp only at haccepted
    split at haccepted <;> cases haccepted
  · rename_i hstart
    rw [if_neg hstart]
    refine ⟨rfl, ?_, ?_⟩
    · show ((_ ||| _) &&& ~~~mtcDone) &&& mtcDone = 0
      rw [BitVec.and_assoc, BitVec.and_comm (~~~mtcDone), BitVec.and_not_self]
      exact BitVec.and_zero
    · exact (tmGetFnc_clearDone _).trans (tmGetFnc_load _ _)

/-- While a command is outstanding a write of MTC changes its function, and starts nothing. -/
theorem Outstanding.write {func value : Word} {s : Cpu} (h : Outstanding func s)
    (hinit : value &&& mtcInit = 0) : Outstanding (tmGetFnc value) (tmWriteMtc s value) := by
  obtain ⟨intReq, heq⟩ := tmWriteMtc_eq (s := s) hinit
  dsimp only at heq
  rw [if_neg fun hgo => hgo.1 h.notDone] at heq
  rw [heq]
  exact ⟨h.busy, (mtcDone_load _ _).trans h.notDone, tmGetFnc_load _ _⟩

/-- The command outstanding has the function of the last write. -/
theorem Meanwhile.outstanding {func : Word} {s t : Cpu} {ws : List Word} (h : Meanwhile s ws t)
    (hs : Outstanding func s) : Outstanding ((ws.getLast?.map tmGetFnc).getD func) t := by
  induction h with
  | refl => exact hs
  | write value _ hinit ih =>
    simpa using ih.write hinit
  | other u _ hcmd hbusy ih =>
    obtain ⟨hb, hd, hf⟩ := ih
    exact ⟨hbusy.trans hb, hcmd ▸ hd, hcmd ▸ hf⟩

/-! ## The command that completes -/

/-- A command accepted by a write of MTC, and the writes of MTC made before it completes: the poll
that completes it carries out the operation of the function last written, which is the accepted one
exactly when the last write, if there is any, names the same operation. -/
theorem tape_command_kept {s t : Cpu} {value : Word} {ws : List Word}
    (hdone : s.dev.tm.cmd &&& mtcDone ≠ 0) (hgo : value &&& mtcGo ≠ 0)
    (hinit : value &&& mtcInit = 0) (haccepted : (tmWriteMtc s value).dev.tm.busy = true)
    (hws : Meanwhile (tmWriteMtc s value) ws t) (hdue : t.dev.tm.doneNs ≤ t.acct.timeNs) :
    (∃ op, tmPollOperation t = some op ∧ tmPoll t = op.perform t) ∧
      (tmPollOperation t = some (tmOperation (tmGetFnc value)) ↔
        ∀ w ∈ ws.getLast?, tmOperation (tmGetFnc w) = tmOperation (tmGetFnc value)) := by
  have ht := hws.outstanding (outstanding_of_accepted hinit hdone hgo haccepted)
  have hnow : ¬(!t.dev.tm.busy ∨ t.acct.timeNs < t.dev.tm.doneNs) := by
    rintro (hb | hlt)
    · rw [ht.busy] at hb
      cases hb
    · exact absurd hdue (BitVec.not_le.2 hlt)
  have hop : tmPollOperation t =
      some (tmOperation ((ws.getLast?.map tmGetFnc).getD (tmGetFnc value))) := by
    rw [tmPollOperation, if_neg hnow, ht.func]
  refine ⟨⟨_, hop, ?_⟩, ?_⟩
  · rw [tmPoll_eq, hop]
  · rw [hop]
    cases ws.getLast? <;> simp

/-- A machine with a blank tape, on which a READ is started and MTC written once before the READ is
due. -/
def tapeMachine : Cpu := tmAttach cpuCreate (some fun _ => 0) 1024 false

def readingTape (value : Word) : Cpu :=
  let s := tmWriteMtc (tmWriteMtc tapeMachine 0o3) value
  { s with acct.timeNs := s.dev.tm.doneNs }

theorem readingTape_meanwhile {value : Word} (hinit : value &&& mtcInit = 0) :
    Meanwhile (tmWriteMtc tapeMachine 0o3) [value] (readingTape value) :=
  (Meanwhile.refl.write value hinit).other _ rfl rfl

/-- The function WRITE put into MTC while a READ is outstanding is carried out in its place. -/
theorem read_becomes_write : ¬∀ (s t : Cpu) (value : Word) (ws : List Word),
    s.dev.tm.cmd &&& mtcDone ≠ 0 → value &&& mtcGo ≠ 0 → value &&& mtcInit = 0 →
    (tmWriteMtc s value).dev.tm.busy = true → Meanwhile (tmWriteMtc s value) ws t →
    t.dev.tm.doneNs ≤ t.acct.timeNs →
    tmPollOperation t = some (tmOperation (tmGetFnc value)) := by
  intro h
  have hread := h tapeMachine (readingTape 0o4) 0o3 [0o4] (by decide) (by decide) (by decide)
    (by decide) (readingTape_meanwhile (by decide)) (BitVec.le_refl _)
  exact absurd hread (by decide)

/-- The interrupt enabled meanwhile, with the function kept, leaves the READ a READ. -/
theorem tape_read_kept : tmPollOperation (readingTape 0o102) = some .read := by
  have hws : Meanwhile (tmWriteMtc tapeMachine 0o3) [0o102] (readingTape 0o102) :=
    readingTape_meanwhile (by decide)
  refine (tape_command_kept (by decide) (by decide) (by decide) (by decide) hws (BitVec.le_refl _)).2.2 ?_
  rintro w ⟨⟩
  decide

end Pdp11
