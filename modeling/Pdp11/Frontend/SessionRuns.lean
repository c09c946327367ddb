import Pdp11.Frontend.DemoProgram
import Pdp11.Frontend.TerminalScreen

namespace Pdp11

open RingQueue

/-! What becomes of the keystrokes and of the console output in a session. -/

/-- What passes between the keyboard, the processor and the terminal. -/
inductive SessionAct
  | typed (b : Byte)
  | handed (b : Byte)
  | sent (ch : Byte)
  deriving DecidableEq, Repr

namespace SessionAct

def typed? : SessionAct → Option Byte
  | typed b => some b
  | _ => none

def handed? : SessionAct → Option Byte
  | handed b => some b
  | _ => none

def sent? : SessionAct → Option Byte
  | sent ch => some ch
  | _ => none

/-- A typed byte is offered to the queue, and the receiver is handed one from it. -/
def queueAct : SessionAct → Option (QueueAct Byte)
  | typed b => some (.offered b)
  | handed b => some (.taken b)
  | sent _ => none

/-- The terminal shows what is sent, and expects the echo of an erase character handed over. -/
def terminalEvent : SessionAct → Option VtEvent
  | typed _ => none
  | handed b => if b = chErase then some .armErase else none
  | sent ch => some (.receive ch)

end SessionAct

open SessionAct

theorem filterMap_map_none {α β γ : Type} {f : α → β} {g : β → Option γ} (h : ∀ x, g (f x) = none)
    (l : List α) : (l.map f).filterMap g = [] := by
  rw [List.filterMap_map, List.filterMap_eq_nil_iff]
  exact fun x _ => h x

/-- Part of a session, with what passes in it. -/
structure SessionMoves (s t : Session) (acts : List SessionAct) : Prop where
  /-- Byte by byte: what finds the queue full is lost, and the oldest is handed over. -/
  queue : (acts.filterMap queueAct).foldlM (QueueAct.use 255) s.kbd.contents = some t.kbd.contents
  /-- The receiver buffer has the byte handed over last. -/
  held : t.cpu.dev.ttiBuf =
    ((acts.filterMap handed?).getLast?.map fun b => b.setWidth 16).getD s.cpu.dev.ttiBuf
  /-- The terminal gets what the console sends, and a rub-out with each erase character. -/
  shown : ∀ out, s.cpu.dev.consoleOut = some out →
    t.cpu.dev.consoleOut = some (out ++ acts.filterMap sent?) ∧
      t.term = (acts.filterMap terminalEvent).foldl VtEvent.apply s.term

namespace SessionMoves

variable {s t u : Session} {acts acts' : List SessionAct}

theorem trans (h : SessionMoves s t acts) (h' : SessionMoves t u acts') :
    SessionMoves s u (acts ++ acts') where
  queue := by
    rw [List.filterMap_append, List.foldlM_append, h.queue]
    exact h'.queue
  held := by
    rw [h'.held, h.held, List.filterMap_append, List.getLast?_append]
    cases (acts'.filterMap handed?).getLast? <;> simp
  shown out hout := by
    obtain ⟨hout₁, hterm⟩ := h.shown out hout
    obtain ⟨hout₂, hterm'⟩ := h'.shown _ hout₁
    constructor
    · rw [hout₂, List.filterMap_append, List.append_assoc]
    · rw [hterm', hterm, List.filterMap_append, List.foldl_append]

theorem refl (s : Session) : SessionMoves s s [] where
  queue := rfl
  held := rfl
  shown out hout := ⟨by simpa using hout, rfl⟩

end SessionMoves

/-! ## The parts of a frame -/

theorem newBytes_eq {s t : Cpu} {out sent : List Byte} (h : ConsoleMoves s t sent)
    (hout : s.dev.consoleOut = some out) :
    newBytes s t = sent ∧ t.dev.consoleOut = some (out ++ sent) := by
  have ht : t.dev.consoleOut = some (out ++ sent) := by
    rw [h.out, hout]
    rfl
  refine ⟨?_, ht⟩
  rw [newBytes, ht, hout]
  exact List.drop_left

/-- What the processor sends goes to the terminal. -/
theorem sessionCpu_moves (s : Session) {cpu : Cpu} {sent : List Byte}
    (h : ConsoleMoves s.cpu cpu sent) : SessionMoves s (sessionCpu s cpu) (sent.map .sent) where
  queue := by
    rw [filterMap_map_none fun _ => rfl]
    rfl
  held := by
    rw [filterMap_map_none fun _ => rfl]
    exact h.buf
  shown out hout := by
    obtain ⟨hnew, ht⟩ := newBytes_eq h hout
    rw [List.filterMap_map, List.filterMap_map,
      show sent? ∘ SessionAct.sent = some from rfl,
      show terminalEvent ∘ SessionAct.sent = some ∘ VtEvent.receive from rfl,
      List.filterMap_some, List.filterMap_eq_map, List.foldl_map]
    refine ⟨ht, ?_⟩
    show (newBytes s.cpu cpu).foldl vtSink s.term = _
    rw [hnew]
    rfl

/-- What a click on the panel sends: a single step may send, the other functions do not. -/
def clickBytes (cpu : Cpu) : PanelOp → List Byte
  | .step => sentBytes (cpuStep { cpu with ctl.halted := false }).events
  | _ => []

theorem panelClick_console (op : PanelOp) (cpu : Cpu) (ps : PanelState) :
    ConsoleMoves cpu (panelClick op cpu ps).1 (clickBytes cpu op) := by
  cases op with
  | step =>
    have hrun : ConsoleMoves cpu { cpu with ctl.halted := false } [] := .of_dev rfl
    have hstep := cpuStep_console { cpu with ctl.halted := false }
    have hhalt : ConsoleMoves (cpuStep { cpu with ctl.halted := false }).cpu
        (panelClick .step cpu ps).1 [] := .of_dev rfl
    have hall := (hrun.trans hstep).trans hhalt
    rw [List.nil_append, List.append_nil] at hall
    exact hall
  | _ => exact .of_dev rfl

/-- An event queues its bytes one by one; a click on the panel queues none. -/
def eventActs (s : Session) (e : SdlEvent) : List SessionAct :=
  (typedBytes e).map .typed ++
    match e with
    | .mouseDown (some op) => (clickBytes s.cpu op).map .sent
    | _ => []

theorem pushAll_moves (s : Session) (bs : List Byte) :
    SessionMoves s { s with kbd := s.kbd.pushAll bs } (bs.map .typed) where
  queue := by
    rw [List.filterMap_map, show queueAct ∘ SessionAct.typed = some ∘ QueueAct.offered from rfl,
      List.filterMap_eq_map]
    exact s.kbd.replay_pushAll bs
  held := by
    rw [filterMap_map_none fun _ => rfl]
    rfl
  shown out hout := by
    rw [filterMap_map_none fun _ => rfl, filterMap_map_none fun _ => rfl, List.append_nil]
    exact ⟨hout, rfl⟩

theorem sessionEvent_moves (s : Session) (e : SdlEvent) :
    SessionMoves s (sessionEvent s e) (eventActs s e) := by
  have hpush := pushAll_moves s (typedBytes e)
  unfold eventActs
  cases e with
  | mouseDown op =>
    cases op with
    | none => exact hpush
    | some op =>
      have hclick := sessionCpu_moves s (panelClick_console op s.cpu s.panel)
      exact ⟨hclick.queue, hclick.held, hclick.shown⟩
  | quit => exact ⟨hpush.queue, hpush.held, hpush.shown⟩
  | keyDown ctrl key =>
    rw [List.append_nil]
    exact hpush
  | textInput text =>
    rw [List.append_nil]
    exact hpush

/-- A keystroke that is due is handed over. -/
def feedActs (s : Session) : List SessionAct := if keyDue s then [.handed s.kbd.front] else []

theorem feedKey_moves (s : Session) : SessionMoves s (feedKey s) (feedActs s) := by
  unfold feedKey feedActs
  split
  · next hdue =>
    have hne : s.kbd.isEmpty = false := by
      unfold keyDue at hdue
      simpa using (of_decide_eq_true hdue).1
    refine ⟨?_, ?_, ?_⟩
    · show ([.taken s.kbd.front] : List (QueueAct Byte)).foldlM (QueueAct.use 255) s.kbd.contents = _
      rw [List.foldlM_cons, s.kbd.use_pop 255 hne]
      rfl
    · show (consoleInput s.cpu s.kbd.front).dev.ttiBuf = _
      unfold consoleInput
      dsimp only
      split_ifs <;> rfl
    · intro out hout
      have hkept : (consoleInput s.cpu s.kbd.front).dev.consoleOut = some out := by
        unfold consoleInput
        dsimp only
        split_ifs <;> exact hout
      refine ⟨?_, ?_⟩
      · rw [show [SessionAct.handed s.kbd.front].filterMap sent? = [] from rfl, List.append_nil]
        exact hkept
      · show armEcho s.term s.kbd.front = _
        unfold armEcho
        -- the rub-out is armed before the program can echo the erase character
        by_cases herase : s.kbd.front = chErase
        · rw [if_pos herase, herase]
          rfl
        · have hnone : terminalEvent (.handed s.kbd.front) = none := if_neg herase
          rw [if_neg herase, List.filterMap_cons_none hnone]
          rfl
  · exact .refl s

/-- In one pass of the inner loop a keystroke may be handed over, and the processor may send. -/
def stepActs (s : Session) : List SessionAct :=
  feedActs s ++ (sentBytes (cpuStep (feedKey s).cpu).events).map .sent

theorem sessionStep_moves (s : Session) : SessionMoves s (sessionStep s) (stepActs s) :=
  (feedKey_moves s).trans (sessionCpu_moves (feedKey s) (cpuStep_console (feedKey s).cpu))

/-! ## Sessions -/

def stepsActs (s : Session) : ℕ → List SessionAct
  | 0 => []
  | ips + 1 => if s.cpu.ctl.halted then [] else stepActs s ++ stepsActs (sessionStep s) ips

theorem sessionSteps_moves (s : Session) (ips : ℕ) :
    SessionMoves s (sessionSteps s ips) (stepsActs s ips) := by
  induction ips generalizing s with
  | zero => exact .refl s
  | succ ips ih =>
    unfold sessionSteps stepsActs
    split
    · exact .refl s
    · exact (sessionStep_moves s).trans (ih _)

def eventsActs (s : Session) : List SdlEvent → List SessionAct
  | [] => []
  | e :: evs => eventActs s e ++ eventsActs (sessionEvent s e) evs

theorem sessionEvents_moves (s : Session) (evs : List SdlEvent) :
    SessionMoves s (evs.foldl sessionEvent s) (eventsActs s evs) := by
  induction evs generalizing s with
  | nil => exact .refl s
  | cons e evs ih => exact (sessionEvent_moves s e).trans (ih _)

/-- What passes in the frames of a session, in order. -/
def runActs (ips : ℕ) (s : Session) : List (List SdlEvent) → List SessionAct
  | [] => []
  | evs :: frames =>
    if s.running then
      eventsActs s evs ++ stepsActs (evs.foldl sessionEvent s) ips ++
        runActs ips (sessionFrame ips s evs) frames
    else []

theorem sessionRun_moves (ips : ℕ) (s : Session) (frames : List (List SdlEvent)) :
    SessionMoves s (sessionRun ips s frames) (runActs ips s frames) := by
  induction frames generalizing s with
  | nil => exact .refl s
  | cons evs frames ih =>
    unfold sessionRun runActs
    split
    · have hframe := (sessionEvents_moves s evs).trans
        (sessionSteps_moves (evs.foldl sessionEvent s) ips)
      exact hframe.trans (ih _)
    · exact .refl s

/-- Type-ahead: the keyboard is a queue of 255 bytes. In any session each typed byte is queued
unless it finds the queue full, and the receiver is handed the queued bytes in order, each once; it
holds the last of them. -/
theorem type_ahead_delivered (ips : ℕ) (s : Session) (frames : List (List SdlEvent)) :
    let t := sessionRun ips s frames
    let acts := runActs ips s frames
    (acts.filterMap queueAct).foldlM (QueueAct.use 255) s.kbd.contents = some t.kbd.contents ∧
      (∃ kept, kept.Sublist (acts.filterMap typed?) ∧
        s.kbd.contents ++ kept = acts.filterMap handed? ++ t.kbd.contents) ∧
      t.cpu.dev.ttiBuf =
        ((acts.filterMap handed?).getLast?.map fun b => b.setWidth 16).getD s.cpu.dev.ttiBuf := by
  intro t acts
  have h := sessionRun_moves ips s frames
  refine ⟨h.queue, ?_, h.held⟩
  obtain ⟨kept, hsub, heq⟩ := QueueAct.replay_sublist 255 _ h.queue
  rw [List.filterMap_filterMap, show (fun act => (queueAct act).bind QueueAct.offered?) = typed? by
    funext act
    cases act <;> rfl] at hsub
  rw [List.filterMap_filterMap, show (fun act => (queueAct act).bind QueueAct.taken?) = handed? by
    funext act
    cases act <;> rfl] at heq
  exact ⟨kept, hsub, heq⟩

/-- From a clear screen on, any session shows the last 25 rows of the endless sheet that prints what
the console sends, with a rub-out armed as each erase character is handed to the receiver. -/
theorem session_screen (ips : ℕ) {s : Session} (frames : List (List SdlEvent)) (screen : VtTerm)
    (hout : s.cpu.dev.consoleOut = some []) (hterm : s.term = vtInit screen) :
    let t := sessionRun ips s frames
    let acts := runActs ips s frames
    let p := (acts.filterMap terminalEvent).foldl Paper.event Paper.blank
    t.cpu.dev.consoleOut = some (acts.filterMap sent?) ∧
      t.term.cx = p.col ∧ t.term.cy = min p.sheet.line (trows - 1) ∧
        ∀ r < trows, ∀ c < tcols, t.term.cell r c =
          p.sheet.row (p.sheet.line - min p.sheet.line (trows - 1) + r) c := by
  intro t acts p
  obtain ⟨hsent, hshown⟩ := (sessionRun_moves ips s frames).shown [] hout
  have h := (displays_blank screen).events (acts.filterMap terminalEvent)
  rw [← hterm, ← hshown] at h
  refine ⟨hsent, h.col, h.rows.line, ?_⟩
  intro r hr c hc
  have hrow := congrFun (h.rows.row r hr) c
  rw [h.rows.line] at hrow
  have hcell : vtRows t.term r c = t.term.cell r c := if_pos hc
  rw [← hcell]
  exact hrow

/-- The window of the frontend as it opens, without a disk. -/
def opened : Session :=
  { cpu := demoCpu demoMsg
    term := vtInit ⟨fun _ _ => 0, 0, 0, 0⟩
    panel := ⟨0, 0, 0⟩
    kbd := ⟨fun _ => 0, ⟨0, by decide⟩, ⟨0, by decide⟩⟩
    running := true }

/-- The first letter of the banner, with an erase character typed before. -/
theorem opened_screen :
    let t := sessionRun 6 opened [[.keyDown false sdlkBackspace]]
    runActs 6 opened [[.keyDown false sdlkBackspace]] =
        [.typed chErase, .handed chErase, .sent 80] ∧
      t.cpu.dev.consoleOut = some [80] ∧ t.term.cx = 1 ∧ t.term.cy = 0 ∧ t.term.cell 0 0 = 80 := by
  intro t
  have hacts : runActs 6 opened [[.keyDown false sdlkBackspace]] =
      [.typed chErase, .handed chErase, .sent 80] := by decide +kernel
  have h := session_screen 6 [[.keyDown false sdlkBackspace]] ⟨fun _ _ => 0, 0, 0, 0⟩
    (s := opened) rfl rfl
  rw [hacts] at h
  obtain ⟨hout, hcol, hline, hrows⟩ := h
  exact ⟨hacts, hout, hcol, hline, hrows 0 (by decide) 0 (by decide)⟩

end Pdp11
