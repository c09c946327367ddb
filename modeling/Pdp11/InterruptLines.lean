import Pdp11.UnitEffects
import Pdp11.BusOps
import Pdp11.DiskLines
import Pdp11.FloppyLines
import Pdp11.Lib.Arbiter

namespace Pdp11

open FaultState InterruptLine Function

/-! The interrupt lines over whole runs. -/

/-- The changes of each device's line: the console transmitter and the tape and disk controllers
but the RL11 set done by completing commands only. -/
def Moves : IntId → InterruptLine → InterruptLine → Prop
  | .tto | .rk | .rp | .tm => Steps
  | .clk | .tti | .rl => Changes
  | .rx => fun _ _ => True

/-- Every line moves as its device moves it. -/
def LinesMove (s t : Cpu) : Prop := ∀ d, Moves d (lines s d) (lines t d)

theorem Moves.refl (d : IntId) (l : InterruptLine) : Moves d l l := by
  cases d <;> first | exact Relation.ReflTransGen.refl | trivial

theorem Moves.trans {d : IntId} {l l' l'' : InterruptLine} (h : Moves d l l')
    (h' : Moves d l' l'') : Moves d l l'' := by
  cases d <;> first | exact Relation.ReflTransGen.trans h h' | trivial

theorem Moves.of_steps {d : IntId} {l l' : InterruptLine} (h : Steps l l') : Moves d l l' := by
  cases d <;> first | exact h | exact h.changes | trivial

namespace LinesMove

variable {s t u : Cpu}

theorem of_eq (h : lines t = lines s) : LinesMove s t := by
  intro d
  rw [h]
  exact Moves.refl d _

theorem of_quiet (h : Quiet s t) : LinesMove s t := of_eq h.moves

theorem refl (s : Cpu) : LinesMove s s := of_quiet (.refl s)

theorem trans (h : LinesMove s t) (h' : LinesMove t u) : LinesMove s u :=
  fun d => (h d).trans (h' d)

theorem of_follows {e : IntId} {R : InterruptLine → InterruptLine → Prop}
    (h : Follows R e s t (lines s e)) (hR : ∀ l l', R l l' → Moves e l l') : LinesMove s t := by
  obtain ⟨l, hl, ht⟩ := h
  intro d
  by_cases hd : d = e
  · subst hd
    rw [ht.own]
    exact hR _ _ hl
  · rw [ht.others hd]
    exact Moves.refl d _

theorem of_steps {e : IntId} (h : Follows Steps e s t (lines s e)) : LinesMove s t :=
  of_follows h fun _ _ => Moves.of_steps

theorem of_served {e : IntId} (h : Follows Served e s t (lines s e)) : LinesMove s t :=
  of_follows h fun _ _ h => Moves.of_steps h.steps

theorem ite {c : Prop} [Decidable c] (ht : LinesMove s t) (hu : LinesMove s u) :
    LinesMove s (if c then t else u) := by
  split
  · exact ht
  · exact hu

end LinesMove

/-- A change outside the devices. -/
theorem quiet_of_dev {s t : Cpu} (h : t.dev = s.dev) : Quiet s t := by
  refine ⟨?_, by rw [h]⟩
  unfold lines
  rw [h]

theorem serviceDueEvents_moves (s : Cpu) : LinesMove s (serviceDueEvents s) := by
  have hpoll {t : Cpu} (busy : Bool) {poll : Cpu → Cpu} (hp : ∀ t, LinesMove t (poll t)) :
      LinesMove t (if busy then poll t else t) := .ite (hp t) (.refl t)
  have hclk : LinesMove s (serviceClock s) := .of_served (serviceClock_follows s)
  exact hclk.trans <|
    (hpoll _ fun t => .of_served (consoleTxPoll_follows t)).trans <|
    (hpoll _ fun t => .of_served (rkPoll_follows t)).trans <|
    (hpoll _ fun t => .of_served (rpPoll_follows t)).trans <|
    (hpoll _ fun t => .of_served (tmPoll_follows t)).trans <|
    hpoll _ fun t => .of_served (rlPoll_follows t)

/-- The services after an instruction or over an idle skip. -/
theorem linesMove_service (s : Cpu) (acct : Accounting) :
    LinesMove s (serviceDueEvents { s with acct := acct }) := by
  have h := serviceDueEvents_moves { s with acct := acct }
  exact h

theorem rxWrite_moves (s : Cpu) (addr value : Word) : LinesMove s (rxWrite s addr value) := by
  by_cases h : rxLaunches s addr value
  · rw [rxWrite_launch h]
    exact .of_follows (R := fun _ _ => True) ⟨_, trivial, rxGo_moved s value⟩ fun _ _ h => h
  · exact .of_steps (rxWrite_follows h)

theorem regWrite_moves {s t : Cpu} {a value : Word} (h : RegWrite s a value t) : LinesMove s t := by
  cases h with
  | processor t hdev _ =>
    refine .of_eq ?_
    unfold lines
    rw [hdev]
    rfl
  | clk => exact .of_follows (clkWrite_follows s value) fun _ _ h => h
  | console =>
    rcases consoleWrite_follows s a value with h | h
    · exact .of_steps h
    · exact .of_steps h
  | rk => exact .of_steps (rkWrite_follows s a value)
  | tm => exact .of_steps (tmWrite_follows s a value)
  | rl => exact .of_follows (rlWrite_follows s a value) fun _ _ h => h
  | rx => exact rxWrite_moves s a value
  | rp => exact .of_steps (rpWrite_follows s a value)

theorem regRead_moves {s t : Cpu} {a : Word} (h : RegRead s a t) : LinesMove s t := by
  cases h with
  | none => exact .refl s
  | console => exact .of_follows (consoleRead_follows s a) fun _ _ h => h
  | tm => exact .of_quiet (tmRead_quiet s a)
  | rl => exact .of_quiet (rlRead_quiet s a)
  | rx => exact .of_served (rxRead_follows s a)

/-- The lines before and after some part of a call of the step. -/
theorem linesMove_relation : DeviceRelation fun m m' => LinesMove m.cpu m'.cpu where
  trans _ _ _ h h' := h.trans h'
  same _ _ h _ := .of_quiet (quiet_of_dev h)
  read _ _ _ h := regRead_moves (ioReadReg_regRead h)
  write _ _ _ _ h := regWrite_moves (ioWriteReg_regWrite h)

/-! ## Reset, RESET and the acknowledge -/

/-- The line a reset of the processor leaves. -/
def resetLine : IntId → InterruptLine
  | .tti => ⟨false, false, false, false⟩
  | _ => ⟨true, false, false, false⟩

/-- The line RESET leaves: the RL11 and the RX11 keep all but their requests. -/
def initLine (d : IntId) (l : InterruptLine) : InterruptLine :=
  match d with
  | .rl | .rx => l.acknowledge
  | d => resetLine d

theorem cpuReset_lines (s : Cpu) (d : IntId) : lines (cpuReset s) d = resetLine d := by
  have hrx : lines (cpuReset s) .rx = resetLine .rx := by
    cases h : s.dev.rx.disk.isSome <;> simp [lineOf, cpuReset, requests, resetLine, h]
  cases d with
  | rx => exact hrx
  | _ => simp [lineOf, cpuReset, statusLine, requests, resetLine]

theorem busInit_lines (s : Cpu) (d : IntId) :
    lines (busInit s) d = initLine d (lines s d) := by
  cases d <;> simp [lineOf, busInit, statusLine, requests, initLine, resetLine,
    InterruptLine.acknowledge]

theorem acknowledge_lines (p : Pending) (s : Cpu) (d : IntId) :
    lines (acknowledge p s) d =
      if p = .device d then (lines s d).acknowledge else lines s d := by
  cases p with
  | device e =>
    show lineOf { s.dev with
        intReq := s.dev.intReq &&& (~~~(1#16 <<< e.bit)).setWidth 32 } d = _
    by_cases h : d = e
    · subst h
      rw [if_pos rfl]
      cases d <;> simp [lineOf, statusLine, requests, InterruptLine.acknowledge, IntId.bit]
    · have hne : Pending.device e ≠ Pending.device d := fun he => h (Pending.device.inj he).symm
      have hreq : (s.dev.intReq &&& (~~~(1#16 <<< e.bit)).setWidth 32).getLsbD d.bit =
          requests s.dev d := by
        cases d <;> cases e <;> simp_all [requests, IntId.bit]
      have hkept := lines_intReq s (s.dev.intReq &&& (~~~(1#16 <<< e.bit)).setWidth 32) d
      rw [hreq] at hkept
      rw [if_neg hne]
      refine hkept.trans ?_
      cases d <;> rfl
  | _ => rfl

/-- An operation moves the lines as the devices do, but for a call of the step, a reset, RESET and
an acknowledge. -/
theorem BusOp.apply_cases {Q : Cpu → Prop} (op : BusOp) (s : Cpu)
    (hmoves : ∀ t, LinesMove s t → Q t) (hstep : Q (cpuStep s).cpu) (hreset : Q (cpuReset s))
    (hinit : Q (busInit s)) (hack : ∀ e, Q (Pdp11.acknowledge (.device e) s)) :
    Q (op.apply s) := by
  cases op with
  | step => exact hstep
  | reset => exact hreset
  | init => exact hinit
  | acknowledge d => exact hack d
  | read a =>
    refine hmoves _ ?_
    show LinesMove s (((ioReadReg s a).map Prod.snd).getD s)
    cases h : ioReadReg s a with
    | none => exact .refl s
    | some p => exact regRead_moves (ioReadReg_regRead h)
  | write a value =>
    refine hmoves _ ?_
    show LinesMove s ((ioWriteReg s a value).getD s)
    cases h : ioWriteReg s a value with
    | none => exact .refl s
    | some t => exact regWrite_moves (ioWriteReg_regWrite h)
  | tick => exact hmoves _ (.of_steps ⟨_, (Step.arrive _).steps, clkTick_moved s⟩)
  | input ch => exact hmoves _ (.of_steps ⟨_, (Step.arrive _).steps, consoleInput_moved s ch⟩)
  | txPoll => exact hmoves _ (.of_served (consoleTxPoll_follows s))
  | rkPoll => exact hmoves _ (.of_served (rkPoll_follows s))
  | rpPoll => exact hmoves _ (.of_served (rpPoll_follows s))
  | tmPoll => exact hmoves _ (.of_served (tmPoll_follows s))
  | rlPoll => exact hmoves _ (.of_served (rlPoll_follows s))
  | load r mem => exact hmoves _ (.of_eq rfl)
  | setHalted halted => exact hmoves _ (.of_eq rfl)
  | rkAttach disk words => exact hmoves _ (.of_quiet ((Quiet.refl s).rk rfl rfl))
  | rpAttach disk words => exact hmoves _ (.of_quiet ((Quiet.refl s).rp rfl rfl))
  | tmAttach tape len wrp => exact hmoves _ (.of_quiet ((Quiet.refl s).tm rfl rfl))
  | rlAttach disk words => exact hmoves _ (.of_quiet ((Quiet.refl s).rl rfl rfl))
  | rxAttach disk bytes => exact hmoves _ (.of_eq ((RxQuiet.refl s).rx rfl .rfl))

/-! ## Runs -/

section

variable {I : IntId → InterruptLine → Prop}

/-- What the moves of the lines, an acknowledge, RESET and a reset keep is kept by a call of the
step. -/
theorem cpuStep_lines (hmoves : ∀ d l l', Moves d l l' → I d l → I d l')
    (hack : ∀ d l, I d l → I d l.acknowledge) (hinit : ∀ d l, I d l → I d (initLine d l))
    {s : Cpu} (h : ∀ d, I d (lines s d)) (d : IntId) : I d (lines (cpuStep s).cpu d) := by
  have hR : DeviceRelation fun m m' : Machine =>
      (∀ d, I d (lines m.cpu d)) → ∀ d, I d (lines m'.cpu d) := by
    have hmove {s t : Cpu} (hst : LinesMove s t) (hs : ∀ d, I d (lines s d)) (d : IntId) :
        I d (lines t d) := hmoves d _ _ (hst d) (hs d)
    exact
      { trans := fun _ _ _ h h' hm => h' (h hm)
        same := fun _ _ hd hes => hmove (linesMove_relation.same _ _ hd hes)
        read := fun m a p hp => hmove (linesMove_relation.read m a p hp)
        write := fun m a value s' hs => hmove (linesMove_relation.write m a value s' hs) }
  refine hR.programs.cpuStep (fun m hm d => ?_) (fun p m hm d => ?_) (fun m acct hm d => ?_) s h d
  · show I d (lines (busInit m.cpu) d)
    rw [busInit_lines]
    exact hinit d _ (hm d)
  · show I d (lines (acknowledge p m.cpu) d)
    rw [acknowledge_lines]
    split
    · exact hack d _ (hm d)
    · exact hm d
  · exact hmoves d _ _ (serviceDueEvents_moves { m.cpu with acct := acct } d) (hm d)

theorem BusOp.lines (hmoves : ∀ d l l', Moves d l l' → I d l → I d l')
    (hack : ∀ d l, I d l → I d l.acknowledge) (hinit : ∀ d l, I d l → I d (initLine d l))
    (hreset : ∀ d, I d (resetLine d)) (op : BusOp) {s : Cpu} (h : ∀ d, I d (Pdp11.lines s d))
    (d : IntId) : I d (Pdp11.lines (op.apply s) d) := by
  refine op.apply_cases (Q := fun t => I d (Pdp11.lines t d)) s ?_ ?_ ?_ ?_ ?_
  · exact fun t ht => hmoves d _ _ (ht d) (h d)
  · exact cpuStep_lines hmoves hack hinit h d
  · rw [cpuReset_lines]
    exact hreset d
  · rw [busInit_lines]
    exact hinit d _ (h d)
  · intro e
    rw [acknowledge_lines]
    split
    · exact hack d _ (h d)
    · exact h d

/-- What the moves of the lines, an acknowledge, RESET and a reset keep holds of every state
reached. -/
theorem Reached.lines (hmoves : ∀ d l l', Moves d l l' → I d l → I d l')
    (hack : ∀ d l, I d l → I d l.acknowledge) (hinit : ∀ d l, I d l → I d (initLine d l))
    (hreset : ∀ d, I d (resetLine d)) {model : Model} {s : Cpu} (h : Reached model s) (d : IntId) :
    I d (Pdp11.lines s d) := by
  refine h.invariant (I := fun s => ∀ d, I d (Pdp11.lines s d)) (fun d => ?_) ?_ d
  · show I d (Pdp11.lines (cpuReset (cpuAlloc model)) d)
    rw [cpuReset_lines]
    exact hreset d
  · exact fun op s hs => BusOp.lines hmoves hack hinit hreset op hs

end

theorem Moves.sound {d : IntId} (hd : d ≠ .rx) {l l' : InterruptLine} (h : Moves d l l')
    (hl : l.Sound) : l'.Sound := by
  cases d <;> first | exact (Steps.changes h).sound hl | exact Changes.sound h hl | exact absurd rfl hd

theorem Moves.prompt {d : IntId} (hd : d ≠ .rx) {l l' : InterruptLine} (h : Moves d l l')
    (hl : l.Prompt) : l'.Prompt := by
  cases d <;> first | exact (Steps.changes h).prompt hl | exact Changes.prompt h hl | exact absurd rfl hd

theorem resetLine_idle (d : IntId) : (resetLine d).ie = false ∧ (resetLine d).requested = false := by
  cases d <;> exact ⟨rfl, rfl⟩

theorem initLine_requested (d : IntId) (l : InterruptLine) :
    (initLine d l).requested = false := by
  cases d <;> rfl

/-- In every state reached, a device but the RX11 requests an interrupt only while it is done and
enabled. -/
theorem reached_sound {model : Model} {s : Cpu} (h : Reached model s) {d : IntId} (hd : d ≠ .rx) :
    (lines s d).Sound := by
  refine h.lines (I := fun d l => d ≠ .rx → l.Sound) ?_ ?_ ?_ ?_ d hd
  · exact fun d l l' hm hl hd => hm.sound hd (hl hd)
  · exact fun d l _ _ => acknowledge_sound l
  · intro d l _ _ hr
    rw [initLine_requested] at hr
    cases hr
  · intro d _ hr
    rw [(resetLine_idle d).2] at hr
    cases hr

/-- A fetch leaves the line of the RL11 as it is. -/
theorem beginFetch_rl {s : Cpu} {m : Machine} {word : Word}
    (h : beginFetch (instrStart s) = .ok word m) : lines m.cpu .rl = lines s .rl := by
  have hread {s t : Cpu} {a : Word} (h : RegRead s a t) : lines t .rl = lines s .rl := by
    cases h with
    | none => rfl
    | console =>
      obtain ⟨l, -, hl⟩ := consoleRead_follows s a
      exact hl.others (by decide)
    | tm => exact congrFun (tmRead_quiet s a).moves .rl
    | rl => exact congrFun (rlRead_quiet s a).moves .rl
    | rx =>
      obtain ⟨l, -, hl⟩ := rxRead_follows s a
      exact hl.others (by decide)
  have hR : ReadRelation fun m m' : Machine => lines m'.cpu .rl = lines m.cpu .rl :=
    { trans := fun _ _ _ h h' => h'.trans h
      same := fun _ _ hd _ => congrFun (quiet_of_dev hd).moves .rl
      read := fun _ _ _ hp => hread (ioReadReg_regRead hp) }
  have hfetch := hR.fetches.beginFetch (instrStart s)
  rw [h] at hfetch
  exact hfetch.trans (hR.fetches.start s)

/-- A line that is not done and enabled stands for itself after any operation: if it is done and
enabled then, it requests its interrupt. -/
theorem BusOp.prompt (op : BusOp) {s : Cpu} {d : IntId} (hd : d ≠ .rx)
    (h : ¬(Pdp11.lines s d).Ready) : (Pdp11.lines (op.apply s) d).Prompt := by
  have hp : (Pdp11.lines s d).Prompt := prompt_of_not_ready h
  have hreset : (resetLine d).Prompt := by
    refine prompt_of_not_ready fun hr => ?_
    rw [InterruptLine.Ready, (resetLine_idle d).1] at hr
    cases hr.2
  have hack {l : InterruptLine} (hl : ¬l.Ready) : l.acknowledge.Prompt :=
    prompt_of_not_ready fun hr => hl hr
  have hinit {l : InterruptLine} (hl : d = .rl → ¬l.Ready) : (initLine d l).Prompt := by
    cases d with
    | rl => exact hack (hl rfl)
    | rx => exact absurd rfl hd
    | _ => exact hreset
  have hacked (p : Pending) : (Pdp11.lines (Pdp11.acknowledge p s) d).Prompt := by
    rw [acknowledge_lines]
    split
    · exact hack h
    · exact hp
  refine op.apply_cases (Q := fun t => (Pdp11.lines t d).Prompt) s ?_ ?_ ?_ ?_ ?_
  · exact fun t ht => (ht d).prompt hd hp
  · obtain hm | ⟨p, -, hm⟩ | ⟨m, hf, hm⟩ :=
      linesMove_relation.programs.cpuStep_or (fun m acct => linesMove_service m.cpu acct) s
    · exact (hm d).prompt hd hp
    · exact (hm d).prompt hd (hacked p)
    · refine (hm d).prompt hd ?_
      show (Pdp11.lines (busInit m.cpu) d).Prompt
      rw [busInit_lines]
      refine hinit fun hrl => ?_
      subst hrl
      rw [beginFetch_rl hf]
      exact h
  · rw [cpuReset_lines]
    exact hreset
  · rw [busInit_lines]
    exact hinit fun _ => h
  · exact fun e => hacked (.device e)

/-- An interrupt is delivered only for a device that requests it. -/
theorem requests_of_pending {s : Cpu} {d : IntId} (h : pendingDispatch s = some (.device d)) :
    requests s.dev d = true := by
  have hpirq : pendingPirq s ≠ some (.device d) := by
    unfold pendingPirq
    split <;> nofun
  have hhigh : (highestInt s.dev.intReq).1 = some d := by
    unfold pendingDispatch at h
    split at h
    · cases h
    split at h
    · cases h
    split at h
    · rename_i e level he
      split at h
      · obtain rfl := Pending.device.inj (Option.some.inj h)
        rw [he]
      · exact absurd h hpirq
    · exact absurd h hpirq
  have hscan : (Arbiter.scan IntId.ipl (requests s.dev) IntId.all).1 = some d := hhigh
  exact (Arbiter.scan_selected IntId.bit (by decide) hscan).requests

/-- For every device but the RX11: in every state reached, its request stands only while it is
done and enabled, so no interrupt is delivered that it did not earn; and an operation that makes
it done and enabled leaves the request standing. -/
theorem interrupt_lines_agree {model : Model} {s : Cpu} (h : Reached model s) {d : IntId}
    (hd : d ≠ .rx) :
    (requests s.dev d = true → (lineOf s.dev d).done = true ∧ (lineOf s.dev d).ie = true) ∧
      (pendingDispatch s = some (.device d) →
        (lineOf s.dev d).done = true ∧ (lineOf s.dev d).ie = true) ∧
      ∀ op : BusOp, ¬((lineOf s.dev d).done = true ∧ (lineOf s.dev d).ie = true) →
        (lineOf (op.apply s).dev d).done = true ∧ (lineOf (op.apply s).dev d).ie = true →
        requests (op.apply s).dev d = true := by
  have hrequested (t : Cpu) : (lines t d).requested = requests t.dev d := by
    cases d <;> rfl
  have hsound := reached_sound h hd
  rw [Sound, hrequested] at hsound
  refine ⟨hsound, fun hp => hsound (requests_of_pending hp), fun op hb ha => ?_⟩
  rw [← hrequested]
  exact op.prompt hd hb ha

/-- The transmitter of a new machine, enabled while it is ready. -/
def enabledTransmitter : Cpu := (BusOp.write dl11Xcsr 0o100).apply cpuCreate

theorem enabledTransmitter_reached : Reached .m1170 enabledTransmitter :=
  (Reached.create .m1170).next (.write dl11Xcsr 0o100)

theorem enabledTransmitter_agrees :
    requests enabledTransmitter.dev .tto = true ∧
      (lineOf enabledTransmitter.dev .tto).done = true ∧
      (lineOf enabledTransmitter.dev .tto).ie = true := by
  have hrequested : requests enabledTransmitter.dev .tto = true := by decide +kernel
  exact ⟨hrequested,
    (interrupt_lines_agree enabledTransmitter_reached (d := .tto) (by decide)).1 hrequested⟩

/-! ## Readiness -/

/-- The poll of a device that works on one command at a time. -/
def pollOf : IntId → Cpu → Cpu
  | .tto => consoleTxPoll
  | .rk => rkPoll
  | .rp => rpPoll
  | .tm => tmPoll
  | _ => id

/-- The time the outstanding completion of such a device is due. -/
def dueNs (dev : Devices) : IntId → Time
  | .tto => dev.ttoDoneNs
  | .rk => dev.rk.doneNs
  | .rp => dev.rp.doneNs
  | .tm => dev.tm.doneNs
  | _ => noEventNs

/-- The devices whose done bit is set by a completion alone. -/
def Completes (d : IntId) : Prop := d ∈ [IntId.tto, .rk, .rp, .tm]

instance (d : IntId) : Decidable (Completes d) :=
  inferInstanceAs (Decidable (d ∈ [IntId.tto, .rk, .rp, .tm]))

theorem Moves.regular {d : IntId} (hd : Completes d) {l l' : InterruptLine} (h : Moves d l l')
    (hl : l.Regular) : l'.Regular := by
  cases d <;> first | exact Steps.regular h hl | exact absurd hd (by decide)

theorem resetLine_regular {d : IntId} (hd : Completes d) : (resetLine d).Regular := by
  have hline : resetLine d = ⟨true, false, false, false⟩ := by
    cases d <;> first | rfl | exact absurd hd (by decide)
  rw [hline]
  exact ⟨fun h => (nomatch h), fun h => (nomatch h)⟩

/-- A poll before the completion is due does nothing. -/
theorem pollOf_early {s : Cpu} {d : IntId} (h : s.acct.timeNs < dueNs s.dev d) :
    pollOf d s = s := by
  have hlate : ¬dueNs s.dev d ≤ s.acct.timeNs := BitVec.not_le.2 h
  cases d with
  | tto => exact if_neg fun hb => hlate hb.2
  | rk => exact if_neg fun hb => hlate hb.2
  | rp => exact if_neg fun hb => hlate hb.2
  | tm => exact if_pos (.inr h)
  | _ => rfl

/-- A poll from then on sets done. -/
theorem pollOf_due {s : Cpu} {d : IntId} (hd : Completes d) (hb : (lines s d).busy = true)
    (h : dueNs s.dev d ≤ s.acct.timeNs) : (lines (pollOf d s) d).done = true := by
  cases d with
  | tto =>
    have hm : Moved .tto s (pollOf .tto s) (lines s .tto).arrive := consoleTxPoll_due ⟨hb, h⟩
    rw [hm.own]
    rfl
  | rk =>
    have hpoll : pollOf .rk s = rkFinish s := if_pos ⟨hb, h⟩
    rw [hpoll, (rkFinish_moved (.refl .rk s)).own]
    rfl
  | rp =>
    have hpoll : pollOf .rp s = rpFinish s := if_pos ⟨hb, h⟩
    rw [hpoll, (rpFinish_moved (.refl .rp s)).own]
    rfl
  | tm =>
    have hdue : ¬(!s.dev.tm.busy ∨ s.acct.timeNs < s.dev.tm.doneNs) := by
      rintro (hidle | hlate)
      · have hb : s.dev.tm.busy = true := hb
        rw [hb] at hidle
        cases hidle
      · exact BitVec.not_lt.2 h hlate
    have hm : Moved .tm s (pollOf .tm s) (lines s .tm).complete := tmPoll_due hdue
    rw [hm.own]
    rfl
  | _ => exact absurd hd (by decide)

/-- In every state reached, the transmitter and the tape and disk controllers but the RL11 are
ready exactly when no completion is outstanding, and an outstanding one sets done when it is due
and not before. -/
theorem ready_iff_idle {model : Model} {s : Cpu} (h : Reached model s) {d : IntId}
    (hd : Completes d) :
    ((lineOf s.dev d).done = false ↔ (lineOf s.dev d).busy = true) ∧
      (s.acct.timeNs < dueNs s.dev d → pollOf d s = s) ∧
      ((lineOf s.dev d).busy = true → dueNs s.dev d ≤ s.acct.timeNs →
        (lineOf (pollOf d s).dev d).done = true) := by
  refine ⟨?_, pollOf_early, pollOf_due hd⟩
  refine h.lines (I := fun d l => Completes d → l.Regular) ?_ ?_ ?_ ?_ d hd
  · exact fun d l l' hm hl hd => hm.regular hd (hl hd)
  · exact fun d l hl hd => hl hd
  · intro d l hl hd
    have hline : initLine d l = resetLine d := by
      cases d <;> first | rfl | exact absurd hd (by decide)
    rw [hline]
    exact resetLine_regular hd
  · exact fun d hd => resetLine_regular hd

/-- The transmitter of a new machine, sending. -/
def sendingTransmitter : Cpu := (BusOp.write dl11Xbuf 0o101).apply cpuCreate

theorem sendingTransmitter_reached : Reached .m1170 sendingTransmitter :=
  (Reached.create .m1170).next (.write dl11Xbuf 0o101)

theorem sendingTransmitter_not_ready :
    (lineOf sendingTransmitter.dev .tto).busy = true ∧
      (lineOf sendingTransmitter.dev .tto).done = false := by
  have hbusy : (lineOf sendingTransmitter.dev .tto).busy = true := by decide +kernel
  exact ⟨hbusy, (ready_iff_idle sendingTransmitter_reached (d := .tto) (by decide)).1.2 hbusy⟩

end Pdp11
