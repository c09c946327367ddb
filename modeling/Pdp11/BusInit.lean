import Pdp11.FloppyRequests

namespace Pdp11

open FaultState GuardedRun InterruptLine

/-! What RESET leaves outstanding on the bus. -/

/-- A register write that gives a device a new command or enables its interrupt. -/
def Asks (d : IntId) (a value : Word) : Prop :=
  match d with
  | .clk => a = kw11lLks ∧ value &&& 0o100 ≠ 0
  | .tti => a = dl11Rcsr ∧ value &&& 0o100 ≠ 0
  | .tto => a = dl11Xbuf ∨ (a = dl11Xcsr ∧ value &&& 0o100 ≠ 0)
  | .rk => a = 0o177404 ∧ (value &&& 0o001 ≠ 0 ∨ value &&& 0o100 ≠ 0)
  | .rp => a &&& ~~~1 = rpCsr ∧ (value &&& 0o001 ≠ 0 ∨ value &&& 0o100 ≠ 0)
  | .tm => a = 0o172522 ∧ (value &&& 0o001 ≠ 0 ∨ value &&& 0o100 ≠ 0)
  | .rl => a = 0o174400 ∧ (value &&& 0o200 = 0 ∨ value &&& 0o100 ≠ 0)
  | .rx => a = 0o177170 ∧ (value &&& 0o001 ≠ 0 ∨ value &&& 0o100 ≠ 0)

/-- An operation that gives a device no new command, no new enable and no new input. -/
def Unasked (d : IntId) (op : BusOp) (s : Cpu) : Prop :=
  match op with
  | .step => ∀ a value, Event.ioWrite a value ∈ (cpuStep s).events → ¬Asks d a value
  | .write a value => ¬Asks d a value
  | .input _ => d ≠ .tti
  | _ => True

/-- The RX11 has no command that would end in an interrupt. -/
def RxCalm (rx : Rx11) : Prop :=
  rx.state = .idle ∨ rx.rxcs &&& rxcsIe = 0 ∨ rx.rxcs &&& rxcsTr = 0

/-- A device that requests no interrupt and will not by itself. All but the RL11 and the RX11 are
disabled too. -/
structure Calm (d : IntId) (s : Cpu) : Prop where
  unrequested : (lines s d).requested = false
  disabled : d ≠ .rl → d ≠ .rx → (lines s d).ie = false
  idle : d = .rl → s.dev.rl.busy = false
  floppy : d = .rx → RxCalm s.dev.rx

namespace Calm

variable {d e : IntId} {s t : Cpu} {l : InterruptLine} {a value : Word}

theorem of_moves (h : Calm d s) (hl : lines t d = lines s d) (hrx : d = .rx → t.dev.rx = s.dev.rx) :
    Calm d t where
  unrequested := hl ▸ h.unrequested
  disabled := hl ▸ h.disabled
  idle := by
    rintro rfl
    exact (congrArg InterruptLine.busy hl).trans (h.idle rfl)
  floppy hd := hrx hd ▸ h.floppy hd

theorem quiet (h : Calm d s) (hq : Quiet s t) : Calm d t :=
  h.of_moves (congrFun hq.moves d) fun _ => hq.floppy

theorem other (h : Calm d s) (hm : Moved e s t l) (hne : d ≠ e) : Calm d t :=
  h.of_moves (hm.others hne) fun hd => hm.floppy (hd ▸ hne.symm)

/-- The line of some device but the RL11 and the RX11 moves. -/
theorem moved (h : Calm d s) (hm : Moved e s t l) (hrl : e ≠ .rl) (hrx : e ≠ .rx)
    (hl : d = e → l.requested = false ∧ l.ie = false) : Calm d t := by
  by_cases hd : d = e
  · subst hd
    have hown := hm.own
    exact
      { unrequested := hown ▸ (hl rfl).1
        disabled := fun _ _ => hown ▸ (hl rfl).2
        idle := fun he => absurd he hrl
        floppy := fun he => absurd he hrx }
  · exact h.other hm hd

theorem served (h : Calm d s) (hf : Follows InterruptLine.Served e s t (lines s e)) (hrl : e ≠ .rl)
    (hrx : e ≠ .rx) : Calm d t := by
  obtain ⟨l, hl, hm⟩ := hf
  refine h.moved hm hrl hrx fun hd => ?_
  subst hd
  exact (hl.disabled (h.disabled hrl hrx) h.unrequested).symm

theorem rlMoved (h : Calm d s) (hm : Moved .rl s t l)
    (hl : d = .rl → l.requested = false ∧ l.busy = false) : Calm d t := by
  by_cases hd : d = .rl
  · subst hd
    have hown := hm.own
    exact
      { unrequested := hown ▸ (hl rfl).1
        disabled := fun he _ => absurd rfl he
        idle := fun _ => (congrArg InterruptLine.busy hown).trans (hl rfl).2
        floppy := nofun }
  · exact h.other hm hd

theorem rxMoved (h : Calm d s) (hm : Moved .rx s t l)
    (hl : d = .rx → l.requested = false ∧ RxCalm t.dev.rx) : Calm d t := by
  by_cases hd : d = .rx
  · subst hd
    have hown := hm.own
    exact
      { unrequested := hown ▸ (hl rfl).1
        disabled := fun _ he => absurd rfl he
        idle := nofun
        floppy := fun _ => (hl rfl).2 }
  · exact h.other hm hd

/-! ## What the devices do by themselves -/

theorem rlPoll (h : Calm d s) : Calm d (rlPoll s) := by
  by_cases hd : d = .rl
  · have hpoll : Pdp11.rlPoll s = s := if_neg fun hb => by simp [h.idle hd] at hb
    rw [hpoll]
    exact h
  · obtain ⟨l, -, hm⟩ := rlPoll_follows s
    exact h.other hm hd

theorem serviceDueEvents (h : Calm d s) : Calm d (serviceDueEvents s) := by
  have hpoll (busy : Cpu → Bool) {poll : Cpu → Cpu} (hp : ∀ u, Calm d u → Calm d (poll u)) (u : Cpu)
      (hu : Calm d u) : Calm d (if busy u then poll u else u) := by
    split
    · exact hp u hu
    · exact hu
  have hclk : Calm d (serviceClock s) := h.served (serviceClock_follows s) (by decide) (by decide)
  exact hpoll (·.dev.rl.busy) (fun _ hu => hu.rlPoll) _ <|
    hpoll (·.dev.tm.busy) (fun u hu => hu.served (tmPoll_follows u) (by decide) (by decide)) _ <|
    hpoll (·.dev.rp.busy) (fun u hu => hu.served (rpPoll_follows u) (by decide) (by decide)) _ <|
    hpoll (·.dev.rk.busy) (fun u hu => hu.served (rkPoll_follows u) (by decide) (by decide)) _ <|
    hpoll (·.dev.ttoBusy) (fun u hu => hu.served (consoleTxPoll_follows u) (by decide) (by decide)) _
      hclk

/-! ## Register accesses -/

/-- An RX11 that is disabled steps without a request. -/
theorem rxServed (h : Calm d s) (hf : Follows InterruptLine.Served .rx s t (lines s .rx))
    (hie : (lines s .rx).ie = false) : Calm d t := by
  obtain ⟨l, hl, hm⟩ := hf
  refine h.rxMoved hm fun hd => ?_
  subst hd
  obtain ⟨hlie, hreq⟩ := hl.disabled hie h.unrequested
  refine ⟨hreq, .inr (.inl ((ie_clear _).2 ?_))⟩
  rw [← hlie, ← hm.own]
  rfl

/-- A command that waits for a byte is disabled. -/
theorem rxDisabled (h : Calm .rx s) (hstate : s.dev.rx.state ≠ .idle)
    (htr : s.dev.rx.rxcs &&& rxcsTr ≠ 0) : (lines s .rx).ie = false := by
  rcases h.floppy rfl with hidle | hie | hclear
  · exact absurd hidle hstate
  · exact (ie_clear _).1 hie
  · exact absurd hclear htr

theorem rxRead (h : Calm d s) (a : Word) : Calm d (rxRead s a).2 := by
  by_cases hd : d = .rx
  · subst hd
    have hf := rxRead_follows s a
    revert hf
    unfold Pdp11.rxRead
    dsimp only
    split_ifs with ha hstep
    · exact fun _ => h
    · intro hf
      exact h.rxServed hf (h.rxDisabled (by simp [hstep.1]) hstep.2)
    · exact fun _ => h
  · obtain ⟨l, -, hm⟩ := rxRead_follows s a
    exact h.other hm hd

theorem rxWrite (h : Calm d s) (hask : ¬Asks d a value) : Calm d (rxWrite s a value) := by
  by_cases hd : d = .rx
  · subst hd
    by_cases ha : a = 0o177170
    · obtain ⟨hgo, hie⟩ : value &&& 0o001 = 0 ∧ value &&& 0o100 = 0 := by
        by_contra hn
        exact hask ⟨ha, by tauto⟩
      have hrxcs : Pdp11.rxWrite s a value = rxWriteRxcs s value := if_pos ha
      rw [hrxcs]
      by_cases hinit : value &&& rxcsInit = 0
      · have hm := rxWriteRxcs_ie s hinit hgo
        rw [(ie_clear value).1 hie] at hm
        exact h.rxMoved hm fun _ =>
          ⟨rfl, .inr (.inl ((ie_clear _).2 (congrArg InterruptLine.ie hm.own)))⟩
      · unfold rxWriteRxcs
        rw [if_pos hinit]
        exact h.rxMoved (rxResetState_moved s) fun _ => ⟨rfl, .inl rfl⟩
    · by_cases hwaits : s.dev.rx.state ≠ .idle ∧ s.dev.rx.rxcs &&& rxcsTr ≠ 0
      · exact h.rxServed (rxWriteData_follows s ha value) (h.rxDisabled hwaits.1 hwaits.2)
      · have hkept : Pdp11.rxWrite s a value = s := by
          unfold Pdp11.rxWrite
          rw [if_neg ha, if_neg hwaits]
        rw [hkept]
        exact h
  · by_cases hl : rxLaunches s a value
    · rw [rxWrite_launch hl]
      exact h.other (rxGo_moved s value) hd
    · obtain ⟨l, -, hm⟩ := rxWrite_follows hl
      exact h.other hm hd

theorem regRead (h : Calm d s) (hr : RegRead s a t) : Calm d t := by
  cases hr with
  | none => exact h
  | console =>
    rcases consoleRead_moved s a with hq | hm
    · exact h.quiet hq
    · refine h.moved hm (by decide) (by decide) fun hd => ⟨rfl, ?_⟩
      subst hd
      exact h.disabled (by decide) (by decide)
  | tm => exact h.quiet (tmRead_quiet s a)
  | rl => exact h.quiet (rlRead_quiet s a)
  | rx => exact h.rxRead a

/-- A status register is written without its command and its enable. -/
theorem setIe (h : Calm d s) (hm : Moved e s t ((lines s e).setIe (value.getLsbD 6)))
    (hrl : e ≠ .rl) (hrx : e ≠ .rx) (hie : d = e → value &&& 0o100 = 0) : Calm d t := by
  refine h.moved hm hrl hrx fun hd => ?_
  rw [(ie_clear value).1 (hie hd)]
  exact ⟨rfl, rfl⟩

theorem regWrite (h : Calm d s) (hask : ¬Asks d a value) (hw : RegWrite s a value t) :
    Calm d t := by
  cases hw with
  | processor t hdev _ =>
    refine h.quiet ⟨?_, by rw [hdev]⟩
    unfold lines
    rw [hdev]
    rfl
  | clk ha =>
    refine h.moved (clkWrite_moved s value) (by decide) (by decide) fun hd => ?_
    subst hd
    have hie : value &&& 0o100 = 0 := by
      by_contra hie
      exact hask ⟨ha, hie⟩
    rw [(ie_clear value).1 hie]
    exact ⟨Bool.and_false _, rfl⟩
  | console =>
    -- the two status registers, the transmit buffer, and the writes that change no line
    obtain ⟨ha, hm⟩ | ⟨ha, hm⟩ | ⟨ha, hm⟩ | hq := consoleWrite_cases s a value
    · refine h.setIe hm (by decide) (by decide) fun hd => ?_
      subst hd
      by_contra hie
      exact hask ⟨ha, hie⟩
    · refine h.setIe hm (by decide) (by decide) fun hd => ?_
      subst hd
      by_contra hie
      exact hask (.inr ⟨ha, hie⟩)
    · refine h.other hm fun hd => ?_
      subst hd
      exact hask (.inl ha)
    · exact h.quiet hq
  | rk =>
    by_cases hd : d = .rk
    · subst hd
      by_cases ha : a = 0o177404
      · -- a write that does not ask has neither GO nor IE
        obtain ⟨hgo, hie⟩ : value &&& 0o001 = 0 ∧ value &&& 0o100 = 0 := by
          by_contra hn
          exact hask ⟨ha, by tauto⟩
        subst ha
        exact h.setIe (rkWrite_ie s hgo) (by decide) (by decide) fun _ => hie
      · exact h.quiet (rkWrite_quiet ha value)
    · obtain ⟨l, -, hm⟩ := rkWrite_follows s a value
      exact h.other hm hd
  | tm =>
    by_cases hd : d = .tm
    · subst hd
      by_cases ha : a = 0o172522
      · obtain ⟨hgo, hie⟩ : value &&& 0o001 = 0 ∧ value &&& 0o100 = 0 := by
          by_contra hn
          exact hask ⟨ha, by tauto⟩
        have hmtc : tmWrite s a value = tmWriteMtc s value := if_pos ha
        rw [hmtc]
        by_cases hinit : value &&& mtcInit ≠ 0
        · exact h.moved (tmWriteMtc_clear s hinit) (by decide) (by decide) fun _ => ⟨rfl, rfl⟩
        · exact h.setIe (tmWriteMtc_ie s hinit hgo) (by decide) (by decide) fun _ => hie
      · exact h.quiet (tmWrite_quiet ha value)
    · obtain ⟨l, -, hm⟩ := tmWrite_follows s a value
      exact h.other hm hd
  | rl =>
    by_cases hd : d = .rl
    · subst hd
      by_cases ha : a = 0o174400
      · -- the RL11 starts when DONE is written clear
        obtain ⟨hdone, hie⟩ : value &&& rlcsDone ≠ 0 ∧ value &&& 0o100 = 0 := by
          by_contra hn
          exact hask ⟨ha, by tauto⟩
        have hm := rlWriteRlcs_load (s := s) hdone
        rw [(ie_clear value).1 hie] at hm
        have hrlcs : rlWrite s a value = rlWriteRlcs s value := if_pos ha
        rw [hrlcs]
        exact h.rlMoved hm fun _ => ⟨rfl, h.idle rfl⟩
      · exact h.quiet (rlWrite_quiet ha value)
    · obtain ⟨l, -, hm⟩ := rlWrite_follows s a value
      exact h.other hm hd
  | rx => exact h.rxWrite hask
  | rp =>
    by_cases hd : d = .rp
    · subst hd
      obtain ⟨ha, hcs1⟩ | hq | hm := rpWrite_cases s a value
      · obtain ⟨hgo, hie⟩ : value &&& 0o001 = 0 ∧ value &&& 0o100 = 0 := by
          by_contra hn
          exact hask ⟨ha, by tauto⟩
        rw [hcs1]
        exact h.setIe (rpWriteCs1_ie s hgo) (by decide) (by decide) fun _ => hie
      · exact h.quiet hq
      · exact h.moved hm (by decide) (by decide) fun _ => ⟨rfl, rfl⟩
    · obtain ⟨l, -, hm⟩ := rpWrite_follows s a value
      exact h.other hm hd

/-! ## RESET, reset and the acknowledge -/

theorem busInit (hrl : d = .rl → s.dev.rl.busy = false) (hrx : d = .rx → RxCalm s.dev.rx) :
    Calm d (busInit s) where
  unrequested := by rw [busInit_lines, initLine_requested]
  disabled hd hd' := by
    rw [busInit_lines]
    cases d <;> first | rfl | exact absurd rfl hd | exact absurd rfl hd'
  idle := hrl
  floppy := hrx

theorem cpuReset (d : IntId) (s : Cpu) : Calm d (cpuReset s) where
  unrequested := by rw [cpuReset_lines, (resetLine_idle d).2]
  disabled _ _ := by rw [cpuReset_lines, (resetLine_idle d).1]
  idle _ := rfl
  floppy _ := .inl rfl

theorem acknowledge (h : Calm d s) (p : Pending) : Calm d (acknowledge p s) where
  unrequested := by
    rw [acknowledge_lines]
    split
    · rfl
    · exact h.unrequested
  disabled hd hd' := by
    rw [acknowledge_lines]
    split <;> exact h.disabled hd hd'
  idle hd := by
    cases p <;> exact h.idle hd
  floppy hd := by
    cases p <;> exact h.floppy hd

end Calm

/-! ## Runs -/

/-- Some part of a call of the step keeps a device calm, unless it writes a register that asks
something of the device. -/
def KeepsCalm (d : IntId) (m m' : Machine) : Prop :=
  ∃ es, m'.events = m.events ++ es ∧
    ((∀ a value, Event.ioWrite a value ∈ es → ¬Asks d a value) → Calm d m.cpu → Calm d m'.cpu)

theorem keepsCalm_of {d : IntId} {m m' : Machine} (he : m'.events = m.events)
    (hc : Calm d m.cpu → Calm d m'.cpu) : KeepsCalm d m m' :=
  ⟨[], by rw [he, List.append_nil], fun _ => hc⟩

theorem keepsCalm_relation (d : IntId) : DeviceRelation (KeepsCalm d) where
  trans m m' m'' := by
    rintro ⟨es, he, hc⟩ ⟨es', he', hc'⟩
    refine ⟨es ++ es', by rw [he', he, List.append_assoc], fun hask h => ?_⟩
    exact hc' (fun a value hm => hask a value (List.mem_append_right es hm))
      (hc (fun a value hm => hask a value (List.mem_append_left es' hm)) h)
  same m m' hdev := by
    rintro ⟨es, he⟩
    exact ⟨es, he, fun _ h => h.quiet (quiet_of_dev hdev)⟩
  read m a p hp := keepsCalm_of rfl fun h => h.regRead (ioReadReg_regRead hp)
  write m a value s' hs := ⟨[.ioWrite a value], rfl, fun hask h =>
    h.regWrite (hask a value (List.mem_singleton_self _)) (ioWriteReg_regWrite hs)⟩

theorem cpuStep_calm {d : IntId} {s : Cpu} (h : Calm d s) (hask : Unasked d .step s) :
    Calm d (cpuStep s).cpu := by
  have hinit : Respects (KeepsCalm d) (modifyCpu busInit) :=
    fun m => keepsCalm_of rfl fun h => Calm.busInit h.idle h.floppy
  have hack (p : Pending) : Respects (KeepsCalm d) (modifyCpu (acknowledge p)) :=
    fun m => keepsCalm_of rfl fun h => h.acknowledge p
  have hservice (m : Machine) (acct : Accounting) :
      KeepsCalm d m { m with cpu := serviceDueEvents { m.cpu with acct := acct } } := by
    have hq : Quiet m.cpu { m.cpu with acct := acct } := quiet_of_dev rfl
    exact keepsCalm_of rfl fun h => (h.quiet hq).serviceDueEvents
  obtain ⟨es, he, hc⟩ := (keepsCalm_relation d).programs.cpuStep hinit hack hservice s
  have hes : (cpuStep s).events = es := he
  exact hc (fun a value hm => hask a value (hes ▸ hm)) h

/-- An operation that asks nothing of a device keeps it calm. -/
theorem BusOp.calm {d : IntId} (op : BusOp) {s : Cpu} (h : Calm d s) (hask : Unasked d op s) :
    Calm d (op.apply s) := by
  cases op with
  | step => exact cpuStep_calm h hask
  | reset => exact .cpuReset d s
  | init => exact .busInit h.idle h.floppy
  | read a =>
    show Calm d (((ioReadReg s a).map Prod.snd).getD s)
    cases hp : ioReadReg s a with
    | none => exact h
    | some p => exact h.regRead (ioReadReg_regRead hp)
  | write a value =>
    show Calm d ((ioWriteReg s a value).getD s)
    cases ht : ioWriteReg s a value with
    | none => exact h
    | some t => exact h.regWrite hask (ioWriteReg_regWrite ht)
  | tick => exact h.served ⟨_, .arrive _, clkTick_moved s⟩ (by decide) (by decide)
  | input ch => exact h.other (consoleInput_moved s ch) hask
  | txPoll => exact h.served (consoleTxPoll_follows s) (by decide) (by decide)
  | rkPoll => exact h.served (rkPoll_follows s) (by decide) (by decide)
  | rpPoll => exact h.served (rpPoll_follows s) (by decide) (by decide)
  | tmPoll => exact h.served (tmPoll_follows s) (by decide) (by decide)
  | rlPoll => exact h.rlPoll
  | acknowledge e => exact h.acknowledge (.device e)
  | load r mem => exact h.quiet (quiet_of_dev rfl)
  | setHalted halted => exact h.quiet (quiet_of_dev rfl)
  | rkAttach disk words => exact h.quiet ((Quiet.refl s).rk rfl rfl)
  | rpAttach disk words => exact h.quiet ((Quiet.refl s).rp rfl rfl)
  | tmAttach tape len wrp => exact h.quiet ((Quiet.refl s).tm rfl rfl)
  | rlAttach disk words => exact h.quiet ((Quiet.refl s).rl rfl rfl)
  | rxAttach disk bytes => exact ⟨h.unrequested, h.disabled, h.idle, h.floppy⟩

theorem BusRun.calm {d : IntId} {s t : Cpu} (hrun : BusRun (Unasked d) s t) (h : Calm d s) :
    Calm d t := Run.invariant (fun op _ hask h => op.calm h hask) hrun h

/-! ## An RX11 command that RESET leaves running -/

/-- A command that waits for a byte and will interrupt. -/
structure RxWaits (s : Cpu) : Prop where
  busy : s.dev.rx.state ≠ .idle
  ie : s.dev.rx.rxcs &&& rxcsIe ≠ 0
  tr : s.dev.rx.rxcs &&& rxcsTr ≠ 0

theorem not_rxCalm (s : Cpu) : ¬RxCalm s.dev.rx ↔ RxWaits s := by
  unfold RxCalm
  rw [not_or, not_or]
  exact ⟨fun h => ⟨h.1, h.2.1, h.2.2⟩, fun h => ⟨h.busy, h.ie, h.tr⟩⟩

/-- The access that moves a waiting command on: a read while the buffer is emptied, else a write. -/
def rxTap (s : Cpu) : BusOp :=
  if s.dev.rx.state = .empty then .read 0o177172 else .write 0o177172 0

/-- A bound on the accesses a command still waits for. -/
def rxRemaining (rx : Rx11) : ℕ :=
  match rx.state with
  | .rwds => 1
  | .fill => (127 - rx.bptr).toNat
  | .empty => 128 - rx.bptr.toNat
  | _ => 0

theorem rxTap_unasked (s : Cpu) : Unasked .rx (rxTap s) s := by
  unfold rxTap
  split
  · trivial
  · rintro ⟨ha, -⟩
    exact absurd ha (by decide)

/-- The command a tap steps on: TR is taken, and a byte may be given. -/
def rxTapped (s : Cpu) : Cpu :=
  { s with
    dev.rx.rxdb := if s.dev.rx.state = .empty then s.dev.rx.rxdb else 0
    dev.rx.rxcs := s.dev.rx.rxcs &&& ~~~rxcsTr }

theorem rxTap_apply {s : Cpu} (h : RxWaits s) : (rxTap s).apply s = rxStep (rxTapped s) := by
  unfold rxTap rxTapped
  by_cases he : s.dev.rx.state = .empty
  · rw [if_pos he]
    show ((ioReadReg s 0o177172).map Prod.snd).getD s = _
    rw [ioReadReg_rx (by decide)]
    show (rxRead s 0o177172).2 = _
    unfold rxRead
    rw [if_neg (by decide)]
    dsimp only
    rw [if_pos ⟨he, h.tr⟩, if_pos he]
  · rw [if_neg he]
    show (ioWriteReg s 0o177172 0).getD s = _
    rw [ioWriteReg_rx (by decide)]
    show rxWrite s 0o177172 0 = _
    unfold rxWrite
    rw [if_neg (by decide), if_pos ⟨h.busy, h.tr⟩]
    dsimp only
    rw [if_pos he, if_neg he]
    rfl

theorem fill_remaining {bptr : Byte} (h : bptr + 1 < rxNumby) :
    (127 - (bptr + 1)).toNat < (127 - bptr).toNat := by bv_omega

theorem empty_remaining {bptr : Byte} (h : ¬rxNumby ≤ bptr) :
    128 - (bptr + 1).toNat < 128 - bptr.toNat := by bv_omega

/-- A tap ends the command with an interrupt, or leaves it waiting for fewer bytes. -/
theorem rxTap_progress {s : Cpu} (h : RxWaits s) :
    requests ((rxTap s).apply s).dev .rx = true ∨
      (RxWaits ((rxTap s).apply s) ∧
        rxRemaining ((rxTap s).apply s).dev.rx < rxRemaining s.dev.rx) := by
  have hie : (s.dev.rx.rxcs &&& ~~~rxcsTr) &&& rxcsIe ≠ 0 := by
    rw [BitMask.and_not_and_eq _ (by decide)]
    exact h.ie
  have hset (csr : Word) (hcsr : csr &&& rxcsIe ≠ 0) :
      (csr ||| rxcsTr) &&& rxcsIe ≠ 0 ∧ (csr ||| rxcsTr) &&& rxcsTr ≠ 0 := by
    rw [BitMask.or_and_eq _ (by decide)]
    refine ⟨hcsr, mt (done_clear _).1 ?_⟩
    simp
  have harrive {t u : Cpu} (ht : t.dev.rx.rxcs &&& rxcsIe ≠ 0)
      (hu : Moved .rx t u (lines t .rx).arrive) : requests u.dev .rx = true := by
    have hbit : t.dev.rx.rxcs.getLsbD 6 = true := by simpa using mt (ie_clear _).2 ht
    have hline : (lines t .rx).ie = true := hbit
    have hreq := congrArg InterruptLine.requested hu.own
    refine hreq.trans ?_
    simp [InterruptLine.arrive, hline]
  have hdone (t : Cpu) (ht : t.dev.rx.rxcs &&& rxcsIe ≠ 0) (esr : Byte) (code : Option Byte) :
      requests (rxDone t esr code).dev .rx = true :=
    harrive ht (rxDone_moved (.refl .rx t) esr code)
  have htransfer (t : Cpu) (ht : t.dev.rx.rxcs &&& rxcsIe ≠ 0) :
      requests (rxTransfer t).dev .rx = true := harrive ht (rxTransfer_moved (.refl .rx t))
  rw [rxTap_apply h]
  have hstate : (rxTapped s).dev.rx.state = s.dev.rx.state := rfl
  have hcsr : (rxTapped s).dev.rx.rxcs &&& rxcsIe ≠ 0 := hie
  have hbptr : (rxTapped s).dev.rx.bptr = s.dev.rx.bptr := rfl
  generalize rxTapped s = u at hstate hcsr hbptr
  obtain ⟨hset1, hset2⟩ := hset _ hcsr
  unfold rxStep
  dsimp only
  rw [hstate]
  cases hs : s.dev.rx.state with
  | idle => exact absurd hs h.busy
  -- the sector byte is taken, and the track byte is asked for
  | rwds => exact .inr ⟨⟨by simp, hset1, hset2⟩, by simp [rxRemaining, hs]⟩
  | rwdt =>
    refine .inl (htransfer _ ?_)
    exact hcsr
  | rwxfr =>
    refine .inl (htransfer _ ?_)
    exact hcsr
  | cmddone =>
    dsimp only
    split
    · refine .inl (hdone _ ?_ _ _)
      exact hcsr
    · refine .inl (hdone _ ?_ _ _)
      exact hcsr
  | fill =>
    dsimp only
    rw [hbptr]
    split
    · -- a byte moves and the buffer has room for another
      rename_i hlt
      refine .inr ⟨⟨by simp, hset1, hset2⟩, ?_⟩
      simp only [rxRemaining, hs]
      exact fill_remaining hlt
    · refine .inl (hdone _ ?_ _ _)
      exact hcsr
  | empty =>
    dsimp only
    rw [hbptr]
    split
    · refine .inl (hdone _ ?_ _ _)
      exact hcsr
    · rename_i hlt
      refine .inr ⟨⟨by simp, hset1, hset2⟩, ?_⟩
      simp only [rxRemaining, hs]
      exact empty_remaining hlt

/-- The accesses of some run raise the interrupt. -/
theorem rxWaits_interrupts {s : Cpu} (h : RxWaits s) :
    ∃ u, BusRun (Unasked .rx) s u ∧ requests u.dev .rx = true := by
  have hrun (n : ℕ) : ∀ t, BusRun (Unasked .rx) s t → RxWaits t → rxRemaining t.dev.rx ≤ n →
      ∃ u, BusRun (Unasked .rx) s u ∧ requests u.dev .rx = true := by
    induction n with
    | zero =>
      intro t hst ht hn
      rcases rxTap_progress ht with hr | ⟨-, hlt⟩
      · exact ⟨_, hst.next _ (rxTap_unasked t), hr⟩
      · omega
    | succ n ih =>
      intro t hst ht hn
      rcases rxTap_progress ht with hr | ⟨hw, hlt⟩
      · exact ⟨_, hst.next _ (rxTap_unasked t), hr⟩
      · exact ih _ (hst.next _ (rxTap_unasked t)) hw (by omega)
  exact hrun _ s (.start _ s) h (Nat.le_refl _)

/-! ## RESET -/

/-- The machine once RESET has executed. -/
def afterReset (s : Cpu) : Cpu := (final (execute 5 ⟨s, []⟩)).cpu

theorem afterReset_eq (s : Cpu) : afterReset s = busInit s := by
  unfold afterReset
  rw [execute_reset]
  rfl

/-- Nothing survives on the bus of what was given to the devices before: no request, no
controller at work, no event but that of the line clock, and no interrupt of any device in any
later run, from here or from the end of the instruction, that asks nothing of it. -/
structure Cancelled (s : Cpu) : Prop where
  requests : s.dev.intReq = 0
  idle : s.dev.ttoBusy = false ∧ s.dev.rk.busy = false ∧ s.dev.rp.busy = false ∧
    s.dev.tm.busy = false ∧ s.dev.rl.busy = false
  schedule : nextEventNs s = earlier (s.dev.clkTickNs ≠ 0) s.dev.clkNextNs noEventNs
  later : ∀ d u, BusRun (Unasked d) s u ∨ BusRun (Unasked d) (finishInstr 5 s) u →
    Pdp11.requests u.dev d = false

theorem Calm.finishInstr {d : IntId} {s : Cpu} (h : Calm d s) (word : Word) :
    Calm d (finishInstr word s) := by
  have hq : Quiet s (countInstr (accountTime word s)) := quiet_of_dev rfl
  exact (h.quiet hq).serviceDueEvents

theorem Calm.requests {d : IntId} {s : Cpu} (h : Calm d s) : Pdp11.requests s.dev d = false := by
  have hreq := h.unrequested
  cases d <;> exact hreq

/-- RESET cancels everything in flight exactly when the RL11 is idle, and the RX11 is idle, or
disabled, or waits for no byte: RESET leaves these two controllers alone. -/
theorem reset_cancels_iff (s : Cpu) :
    Cancelled (afterReset s) ↔ s.dev.rl.busy = false ∧
      (s.dev.rx.state = .idle ∨ s.dev.rx.rxcs &&& rxcsIe = 0 ∨ s.dev.rx.rxcs &&& rxcsTr = 0) := by
  rw [afterReset_eq]
  constructor
  · intro h
    refine ⟨h.idle.2.2.2.2, ?_⟩
    by_contra hrx
    have hwaits : RxWaits (busInit s) := (not_rxCalm (busInit s)).1 hrx
    obtain ⟨u, hrun, hreq⟩ := rxWaits_interrupts hwaits
    rw [h.later .rx u (.inl hrun)] at hreq
    cases hreq
  · rintro ⟨hrl, hrx⟩
    have hcalm (d : IntId) : Calm d (busInit s) := .busInit (fun _ => hrl) fun _ => hrx
    refine ⟨rfl, ⟨rfl, rfl, rfl, rfl, hrl⟩, ?_, ?_⟩
    · have hbusy : (busInit s).dev.rl.busy = false := hrl
      unfold nextEventNs
      rw [hbusy]
      rfl
    · rintro d u (hrun | hrun)
      · exact (hrun.calm (hcalm d)).requests
      · exact (hrun.calm ((hcalm d).finishInstr 5)).requests

/-- READ HEADER with the interrupt enabled, given to an RL01. -/
def rlReading : Cpu :=
  rlWrite (rlAttach cpuCreate (some fun _ => 0) 0o12000000) 0o174400 0o110

/-- The completion of the RL11 survives RESET. -/
theorem rlReading_survives : ¬∀ s, Cancelled (afterReset s) := by
  intro h
  have hbusy := (h rlReading).idle.2.2.2.2
  exact absurd hbusy (by decide +kernel)

end Pdp11
