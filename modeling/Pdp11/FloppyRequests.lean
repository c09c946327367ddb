import Pdp11.InterruptLines

namespace Pdp11

open GuardedRun InterruptLine

/-! The interrupt request of the RX11. -/

/-- The accesses a program and the host make to the RX11: its two registers, an attach, the
acknowledge of an interrupt and RESET. -/
inductive RxAccess : BusOp → Prop
  | read {a : Word} (h : isRx11 a = true) : RxAccess (.read a)
  | write {a value : Word} (h : isRx11 a = true) : RxAccess (.write a value)
  | attach (disk : ByteImage) (bytes : BitVec 32) : RxAccess (.rxAttach disk bytes)
  | acknowledge (d : IntId) : RxAccess (.acknowledge d)
  | init : RxAccess .init

/-- A launch over a request that still stands, which the launched function does not renew. -/
def StaleLaunch (op : BusOp) (s : Cpu) : Prop :=
  ∃ a value, op = .write a value ∧ rxLaunches s a value ∧ requests s.dev .rx = true ∧
    ¬(rxEndsAtOnce value = true ∧ value.getLsbD 6 = true)

theorem launch_sound (on : Bool) (l : InterruptLine) :
    (l.launch on).Sound ↔ l.requested = false := by
  cases hr : l.requested <;> simp [Sound, Ready, launch, hr]

theorem launch_arrive_sound (on : Bool) (l : InterruptLine) :
    (l.launch on).arrive.Sound ↔ l.requested = false ∨ on = true := by
  cases hr : l.requested <;> simp [Sound, Ready, launch, arrive, hr]

/-- A launch keeps the line sound exactly when it is not over a stale request. -/
theorem rxGo_sound (s : Cpu) (value : Word) :
    (lines (rxGo s value) .rx).Sound ↔
      ¬(requests s.dev .rx = true ∧ ¬(rxEndsAtOnce value = true ∧ value.getLsbD 6 = true)) := by
  have hrequested : (lines s .rx).requested = requests s.dev .rx := rfl
  rw [(rxGo_moved s value).own]
  by_cases he : rxEndsAtOnce value = true
  · rw [if_pos he, launch_arrive_sound, hrequested]
    cases requests s.dev .rx <;> cases value.getLsbD 6 <;> simp [he]
  · rw [if_neg he, launch_sound, hrequested]
    simp [he]

theorem Follows.sound {e : IntId} {s t : Cpu} (h : Follows Changes e s t (lines s e)) {d : IntId}
    (hd : (lines s d).Sound) : (lines t d).Sound := by
  obtain ⟨l, hl, ht⟩ := h
  by_cases hde : d = e
  · subst hde
    rw [ht.own]
    exact hl.sound hd
  · rw [ht.others hde]
    exact hd

theorem Follows.sound_of_steps {e : IntId} {s t : Cpu} (h : Follows Steps e s t (lines s e))
    {d : IntId} (hd : (lines s d).Sound) : (lines t d).Sound :=
  (h.mono fun _ _ => Steps.changes).sound hd

theorem regRead_sound {s t : Cpu} {a : Word} (h : RegRead s a t) (hs : (lines s .rx).Sound) :
    (lines t .rx).Sound := by
  cases h with
  | none => exact hs
  | console => exact (consoleRead_follows s a).sound hs
  | tm =>
    rw [(tmRead_quiet s a).moves]
    exact hs
  | rl =>
    rw [(rlRead_quiet s a).moves]
    exact hs
  | rx => exact ((rxRead_follows s a).mono fun _ _ => InterruptLine.Served.steps).sound_of_steps hs

/-- An RX11 register answers at its own address. -/
theorem ioWriteReg_rx {s : Cpu} {a : Word} (h : isRx11 a = true) (value : Word) :
    ioWriteReg s a value = some (rxWrite s a value) := by
  have ha : a = 0o177170 ∨ a = 0o177172 := by simpa [isRx11] using h
  have hubm : isUbm s a = false := by
    rcases ha with rfl | rfl <;> simp [isUbm]
  rcases ha with rfl | rfl <;> unfold ioWriteReg <;> rw [hubm] <;> rfl

theorem ioReadReg_rx {s : Cpu} {a : Word} (h : isRx11 a = true) :
    ioReadReg s a = some (rxRead s a) := by
  have ha : a = 0o177170 ∨ a = 0o177172 := by simpa [isRx11] using h
  have hubm : isUbm s a = false := by
    rcases ha with rfl | rfl <;> simp [isUbm]
  rcases ha with rfl | rfl <;> unfold ioReadReg <;> rw [hubm] <;> rfl

theorem rxWrite_sound {s : Cpu} {a value : Word} (hs : (lines s .rx).Sound) :
    (lines (rxWrite s a value) .rx).Sound ↔ ¬(rxLaunches s a value ∧ requests s.dev .rx = true ∧
      ¬(rxEndsAtOnce value = true ∧ value.getLsbD 6 = true)) := by
  by_cases h : rxLaunches s a value
  · rw [rxWrite_launch h, rxGo_sound]
    simp [h]
  · have hsound := (rxWrite_follows h).sound_of_steps hs
    simp [h, hsound]

/-- An access keeps the request sound exactly when it is no launch over a stale request. -/
theorem rxAccess_sound {op : BusOp} (hop : RxAccess op) {s : Cpu} (hs : (lines s .rx).Sound) :
    (lines (op.apply s) .rx).Sound ↔ ¬StaleLaunch op s := by
  -- only a write launches
  have hother (hne : ∀ a value, op ≠ .write a value) (h : (lines (op.apply s) .rx).Sound) :
      (lines (op.apply s) .rx).Sound ↔ ¬StaleLaunch op s := by
    refine iff_of_true h ?_
    rintro ⟨a, value, he, -⟩
    exact hne a value he
  cases hop with
  | @write a value h =>
    have hwrite : (BusOp.write a value).apply s = rxWrite s a value := by
      show (ioWriteReg s a value).getD s = _
      rw [ioWriteReg_rx h]
      rfl
    have hstale : StaleLaunch (.write a value) s ↔ rxLaunches s a value ∧
        requests s.dev .rx = true ∧ ¬(rxEndsAtOnce value = true ∧ value.getLsbD 6 = true) := by
      refine ⟨?_, fun h => ⟨a, value, rfl, h⟩⟩
      rintro ⟨_, _, ⟨⟩, h⟩
      exact h
    rw [hwrite, rxWrite_sound hs, hstale]
  | @read a _ =>
    refine hother (fun _ _ => nofun) ?_
    show (lines (((ioReadReg s a).map Prod.snd).getD s) .rx).Sound
    cases h : ioReadReg s a with
    | none => exact hs
    | some p => exact regRead_sound (ioReadReg_regRead h) hs
  | attach disk bytes =>
    have hquiet : RxQuiet s (rxAttach s disk bytes) := (RxQuiet.refl s).rx rfl .rfl
    refine hother (fun _ _ => nofun) ?_
    show (lines (rxAttach s disk bytes) .rx).Sound
    rw [show lines (rxAttach s disk bytes) = lines s from hquiet]
    exact hs
  | acknowledge d =>
    refine hother (fun _ _ => nofun) ?_
    show (lines (acknowledge (.device d) s) .rx).Sound
    rw [acknowledge_lines]
    split
    · exact acknowledge_sound _
    · exact hs
  | init =>
    refine hother (fun _ _ => nofun) ?_
    show (lines (busInit s) .rx).Sound
    rw [busInit_lines]
    exact acknowledge_sound _

/-- The request of the RX11 stands only while it is done and enabled, in every state reached by
accesses that launch no function over a stale request; and an access that does leaves the request
standing without them. -/
theorem rx_request_sound {model : Model} {s : Cpu}
    (h : BusRun (fun op s => RxAccess op ∧ ¬StaleLaunch op s) (cpuCreateModel model) s) :
    (requests s.dev .rx = true → (lineOf s.dev .rx).done = true ∧ (lineOf s.dev .rx).ie = true) ∧
      ∀ op : BusOp, RxAccess op →
        ((requests (op.apply s).dev .rx = true → (lineOf (op.apply s).dev .rx).done = true ∧
          (lineOf (op.apply s).dev .rx).ie = true) ↔ ¬StaleLaunch op s) := by
  have hs : (lines s .rx).Sound := by
    refine Run.invariant (I := fun s => (lines s .rx).Sound) ?_ h ?_
    · exact fun op s hok hs => (rxAccess_sound hok.1 hs).2 hok.2
    · show (lines (cpuReset (cpuAlloc model)) .rx).Sound
      rw [cpuReset_lines]
      exact fun hr => nomatch hr
  exact ⟨hs, fun op hop => rxAccess_sound hop hs⟩

/-- IE set in the idle state, and then FILL with IE. -/
def launchedFloppy : Cpu :=
  (BusOp.write 0o177170 0o101).apply ((BusOp.write 0o177170 0o100).apply cpuCreate)

theorem launchedFloppy_run : BusRun (fun op _ => RxAccess op) cpuCreate launchedFloppy :=
  ((BusRun.start _ cpuCreate).next (.write 0o177170 0o100) (.write (by decide))).next
    (.write 0o177170 0o101) (.write (by decide))

/-- The completion of no command yet is requested while FILL waits for its first byte. -/
theorem launchedFloppy_requests :
    ¬∀ (model : Model) (s : Cpu), BusRun (fun op _ => RxAccess op) (cpuCreateModel model) s →
      requests s.dev .rx = true → (lineOf s.dev .rx).done = true ∧ (lineOf s.dev .rx).ie = true := by
  intro h
  have hrequested : requests launchedFloppy.dev .rx = true := by decide +kernel
  have hdone : (lineOf launchedFloppy.dev .rx).done = false := by decide +kernel
  have hready := (h .m1170 launchedFloppy launchedFloppy_run hrequested).1
  rw [hdone] at hready
  cases hready

/-- IE set in the idle state alone requests the interrupt of a controller that is done. -/
def enabledFloppy : Cpu := (BusOp.write 0o177170 0o100).apply cpuCreate

theorem enabledFloppy_sound :
    requests enabledFloppy.dev .rx = true ∧
      (lineOf enabledFloppy.dev .rx).done = true ∧ (lineOf enabledFloppy.dev .rx).ie = true := by
  have hfresh : ¬StaleLaunch (.write 0o177170 0o100) cpuCreate := by
    rintro ⟨_, _, ⟨⟩, -, hr, -⟩
    exact absurd hr (by decide +kernel)
  have hrun : BusRun (fun op s => RxAccess op ∧ ¬StaleLaunch op s) (cpuCreateModel .m1170)
      enabledFloppy :=
    (BusRun.start _ cpuCreate).next (.write 0o177170 0o100) ⟨.write (by decide), hfresh⟩
  have hrequested : requests enabledFloppy.dev .rx = true := by decide +kernel
  exact ⟨hrequested, (rx_request_sound hrun).1 hrequested⟩

end Pdp11
