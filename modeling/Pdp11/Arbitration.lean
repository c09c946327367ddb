import Pdp11.InterruptLines

namespace Pdp11

open FaultState Arbiter

/-! Which request the processor grants before an instruction. -/

/-! ## The levels in competition -/

/-- The highest BR level of the devices that request an interrupt, 0 if none does. -/
def deviceLevel (dev : Devices) : ℕ := highestLevel IntId.ipl (requests dev) IntId.all

/-- The highest level requested in PIRQ<15:9>, 0 if none is. -/
def programLevel (pirq : Word) : ℕ :=
  highestLevel id (fun level => pirq.getLsbD (level + 8)) [7, 6, 5, 4, 3, 2, 1]

/-- The lowest-numbered device of the highest level. -/
structure Served (dev : Devices) (d : IntId) : Prop where
  requests : requests dev d = true
  top : d.ipl = deviceLevel dev
  lowest : ∀ e, Pdp11.requests dev e = true → e.ipl = deviceLevel dev → d.bit ≤ e.bit

theorem highestInt_eq (dev : Devices) :
    highestInt dev.intReq = scan IntId.ipl (requests dev) IntId.all := rfl

theorem highestInt_level (dev : Devices) : (highestInt dev.intReq).2 = deviceLevel dev := by
  rw [highestInt_eq]
  exact scan_level

theorem highestInt_served {dev : Devices} {d : IntId} (h : (highestInt dev.intReq).1 = some d) :
    Served dev d := by
  rw [highestInt_eq] at h
  have hs := scan_selected IntId.bit (by decide) h
  refine ⟨hs.requests, hs.top, fun e he hl => hs.first e ?_ he (hl.trans hs.top.symm)⟩
  cases e <;> decide

theorem highestInt_none {dev : Devices} (h : (highestInt dev.intReq).1 = none) :
    deviceLevel dev = 0 := by
  rw [highestInt_eq] at h
  exact scan_none h

theorem highestPirLevel_eq (pirq : Word) : highestPirLevel pirq = programLevel pirq := by
  have hbit (level : ℕ) (h : level + 8 < 16) :
      decide (pirq &&& (1#16 <<< (level + 8)) ≠ 0) = pirq.getLsbD (level + 8) := by
    have htwo : 1#16 <<< (level + 8) = BitVec.twoPow 16 (level + 8) := by
      rw [BitVec.twoPow_eq]
    have hz := BitMask.and_twoPow_eq_zero (x := pirq) h
    rw [htwo]
    cases hx : pirq.getLsbD (level + 8) <;> simp_all
  have hfind : highestPirLevel pirq = (([7, 6, 5, 4, 3, 2, 1].find?
      fun level => pirq.getLsbD (level + 8)).map id).getD 0 := by
    simp only [highestPirLevel, List.find?_cons, hbit, Nat.reduceAdd, Nat.reduceLT, Option.map_id]
    rfl
  rw [hfind]
  exact find_level (by decide)

/-- What is dispatched before an instruction with no trap pending. -/
theorem pendingDispatch_eq {s : Cpu} (htrace : s.ctl.tracePending = false)
    (hyellow : s.ctl.stackYellowPending = false) :
    (max (deviceLevel s.dev) (programLevel s.dev.pirq) ≤ (priority s.regs.psw).toNat ∧
      pendingDispatch s = none) ∨
    ((priority s.regs.psw).toNat < deviceLevel s.dev ∧
      programLevel s.dev.pirq ≤ deviceLevel s.dev ∧
      ∃ d, Served s.dev d ∧ pendingDispatch s = some (.device d)) ∨
    ((priority s.regs.psw).toNat < programLevel s.dev.pirq ∧
      ¬((priority s.regs.psw).toNat < deviceLevel s.dev ∧
        programLevel s.dev.pirq ≤ deviceLevel s.dev) ∧
      pendingDispatch s = some .pirq) := by
  have hlevel := highestInt_level s.dev
  have htrace' : ¬s.ctl.tracePending = true := by rw [htrace]; exact Bool.false_ne_true
  have hyellow' : ¬s.ctl.stackYellowPending = true := by rw [hyellow]; exact Bool.false_ne_true
  rw [pendingDispatch, if_neg htrace', if_neg hyellow', pendingPirq, highestPirLevel_eq]
  cases hh : highestInt s.dev.intReq with
  | mk best level =>
    rw [hh] at hlevel
    obtain rfl : level = deviceLevel s.dev := hlevel
    cases best with
    | none =>
      have hzero : deviceLevel s.dev = 0 := highestInt_none (by rw [hh])
      by_cases hprog : (priority s.regs.psw).toNat < programLevel s.dev.pirq
      · exact .inr (.inr ⟨hprog, by omega, if_pos hprog⟩)
      · exact .inl ⟨by omega, if_neg hprog⟩
    | some d =>
      have hserved : Served s.dev d := highestInt_served (by rw [hh])
      by_cases hdev : (priority s.regs.psw).toNat < deviceLevel s.dev ∧
          programLevel s.dev.pirq ≤ deviceLevel s.dev
      · exact .inr (.inl ⟨hdev.1, hdev.2, d, hserved, if_pos hdev⟩)
      · by_cases hprog : (priority s.regs.psw).toNat < programLevel s.dev.pirq
        · exact .inr (.inr ⟨hprog, hdev, (if_neg hdev).trans (if_pos hprog)⟩)
        · exact .inl ⟨by omega, (if_neg hdev).trans (if_neg hprog)⟩

/-! ## Taking the trap -/

/-- The vectors taken in a call, oldest first. -/
def vectorsOf (es : List Event) : List Word :=
  es.filterMap fun e => match e with
    | .dispatch vector _ _ => some vector
    | _ => none

/-- The wait flag stays, and no trap is taken. -/
structure Undisturbed (m m' : Machine) : Prop where
  waiting : m'.cpu.ctl.waiting = m.cpu.ctl.waiting
  vectors : vectorsOf m'.events = vectorsOf m.events

namespace Undisturbed

variable {m m' m'' : Machine}

theorem refl (m : Machine) : Undisturbed m m := ⟨rfl, rfl⟩

theorem trans (m m' m'' : Machine) (h : Undisturbed m m') (h' : Undisturbed m' m'') :
    Undisturbed m m'' :=
  ⟨h'.waiting.trans h.waiting, h'.vectors.trans h.vectors⟩

variable {α : Type} {x : M α}

theorem modify {f : Cpu → Cpu} (hf : ∀ s, (f s).ctl.waiting = s.ctl.waiting) :
    Respects Undisturbed (modifyCpu f) := fun m => ⟨hf m.cpu, rfl⟩

theorem vectorsOf_append {es : List Event} {e : Event} (he : vectorsOf [e] = []) :
    vectorsOf (es ++ [e]) = vectorsOf es := by
  have happ : vectorsOf (es ++ [e]) = vectorsOf es ++ vectorsOf [e] := List.filterMap_append
  rw [happ, he, List.append_nil]

theorem fault (vector : Word) : Respects Undisturbed (cpuBusFault vector : M α) :=
  fun _ => ⟨rfl, vectorsOf_append rfl⟩

theorem ioRead (a : Word) : Respects Undisturbed (Pdp11.ioRead a) := by
  intro m
  rw [ioRead_apply]
  cases hp : ioReadReg m.cpu a with
  | none => exact fault vecBus m
  | some p =>
    have hwaiting : p.2.ctl.waiting = m.cpu.ctl.waiting := by
      rw [(ioReadReg_step m.cpu a p hp).1.rest]
    exact ⟨hwaiting, rfl⟩

theorem ioWrite (a value : Word) : Respects Undisturbed (Pdp11.ioWrite a value) := by
  intro m
  have hwrite : Undisturbed m ⟨m.cpu, m.events ++ [.ioWrite a value]⟩ := ⟨rfl, vectorsOf_append rfl⟩
  rw [ioWrite_apply]
  cases hs : ioWriteReg m.cpu a value with
  | none => exact trans _ _ _ hwrite (fault (α := Unit) vecBus _)
  | some t =>
    have hwaiting : t.ctl.waiting = m.cpu.ctl.waiting := by
      rw [(ioWriteReg_step m.cpu a value t hs).1.ctl]
    exact ⟨hwaiting, hwrite.vectors⟩

theorem readOp (hx : ReadOp α x) : Respects Undisturbed x := by
  cases hx with
  | get => exact refl
  | fault vector => exact fault vector
  | capture idx err _ =>
    refine modify fun s => ?_
    unfold captureMmu
    split <;> rfl
  | mark idx isWrite => exact modify fun _ => rfl
  | ioRead a => exact ioRead a
  | cache pa => exact modify fun _ => rfl

theorem refOp (hx : RefOp α x) : Respects Undisturbed x := by
  cases hx with
  | read h => exact readOp h
  | ioWrite a value => exact ioWrite a value
  | mem f => exact modify fun _ => rfl

theorem ref (hx : RefBuilt x) : Respects Undisturbed x := hx.respects refl trans fun h => refOp h

theorem stackLimit (sp : Word) : Respects Undisturbed (checkStackLimit sp) := by
  intro m
  rw [checkStackLimit_apply]
  cases stackZone m.cpu sp with
  | fine => exact refl m
  | yellow => exact ⟨rfl, rfl⟩
  | red =>
    have hred : Undisturbed m ⟨stackRed m.cpu, m.events⟩ := ⟨rfl, rfl⟩
    exact trans _ _ _ hred (fault (α := Unit) vecBus _)

theorem basicOp (hx : BasicOp α x) : Respects Undisturbed x := by
  cases hx with
  | get => exact refl
  | regs f => exact modify fun _ => rfl
  | codes f hf =>
    refine modify fun s => ?_
    obtain ⟨psw, hs, -⟩ := hf s
    rw [hs]
  | track reg delta =>
    refine modify fun s => ?_
    unfold mmr1Track
    split <;> rfl
  | fp f => exact modify fun _ => rfl
  | extra ns _ => exact modify fun _ => rfl
  | stackLimit sp => exact stackLimit sp
  | fetchWord va =>
    intro m
    exact ref (ofRead (read_cpuReadWordGen va m.cpu.mode false)) m
  | readWord va => exact ref (ofRead (read_cpuReadWord va))
  | writeWord va value => exact ref (ref_cpuWriteWord va value)
  | readByte va => exact ref (ofRead (read_cpuReadByte va))
  | writeByte va value => exact ref (ref_cpuWriteByte va value)

theorem basic (hx : BasicBuilt x) : Respects Undisturbed x :=
  hx.respects refl trans fun h => basicOp h

end Undisturbed

/-- After its dispatch is logged, a trap disturbs nothing more. -/
theorem doTrap_undisturbed (vector : Word) (m : Machine) :
    Undisturbed ⟨m.cpu, m.events ++ [.dispatch vector m.cpu.regs.psw (m.cpu.regs.r regPc)]⟩
      (final (doTrap vector m)) := by
  have htrans := Undisturbed.trans
  have hread (va : Word) : Respects Undisturbed (cpuReadWordGen va 0 true) :=
    Undisturbed.ref (ofRead (read_cpuReadWordGen va 0 true))
  have hpush (value : Word) : Respects Undisturbed (pushWord value) :=
    Undisturbed.basic (basic_pushWord value)
  have hctl (b : Bool) :
      Respects Undisturbed (modifyCpu fun s => { s with ctl.inTrapPush := b }) :=
    Undisturbed.modify fun _ => rfl
  have hpsw (newPsw oldPsw : Word) : Respects Undisturbed
      (modifyCpu fun s => putPsw s (trapPsw newPsw (curMode oldPsw))) := by
    refine Undisturbed.modify fun s => ?_
    rw [putPsw_eq]
  have hcomplete : Respects Undisturbed
      (modifyCpu fun s => { s with mmu.mmr0 := s.mmu.mmr0 ||| mmr0Ic }) :=
    Undisturbed.modify fun _ => rfl
  have hget : Respects Undisturbed getCpu := Undisturbed.refl
  have htail : Respects Undisturbed (do
      let newPc ← cpuReadWordGen vector 0 true
      let newPsw ← cpuReadWordGen (vector + 2) 0 true
      modifyCpu fun s => putPsw s (trapPsw newPsw (curMode m.cpu.regs.psw))
      modifyCpu fun s => { s with ctl.inTrapPush := true }
      pushWord m.cpu.regs.psw
      pushWord (m.cpu.regs.r regPc)
      modifyCpu fun s => { s with ctl.inTrapPush := false }
      setReg regPc newPc
      modifyCpu fun s => { s with mmu.mmr0 := s.mmu.mmr0 ||| mmr0Ic }
      let s ← getCpu
      whenM (!s.ctl.servicingStackTrap) (checkStackLimit (s.regs.r regSp))) := by
    refine (hread _).bind htrans fun newPc => (hread _).bind htrans fun newPsw =>
      (hpsw _ _).bind htrans fun _ => (hctl true).bind htrans fun _ =>
      (hpush _).bind htrans fun _ => (hpush _).bind htrans fun _ => ?_
    refine (hctl false).bind htrans fun _ =>
      (Undisturbed.basic (basic_setReg _ _)).bind htrans fun _ =>
      hcomplete.bind htrans fun _ => hget.bind htrans fun s => ?_
    unfold whenM
    split
    · exact Undisturbed.stackLimit _
    · exact respects_pure Undisturbed.refl ()
  exact htail _

/-! ## Grants -/

/-- An access of a device register. -/
inductive RegAccess (s t : Cpu) : Prop
  | rest : t.dev = s.dev → RegAccess s t
  | read (a : Word) : RegRead s a t → RegAccess s t
  | write (a value : Word) : RegWrite s a value t → RegAccess s t

/-- The devices change by accesses of their registers only. -/
abbrev RegAccesses : Cpu → Cpu → Prop := Relation.ReflTransGen RegAccess

theorem regAccesses_relation : DeviceRelation fun m m' => RegAccesses m.cpu m'.cpu where
  trans _ _ _ h h' := h.trans h'
  same _ _ h _ := .single (.rest h)
  read _ a _ h := .single (.read a (ioReadReg_regRead h))
  write _ a value _ h := .single (.write a value (ioWriteReg_regWrite h))

/-- A call of the step that grants one request: from the state the grant leaves, it takes the trap
through the vector and counts it. Nothing else is taken, the processor waits no more, and the
devices change by the accesses of the trap only. -/
structure Grants (s : Cpu) (vec : Word) (granted : Cpu) : Prop where
  step : cpuStep s = stepResult ((do doTrap vec; modifyCpu countInstr) ⟨granted, []⟩)
  vectors : vectorsOf (cpuStep s).events = [vec]
  awake : (cpuStep s).cpu.ctl.waiting = false
  accesses : RegAccesses granted (cpuStep s).cpu

theorem grants_of_step {s granted : Cpu} {vec : Word}
    (hstep : cpuStep s = stepResult ((do doTrap vec; modifyCpu countInstr) ⟨granted, []⟩))
    (hwaiting : granted.ctl.waiting = false) : Grants s vec granted := by
  have hcount : Respects Undisturbed (modifyCpu countInstr) := Undisturbed.modify fun _ => rfl
  have htrap := doTrap_undisturbed vec ⟨granted, []⟩
  have hrun : Undisturbed
      ⟨granted, [.dispatch vec granted.regs.psw (granted.regs.r regPc)]⟩
      (final ((do doTrap vec; modifyCpu countInstr) ⟨granted, []⟩)) := by
    rw [bind_apply]
    cases hx : doTrap vec ⟨granted, []⟩ with
    | ok u m =>
      rw [hx] at htrap
      exact Undisturbed.trans _ _ _ htrap (hcount m)
    | error e m =>
      rw [hx] at htrap
      exact htrap
  have hfinal (r : EStateM.Result Unit Machine Unit) :
      (⟨(stepResult r).cpu, (stepResult r).events⟩ : Machine) = final r := by
    cases r <;> rfl
  have hR := regAccesses_relation.programs
  have hacc : RegAccesses granted
      (final ((do doTrap vec; modifyCpu countInstr) ⟨granted, []⟩)).cpu :=
    (hR.unit (unit_doTrap vec)).bind hR.trans
      (fun _ => hR.modify (f := countInstr) fun _ => .of_mem rfl rfl rfl rfl) ⟨granted, []⟩
  rw [← hfinal, ← hstep] at hrun hacc
  exact ⟨hstep, hrun.vectors, hrun.waiting.trans hwaiting, hacc⟩

/-! ## The bits of no device -/

/-- Only devices request interrupts. -/
def NoStrays (s : Cpu) : Prop := strayRequests s.dev.intReq = 0

theorem noStrays_zero {s : Cpu} (h : s.dev.intReq = 0) : NoStrays s := by
  rw [NoStrays, h]
  rfl

theorem noStrays_relation : DeviceRelation fun m m' => NoStrays m.cpu → NoStrays m'.cpu where
  trans _ _ _ h h' hm := h' (h hm)
  same m m' hd _ hm := by
    unfold NoStrays
    rw [hd]
    exact hm
  read m a p hp hm := (ioReadReg_step m.cpu a p hp).1.strays.trans hm
  write m a value t ht hm := (ioWriteReg_step m.cpu a value t ht).1.strays.trans hm

theorem NoStrays.service {s : Cpu} (h : NoStrays s) : NoStrays (serviceDueEvents s) := by
  refine (serviceDueEvents_step s).strays.trans ?_
  unfold serviceClock
  split
  · exact (clkTick_step (.refl s)).strays.trans h
  · exact h

theorem NoStrays.acknowledge {s : Cpu} (h : NoStrays s) (p : Pending) :
    NoStrays (acknowledge p s) := by
  cases p with
  | device d =>
    let keep : BitVec 32 := (~~~(1#16 <<< d.bit)).setWidth 32
    have hzero : s.dev.intReq &&& ~~~0xFF = 0 := h
    show (s.dev.intReq &&& keep) &&& ~~~0xFF = 0
    rw [BitVec.and_assoc, BitVec.and_comm keep, ← BitVec.and_assoc, hzero]
    exact BitVec.zero_and
  | _ => exact h

theorem BusOp.noStrays (op : BusOp) {s : Cpu} (h : NoStrays s) : NoStrays (op.apply s) := by
  have hr := DeviceStep.refl s
  have hdevice {t : Cpu} (hd : DeviceStep s t) : NoStrays t := hd.strays.trans h
  have hR := noStrays_relation
  cases op with
  | step =>
    refine hR.programs.cpuStep (fun m _ => noStrays_zero rfl) (fun p m hm => hm.acknowledge p)
      (fun m acct hm => ?_) s h
    have hacct : NoStrays { m.cpu with acct := acct } := hm
    exact hacct.service
  | reset => exact noStrays_zero rfl
  | init => exact noStrays_zero rfl
  | read a =>
    show NoStrays (((ioReadReg s a).map Prod.snd).getD s)
    cases hp : ioReadReg s a with
    | none => exact h
    | some p => exact hR.read ⟨s, []⟩ a p hp h
  | write a value =>
    show NoStrays ((ioWriteReg s a value).getD s)
    cases ht : ioWriteReg s a value with
    | none => exact h
    | some t => exact hR.write ⟨s, []⟩ a value t ht h
  | tick => exact hdevice (clkTick_step hr)
  | input ch => exact hdevice (consoleInput_step hr ch)
  | txPoll => exact hdevice (consoleTxPoll_step hr)
  | rkPoll => exact hdevice (rkPoll_step hr)
  | rpPoll => exact hdevice (rpPoll_step hr)
  | tmPoll => exact hdevice (tmPoll_step hr)
  | rlPoll => exact hdevice (rlPoll_step hr)
  | acknowledge d => exact h.acknowledge (.device d)
  | _ => exact h

theorem reached_noStrays {model : Model} {s : Cpu} (h : Reached model s) : NoStrays s :=
  h.invariant (noStrays_zero rfl) fun op _ hs => op.noStrays hs

/-- With no stray bits set, an acknowledge clears the bit of the device and no other. -/
theorem NoStrays.acknowledge_clears {s : Cpu} (h : NoStrays s) (d : IntId) :
    (Pdp11.acknowledge (.device d) s).dev.intReq = (clrInt s d).dev.intReq := by
  show s.dev.intReq &&& (~~~(1#16 <<< d.bit)).setWidth 32 = s.dev.intReq &&& ~~~(1#32 <<< d.bit)
  have hzero : s.dev.intReq &&& ~~~0xFF = 0#32 := h
  have hlow : s.dev.intReq &&& 0xFF = s.dev.intReq := by
    have hsplit := BitVec.and_or_distrib_left (x := s.dev.intReq) (y := 0xFF) (z := ~~~0xFF)
    rw [hzero, BitVec.or_zero] at hsplit
    rw [← hsplit]
    exact BitVec.and_allOnes
  have hmask : 0xFF &&& (~~~(1#16 <<< d.bit)).setWidth 32 = 0xFF &&& ~~~(1#32 <<< d.bit) := by
    cases d <;> decide
  rw [← hlow, BitVec.and_assoc, BitVec.and_assoc, hmask]

/-- An acknowledge drops the request of one device. -/
theorem acknowledge_requests (s : Cpu) (d e : IntId) :
    requests (acknowledge (.device d) s).dev e = (requests s.dev e && decide (e ≠ d)) := by
  have hline := acknowledge_lines (.device d) s e
  have hreq (t : Cpu) : (lines t e).requested = requests t.dev e := by cases e <;> rfl
  rw [← hreq, ← hreq, hline]
  by_cases h : e = d
  · subst h
    simp [InterruptLine.acknowledge]
  · have hne : Pending.device d ≠ Pending.device e := fun he => h (Pending.device.inj he).symm
    simp [hne, h]

/-! ## Arbitration -/

/-- With `D` the highest level of the devices, `P` that of the program requests and `I` the priority
of the processor, nothing is granted unless one of the first two exceeds the third; a device above
`I` and not below `P` is granted if there is one, else the program request. -/
theorem interrupt_arbitration {s : Cpu} (hrun : s.ctl.halted = false)
    (htrace : s.ctl.tracePending = false) (hyellow : s.ctl.stackYellowPending = false) :
    let D := deviceLevel s.dev
    let P := programLevel s.dev.pirq
    let I := (priority s.regs.psw).toNat
    (max D P ≤ I → cpuStep s =
      if s.ctl.waiting then ⟨idleSkip s, [], false⟩ else stepResult (stepInstr ⟨s, []⟩)) ∧
    (I < D → P ≤ D → ∃ d, Served s.dev d ∧ ∃ granted, Grants s d.vec granted ∧
      granted = { s with ctl.waiting := false, dev.intReq := granted.dev.intReq } ∧
      (∀ e, requests granted.dev e = (requests s.dev e && decide (e ≠ d))) ∧
      ∀ model, Reached model s → granted.dev.intReq = (clrInt s d).dev.intReq) ∧
    (I < max D P → ¬(I < D ∧ P ≤ D) → Grants s vecPirq { s with ctl.waiting := false }) := by
  intro D P I
  rcases pendingDispatch_eq htrace hyellow with ⟨hmax, hp⟩ | ⟨hI, hP, d, hd, hp⟩ | ⟨hI, hn, hp⟩
  · refine ⟨fun _ => ?_, fun hI _ => absurd hI (by omega), fun hI _ => absurd hI (by omega)⟩
    cases hw : s.ctl.waiting with
    | true => exact cpuStep_idle hrun hp hw
    | false => exact cpuStep_instr hrun hp hw
  · refine ⟨fun h => absurd h (by omega), fun _ _ => ⟨d, hd, acknowledge (.device d) s, ?_, rfl,
      acknowledge_requests s d, fun model hs => (reached_noStrays hs).acknowledge_clears d⟩,
      fun _ hn => absurd ⟨hI, hP⟩ hn⟩
    refine grants_of_step ?_ rfl
    rw [cpuStep_dispatch hrun hp]
    rfl
  · refine ⟨fun h => absurd h (by omega), fun hI hP => absurd ⟨hI, hP⟩ hn, fun _ _ => ?_⟩
    refine grants_of_step ?_ rfl
    rw [cpuStep_dispatch hrun hp]
    rfl

/-- The clock, the console and program level 6 request at once, at priority 5. -/
def contested : Cpu :=
  putPirq (setInt (setInt (putPsw cpuCreate 0o240) .tto) .clk) 0o040000

/-- The clock wins, and the console keeps its request. -/
theorem contested_clock : ∃ granted, Grants contested 0o100 granted ∧
    requests granted.dev .tto = true ∧ requests granted.dev .clk = false := by
  obtain ⟨-, hdevice, -⟩ := interrupt_arbitration (s := contested) rfl rfl rfl
  obtain ⟨d, hd, granted, hg, -, hreq, -⟩ := hdevice (by decide) (by decide)
  have hlevel : deviceLevel contested.dev = 6 := by decide
  obtain rfl : d = .clk := by
    have htop := hd.top
    rw [hlevel] at htop
    cases d <;> first | rfl | exact absurd htop (by decide)
  refine ⟨granted, hg, ?_, ?_⟩ <;> rw [hreq] <;> decide

end Pdp11
