import Pdp11.StepEffects
import Pdp11.TimingBounds
import Pdp11.Lib.EventSchedule

namespace Pdp11

open FaultState EventSchedule

/-! ## The schedule at a step boundary -/

/-- A completion that has yet to come due. -/
def Later (now : Time) (p : Bool × Time) : Prop := p.1 = true → now < p.2

instance (now : Time) (p : Bool × Time) : Decidable (Later now p) :=
  inferInstanceAs (Decidable (_ → _))

theorem KeptOrLater.later {now : Time} {p q : Bool × Time} (h : KeptOrLater now p q)
    (hp : Later now p) : Later now q := by
  intro hq
  obtain ⟨hb, he⟩ | hl := h hq
  · rw [he]
    exact hp hb
  · exact hl

/-- The clock is due at the next multiple of its period, every outstanding completion after the
present; the extra time of the last instruction is one the processor can charge. -/
structure ScheduleExact (s : Cpu) : Prop where
  period : s.dev.clkTickNs = clkPeriodNs
  clock : s.dev.clkNextNs.toNat = nextTick clkPeriodNs.toNat s.acct.timeNs.toNat
  later : ∀ p ∈ completions s.dev, Later s.acct.timeNs p
  extra : s.acct.eisExtraNs ≤ 6150

theorem forall₂_later {now : Time} {ps qs : List (Bool × Time)}
    (h : List.Forall₂ (KeptOrLater now) ps qs) (hp : ∀ p ∈ ps, Later now p) :
    ∀ q ∈ qs, Later now q := by
  induction h with
  | nil => exact hp
  | cons hpq _ ih =>
    rw [List.forall_mem_cons] at hp ⊢
    exact ⟨hpq.later hp.1, ih hp.2⟩

/-! ## What the parts of a step do to the schedule -/

/-- Emulated time and the clock schedule stay, completions are kept or scheduled later. -/
structure ScheduleKept (m m' : Machine) : Prop where
  time : m'.cpu.acct.timeNs = m.cpu.acct.timeNs
  period : m'.cpu.dev.clkTickNs = m.cpu.dev.clkTickNs
  clock : m'.cpu.dev.clkNextNs = m.cpu.dev.clkNextNs
  later : m.cpu.acct.timeNs.toNat < 2 ^ 63 →
    List.Forall₂ (KeptOrLater m.cpu.acct.timeNs) (completions m.cpu.dev) (completions m'.cpu.dev)
  extra : m.cpu.acct.eisExtraNs ≤ 6150 → m'.cpu.acct.eisExtraNs ≤ 6150

theorem forall₂_kept_trans {now : Time} {ps qs rs : List (Bool × Time)}
    (h : List.Forall₂ (KeptOrLater now) ps qs) (h' : List.Forall₂ (KeptOrLater now) qs rs) :
    List.Forall₂ (KeptOrLater now) ps rs := by
  induction h generalizing rs with
  | nil => exact h'
  | cons hpq _ ih =>
    cases h' with
    | cons hqr hrs => exact .cons (hpq.trans hqr) (ih hrs)

namespace ScheduleKept

theorem refl (m : Machine) : ScheduleKept m m :=
  ⟨rfl, rfl, rfl, fun _ => List.forall₂_same.2 fun p _ => .refl p, id⟩

theorem trans (m₁ m₂ m₃ : Machine) (h : ScheduleKept m₁ m₂) (h' : ScheduleKept m₂ m₃) :
    ScheduleKept m₁ m₃ where
  time := h'.time.trans h.time
  period := h'.period.trans h.period
  clock := h'.clock.trans h.clock
  later ht := by
    have h2 := h'.later (h.time ▸ ht)
    rw [h.time] at h2
    exact forall₂_kept_trans (h.later ht) h2
  extra he := h'.extra (h.extra he)

/-- An invariant schedule survives. -/
theorem exact {m m' : Machine} (h : ScheduleKept m m') (ht : m.cpu.acct.timeNs.toNat < 2 ^ 63)
    (hs : ScheduleExact m.cpu) : ScheduleExact m'.cpu where
  period := h.period.trans hs.period
  clock := by rw [h.clock, h.time, hs.clock]
  later := by
    rw [h.time]
    exact forall₂_later (h.later ht) hs.later
  extra := h.extra hs.extra

end ScheduleKept

section
variable {α : Type}

/-- A change outside the devices and the accounting. -/
theorem kept_modify {f : Cpu → Cpu} (hd : ∀ s, (f s).dev = s.dev)
    (ha : ∀ s, (f s).acct.timeNs = s.acct.timeNs)
    (he : ∀ s, s.acct.eisExtraNs ≤ 6150 → (f s).acct.eisExtraNs ≤ 6150) :
    Respects ScheduleKept (modifyCpu f) := by
  intro m
  have hdev : (f m.cpu).dev = m.cpu.dev := hd m.cpu
  refine ⟨ha m.cpu, ?_, ?_, ?_, he m.cpu⟩
  · exact congrArg Devices.clkTickNs hdev
  · exact congrArg Devices.clkNextNs hdev
  · intro _
    show List.Forall₂ _ _ (completions (f m.cpu).dev)
    rw [hdev]
    exact List.forall₂_same.2 fun p _ => .refl p

theorem kept_io {m : Machine} {s' : Cpu} {es : List Event} (h : IoStep m.cpu s') :
    ScheduleKept m ⟨s', es⟩ :=
  ⟨congrArg Accounting.timeNs h.acct, h.tick, h.next, h.later, by rw [h.acct]; exact id⟩

theorem kept_fault (vector : Word) : Respects ScheduleKept (cpuBusFault vector : M α) :=
  fun m => ⟨rfl, rfl, rfl, (ScheduleKept.refl m).later, id⟩

theorem kept_emit (e : Event) : Respects ScheduleKept (emit e) :=
  fun m => ⟨rfl, rfl, rfl, (ScheduleKept.refl m).later, id⟩

theorem kept_ioRead (a : Word) : Respects ScheduleKept (ioRead a) := by
  intro m
  rw [ioRead_apply]
  cases h : ioReadReg m.cpu a with
  | none => exact kept_fault _ m
  | some p => exact kept_io (ioReadReg_step m.cpu a p h).1.io

theorem kept_ioWrite (a value : Word) : Respects ScheduleKept (ioWrite a value) := by
  intro m
  rw [ioWrite_apply]
  have hm := kept_emit (.ioWrite a value) m
  cases h : ioWriteReg m.cpu a value with
  | none => exact hm.trans _ _ _ (kept_fault vecBus _)
  | some s' => exact kept_io (ioWriteReg_step m.cpu a value s' h).1

/-- RESET drops completions and schedules none. -/
theorem kept_busInit : Respects ScheduleKept (modifyCpu busInit) := by
  intro m
  refine ⟨rfl, rfl, rfl, fun _ => ?_, id⟩
  have drop (p : Bool × Time) (t : Time) : KeptOrLater m.cpu.acct.timeNs p (false, t) := by
    intro hb
    cases hb
  exact .cons (drop _ _) <| .cons (drop _ _) <| .cons (drop _ _) <| .cons (drop _ _) <|
    .cons (.refl _) .nil

end

theorem captureMmu_dev (idx : BitVec 6) (err : Word) (s : Cpu) :
    (captureMmu idx err s).dev = s.dev ∧ (captureMmu idx err s).acct = s.acct := by
  unfold captureMmu
  split
  · exact ⟨rfl, rfl⟩
  · exact ⟨rfl, rfl⟩

theorem mmr1Track_dev (reg : Field3) (delta : Word) (s : Cpu) :
    (mmr1Track reg delta s).dev = s.dev ∧ (mmr1Track reg delta s).acct = s.acct := by
  unfold mmr1Track
  split
  · exact ⟨rfl, rfl⟩
  · exact ⟨rfl, rfl⟩

theorem kept_core {α : Type} {x : M α} (h : CoreOp α x) : Respects ScheduleKept x := by
  cases h with
  | get => exact ScheduleKept.refl
  | fault vector => exact kept_fault vector
  | capture idx err =>
    have hc := captureMmu_dev idx err
    exact kept_modify (fun s => (hc s).1) (fun s => by rw [(hc s).2]) fun s => by
      rw [(hc s).2]
      exact id
  | mark idx isWrite => exact kept_modify (fun _ => rfl) (fun _ => rfl) fun _ => id
  | ioRead a => exact kept_ioRead a
  | ioWrite a value => exact kept_ioWrite a value
  | mem f => exact kept_modify (fun _ => rfl) (fun _ => rfl) fun _ => id
  | cache pa => exact kept_modify (fun _ => rfl) (fun _ => rfl) fun _ => id
  | regs f => exact kept_modify (fun _ => rfl) (fun _ => rfl) fun _ => id
  | ctl f => exact kept_modify (fun _ => rfl) (fun _ => rfl) fun _ => id
  | fp f => exact kept_modify (fun _ => rfl) (fun _ => rfl) fun _ => id
  | track reg delta =>
    have hc := mmr1Track_dev reg delta
    exact kept_modify (fun s => (hc s).1) (fun s => by rw [(hc s).2]) fun s => by
      rw [(hc s).2]
      exact id
  | complete => exact kept_modify (fun _ => rfl) (fun _ => rfl) fun _ => id
  | yellow => exact kept_modify (fun _ => rfl) (fun _ => rfl) fun _ => id
  | red => exact kept_modify (fun _ => rfl) (fun _ => rfl) fun _ => id
  | extra ns hns => exact kept_modify (fun _ => rfl) (fun _ => rfl) fun _ _ => hns
  | init => exact kept_busInit
  | dispatch vector psw pc => exact kept_emit _

theorem kept_acknowledge (p : Pending) : Respects ScheduleKept (modifyCpu (acknowledge p)) := by
  cases p with
  | trace => exact kept_modify (fun _ => rfl) (fun _ => rfl) fun _ => id
  | yellow => exact kept_modify (fun _ => rfl) (fun _ => rfl) fun _ => id
  | device d => exact fun m => ⟨rfl, rfl, rfl, (ScheduleKept.refl m).later, id⟩
  | pirq => exact kept_modify (fun _ => rfl) (fun _ => rfl) fun _ => id

theorem beginInstr_dev (s : Cpu) :
    (beginInstr s).dev = s.dev ∧ (beginInstr s).acct.timeNs = s.acct.timeNs ∧
      (beginInstr s).acct.eisExtraNs = 0 := by
  unfold beginInstr
  extract_lets t
  split
  · exact ⟨rfl, rfl, rfl⟩
  · exact ⟨rfl, rfl, rfl⟩

theorem kept_step {α : Type} {x : M α} (h : StepOp α x) : Respects ScheduleKept x := by
  cases h with
  | core h => exact kept_core h
  | acknowledge p => exact kept_acknowledge p
  | count => exact kept_modify (fun _ => rfl) (fun _ => rfl) fun _ => id
  | begin =>
    refine kept_modify (fun s => (beginInstr_dev s).1) (fun s => (beginInstr_dev s).2.1) ?_
    intro s _
    rw [(beginInstr_dev s).2.2]
    decide
  | setjmp => exact kept_emit _

/-! ## Servicing due events -/

theorem later_idle (now t : Time) : Later now (false, t) := by
  intro h
  cases h

/-- The deadline a poll is gated on has not passed when the poll is not taken. -/
theorem later_gated {busy : Bool} {now done : Time} (h : ¬(busy = true ∧ done ≤ now)) :
    Later now (busy, done) := by
  intro hb
  simp only [not_and, BitVec.not_le] at h
  exact h hb

/-- Each poll leaves its own completion idle or still to come. -/
theorem consoleTxPoll_later (s : Cpu) :
    Later s.acct.timeNs ((consoleTxPoll s).dev.ttoBusy, (consoleTxPoll s).dev.ttoDoneNs) := by
  unfold consoleTxPoll
  split
  · dsimp only
    split <;> exact later_idle _ _
  · next h => exact later_gated h

theorem rkPoll_later (s : Cpu) :
    Later s.acct.timeNs ((rkPoll s).dev.rk.busy, (rkPoll s).dev.rk.doneNs) := by
  unfold rkPoll rkFinish
  split
  · dsimp only
    split <;> exact later_idle _ _
  · next h => exact later_gated h

theorem rpPoll_later (s : Cpu) :
    Later s.acct.timeNs ((rpPoll s).dev.rp.busy, (rpPoll s).dev.rp.doneNs) := by
  unfold rpPoll rpFinish
  split
  · dsimp only
    split <;> exact later_idle _ _
  · next h => exact later_gated h

theorem rlPoll_later (s : Cpu) :
    Later s.acct.timeNs ((rlPoll s).dev.rl.busy, (rlPoll s).dev.rl.doneNs) := by
  unfold rlPoll rlFinish
  split
  · extract_lets _ _ t
    split <;> exact later_idle _ _
  · next h => exact later_gated h

theorem tmSetDone_busy (s : Cpu) : (tmSetDone s).dev.tm.busy = false := by
  unfold tmSetDone
  dsimp only
  split <;> rfl

theorem tmPoll_later (s : Cpu) :
    Later s.acct.timeNs ((tmPoll s).dev.tm.busy, (tmPoll s).dev.tm.doneNs) := by
  unfold tmPoll tmExecute
  split
  · next h =>
    refine later_gated ?_
    rintro ⟨hb, hd⟩
    obtain hn | hl := h
    · simp [hb] at hn
    · exact BitVec.not_lt.2 hd hl
  · dsimp only
    split <;> rw [tmSetDone_busy] <;> exact later_idle _ _

/-- A subsystem is polled while it is busy; an idle one has nothing outstanding. -/
theorem later_polled (s : Cpu) {t : Cpu} {now : Time} (f : Devices → Bool × Time)
    (h : Later now (f t.dev)) : Later now (f (if (f s.dev).1 then t else s).dev) := by
  split
  · exact h
  · next hn =>
    intro h1
    exact absurd h1 hn

/-- After servicing, no completion is due. -/
theorem serviceDueEvents_later {s : Cpu} (ht : s.acct.timeNs.toNat < 2 ^ 63) :
    ∀ p ∈ completions (serviceDueEvents s).dev, Later s.acct.timeNs p := by
  unfold serviceDueEvents
  extract_lets t1 t2 t3 t4 t5
  have h1 : DeviceStep t1 t2 := .ite (consoleTxPoll_step (.refl _)) (.refl _)
  have h2 : DeviceStep t2 t3 := .ite (rkPoll_step (.refl _)) (.refl _)
  have h3 : DeviceStep t3 t4 := .ite (rpPoll_step (.refl _)) (.refl _)
  have h4 : DeviceStep t4 t5 := .ite (tmPoll_step (.refl _)) (.refl _)
  have h5 : DeviceStep t5 (if t5.dev.rl.busy then rlPoll t5 else t5) :=
    .ite (rlPoll_step (.refl _)) (.refl _)
  have l1 := later_polled t1 (fun d => (d.ttoBusy, d.ttoDoneNs)) (consoleTxPoll_later t1)
  have l2 := later_polled t2 (fun d => (d.rk.busy, d.rk.doneNs)) (rkPoll_later t2)
  have l3 := later_polled t3 (fun d => (d.rp.busy, d.rp.doneNs)) (rpPoll_later t3)
  have l4 := later_polled t4 (fun d => (d.tm.busy, d.tm.doneNs)) (tmPoll_later t4)
  have l5 := later_polled t5 (fun d => (d.rl.busy, d.rl.doneNs)) (rlPoll_later t5)
  have a1 : t1.acct = s.acct := by rw [show t1 = serviceClock s from rfl, serviceClock_rest]
  have a2 := h1.acct.trans a1
  have a3 := h2.acct.trans a2
  have a4 := h3.acct.trans a3
  have a5 := h4.acct.trans a4
  -- each completion is still to come after its own poll, and the polls behind it keep it so
  have k1 := (h2.trans (h3.trans (h4.trans h5))).later (a2 ▸ ht)
  have k2 := (h3.trans (h4.trans h5)).later (a3 ▸ ht)
  have k3 := (h4.trans h5).later (a4 ▸ ht)
  have k4 := h5.later (a5 ▸ ht)
  rw [a1] at l1
  rw [a2] at l2 k1
  rw [a3] at l3 k2
  rw [a4] at l4 k3
  rw [a5] at l5 k4
  simp only [completions, List.forall₂_cons, List.Forall₂.nil, and_true] at k1 k2 k3 k4
  simp only [completions, List.forall_mem_cons, List.not_mem_nil, false_implies, implies_true,
    and_true]
  exact ⟨k1.1.later l1, k2.2.1.later l2, k3.2.2.1.later l3, k4.2.2.2.1.later l4, l5⟩

theorem serviceDueEvents_acct (s : Cpu) : (serviceDueEvents s).acct = s.acct := by
  rw [serviceDueEvents_rest]

theorem serviceDueEvents_period (s : Cpu) :
    (serviceDueEvents s).dev.clkTickNs = s.dev.clkTickNs := by
  rw [(serviceDueEvents_step s).tick]
  unfold serviceClock clkTick
  split
  · dsimp only
    split <;> rfl
  · rfl

theorem serviceDueEvents_clock (s : Cpu) :
    (serviceDueEvents s).dev.clkNextNs =
      if s.dev.clkTickNs ≠ 0 ∧ s.dev.clkNextNs ≤ s.acct.timeNs then
        s.dev.clkNextNs + s.dev.clkTickNs.setWidth 64
      else s.dev.clkNextNs := by
  rw [(serviceDueEvents_step s).next]
  unfold serviceClock clkTick
  split
  · dsimp only
    split <;> rfl
  · rfl

/-- Servicing restores the schedule when less than a period has passed since the clock came due. -/
theorem serviceDueEvents_exact {s : Cpu} {now : ℕ} (hp : s.dev.clkTickNs = clkPeriodNs)
    (hc : s.dev.clkNextNs.toNat = nextTick clkPeriodNs.toNat now)
    (he : s.acct.eisExtraNs ≤ 6150) (ht : s.acct.timeNs.toNat < 2 ^ 63)
    (h0 : now ≤ s.acct.timeNs.toNat)
    (h1 : s.acct.timeNs.toNat < nextTick clkPeriodNs.toNat now + clkPeriodNs.toNat) :
    ScheduleExact (serviceDueEvents s) where
  period := (serviceDueEvents_period s).trans hp
  clock := by
    have hperiod : clkPeriodNs ≠ 0 := by decide
    rw [serviceDueEvents_acct, ← nextTick_advance h0 h1, serviceDueEvents_clock, hp, ← hc]
    simp only [hperiod, ne_eq, not_false_eq_true, true_and, BitVec.le_def]
    split
    · next hle =>
      rw [BitVec.toNat_add]
      have hw : (clkPeriodNs.setWidth 64).toNat = clkPeriodNs.toNat := by decide
      have hb : clkPeriodNs.toNat < 2 ^ 32 := by decide
      omega
    · rfl
  later := by
    rw [serviceDueEvents_acct]
    exact serviceDueEvents_later ht
  extra := by
    rw [serviceDueEvents_acct]
    exact he

/-- Time passes the clock's next tick by less than a period within one instruction. -/
theorem finishInstr_exact {word : Word} {s : Cpu} (h : ScheduleExact s)
    (ht : s.acct.timeNs.toNat < 2 ^ 63) (ht' : (finishInstr word s).acct.timeNs.toNat < 2 ^ 63) :
    ScheduleExact (finishInstr word s) := by
  have hn := instrNs_le s word
  have he : s.acct.eisExtraNs.toNat ≤ 6150 := by
    simpa [BitVec.le_def] using h.extra
  have hns : ((instrNs s word + s.acct.eisExtraNs).setWidth 64).toNat ≤ 10500 := by
    rw [BitVec.toNat_setWidth, BitVec.toNat_add]
    omega
  have htime : (countInstr (accountTime word s)).acct.timeNs =
      s.acct.timeNs + (instrNs s word + s.acct.eisExtraNs).setWidth 64 := rfl
  have hadd : (s.acct.timeNs + (instrNs s word + s.acct.eisExtraNs).setWidth 64).toNat =
      s.acct.timeNs.toNat + ((instrNs s word + s.acct.eisExtraNs).setWidth 64).toNat := by
    rw [BitVec.toNat_add]
    omega
  have hlt := lt_nextTick (by decide : 0 < clkPeriodNs.toNat) s.acct.timeNs.toNat
  have hperiod : 10500 < clkPeriodNs.toNat := by decide +kernel
  rw [finishInstr, serviceDueEvents_acct, htime, hadd] at ht'
  refine serviceDueEvents_exact h.period h.clock h.extra ?_ ?_ ?_
  · rw [htime, hadd]
    exact ht'
  · rw [htime, hadd]
    omega
  · rw [htime, hadd]
    omega

/-! ## The next event -/

/-- Every deadline of the scheduler: the clock's while it runs, and the completions'. -/
def deadlines (d : Devices) : List (Bool × Time) := (d.clkTickNs ≠ 0, d.clkNextNs) :: completions d

/-- The earliest active deadline of a list. -/
def earliest (ps : List (Bool × Time)) (t : Time) : Time :=
  ps.foldl (fun t p => earlier p.1 p.2 t) t

theorem nextEventNs_eq (s : Cpu) : nextEventNs s = earliest (deadlines s.dev) noEventNs := rfl

theorem earlier_le (active : Bool) (deadline t : Time) : earlier active deadline t ≤ t := by
  unfold earlier
  split
  · next h => exact BitVec.le_of_lt h.2
  · exact BitVec.le_refl t

theorem earlier_le_deadline {active : Bool} (ha : active = true) (deadline t : Time) :
    earlier active deadline t ≤ deadline := by
  unfold earlier
  split
  · exact BitVec.le_refl deadline
  · next h => exact BitVec.not_lt.1 fun hlt => h ⟨ha, hlt⟩

theorem earliest_le_start (ps : List (Bool × Time)) (t : Time) : earliest ps t ≤ t := by
  induction ps generalizing t with
  | nil => exact BitVec.le_refl t
  | cons p ps ih => exact BitVec.le_trans (ih _) (earlier_le _ _ _)

theorem earliest_le {ps : List (Bool × Time)} {p : Bool × Time} (hp : p ∈ ps) (ha : p.1 = true)
    (t : Time) : earliest ps t ≤ p.2 := by
  induction ps generalizing t with
  | nil => cases hp
  | cons q ps ih =>
    obtain rfl | hp := List.mem_cons.1 hp
    · exact BitVec.le_trans (earliest_le_start ps _) (earlier_le_deadline ha _ _)
    · exact ih hp _

theorem nextEventNs_le {s : Cpu} {p : Bool × Time} (hp : p ∈ deadlines s.dev) (ha : p.1 = true) :
    nextEventNs s ≤ p.2 := earliest_le hp ha _

theorem idleSkip_exact {s : Cpu} (h : ScheduleExact s)
    (ht' : (idleSkip s).acct.timeNs.toNat < 2 ^ 63) : ScheduleExact (idleSkip s) := by
  have htick : s.dev.clkTickNs ≠ 0 := by
    rw [h.period]
    decide
  have hle : nextEventNs s ≤ s.dev.clkNextNs :=
    nextEventNs_le (List.mem_cons_self) (by simpa using htick)
  have hlt := lt_nextTick (by decide : 0 < clkPeriodNs.toNat) s.acct.timeNs.toNat
  have hperiod : 0 < clkPeriodNs.toNat := by decide
  rw [BitVec.le_def, h.clock] at hle
  unfold idleSkip at ht' ⊢
  dsimp only at ht' ⊢
  by_cases hn : nextEventNs s ≠ noEventNs
  · rw [if_pos hn, serviceDueEvents_acct] at ht'
    rw [if_pos hn]
    by_cases hs : s.acct.timeNs < nextEventNs s
    · rw [if_pos hs] at ht' ⊢
      rw [BitVec.lt_def] at hs
      refine serviceDueEvents_exact h.period h.clock h.extra ht' hs.le ?_
      show (nextEventNs s).toNat < _
      omega
    · rw [if_neg hs] at ht' ⊢
      exact serviceDueEvents_exact h.period h.clock h.extra ht' le_rfl (by omega)
  · rw [if_neg hn]
    exact h

/-- One step keeps the schedule exact. -/
theorem cpuStep_exact {s : Cpu} (h : ScheduleExact s) (ht : s.acct.timeNs.toNat < 2 ^ 63)
    (ht' : (cpuStep s).cpu.acct.timeNs.toNat < 2 ^ 63) : ScheduleExact (cpuStep s).cpu := by
  obtain hr | ⟨m, word, hr, hc, -⟩ | ⟨hc, -⟩ :=
    cpuStep_outcome ScheduleKept.refl ScheduleKept.trans kept_step s
  · exact hr.exact ht h
  · rw [hc] at ht' ⊢
    exact finishInstr_exact (hr.exact ht h) (hr.time ▸ ht) ht'
  · rw [hc] at ht' ⊢
    exact idleSkip_exact h ht'

/-! ## Every run -/

theorem cpuReset_exact {s : Cpu} (h : s.acct.eisExtraNs ≤ 6150) : ScheduleExact (cpuReset s) where
  period := rfl
  clock := by
    show (clkPeriodNs.setWidth 64 : Time).toNat = nextTick clkPeriodNs.toNat (0 : Time).toNat
    decide +kernel
  later := by
    intro p hp hb
    simp only [cpuReset, completions, List.mem_cons, List.not_mem_nil, or_false] at hp
    rcases hp with rfl | rfl | rfl | rfl | rfl <;> cases hb
  extra := h

theorem reset_time (s : Cpu) : (cpuReset s).acct.timeNs.toNat < 2 ^ 63 := by
  show (0 : Time).toNat < 2 ^ 63
  decide

theorem ScheduleExact.io {s s' : Cpu} (h : ScheduleExact s) (ht : s.acct.timeNs.toNat < 2 ^ 63)
    (hs : IoStep s s') : ScheduleExact s' := by
  have hkept : ScheduleKept ⟨s, []⟩ ⟨s', []⟩ := kept_io hs
  exact hkept.exact ht h

/-- The states a host brings the machine to by steps, resets, console input, accesses to device
registers, and loading programs and media, while emulated time stays below `2^63` ns. -/
inductive Reachable : Cpu → Prop
  | create (model : Model) : Reachable (cpuCreateModel model)
  | step {s : Cpu} : Reachable s → (cpuStep s).cpu.acct.timeNs.toNat < 2 ^ 63 →
      Reachable (cpuStep s).cpu
  | reset {s : Cpu} : Reachable s → Reachable (cpuReset s)
  | input {s : Cpu} (ch : Byte) : Reachable s → Reachable (consoleInput s ch)
  | read {s : Cpu} {a : Word} {p : Word × Cpu} : Reachable s → ioReadReg s a = some p →
      Reachable p.2
  | write {s s' : Cpu} {a value : Word} : Reachable s → ioWriteReg s a value = some s' →
      Reachable s'
  | load {s : Cpu} (regs : RegFile) (mem : Mem) : Reachable s →
      Reachable { s with regs := regs, mem := mem }
  | rkAttach {s : Cpu} (disk : DiskImage) (words : BitVec 32) : Reachable s →
      Reachable (rkAttach s disk words)
  | rpAttach {s : Cpu} (disk : DiskImage) (words : BitVec 32) : Reachable s →
      Reachable (rpAttach s disk words)
  | tmAttach {s : Cpu} (tape : ByteImage) (len : BitVec 32) (wrp : Bool) : Reachable s →
      Reachable (tmAttach s tape len wrp)
  | rlAttach {s : Cpu} (disk : DiskImage) (words : BitVec 32) : Reachable s →
      Reachable (rlAttach s disk words)
  | rxAttach {s : Cpu} (disk : ByteImage) (bytes : BitVec 32) : Reachable s →
      Reachable (rxAttach s disk bytes)

theorem Reachable.exact {s : Cpu} (h : Reachable s) :
    ScheduleExact s ∧ s.acct.timeNs.toNat < 2 ^ 63 := by
  induction h with
  | create model =>
    have he : (cpuAlloc model).acct.eisExtraNs = 0 := rfl
    exact ⟨cpuReset_exact (he ▸ by decide), reset_time _⟩
  | step _ ht ih => exact ⟨cpuStep_exact ih.1 ih.2 ht, ht⟩
  | reset _ ih => exact ⟨cpuReset_exact ih.1.extra, reset_time _⟩
  | @input s ch _ ih =>
    have hd := consoleInput_step (.refl s) ch
    exact ⟨ih.1.io ih.2 hd.io, hd.acct ▸ ih.2⟩
  | @read s a p _ hp ih =>
    have hd := (ioReadReg_step s a p hp).1
    exact ⟨ih.1.io ih.2 hd.io, hd.acct ▸ ih.2⟩
  | @write s s' a value _ hs ih =>
    have hio := (ioWriteReg_step s a value s' hs).1
    exact ⟨ih.1.io ih.2 hio, hio.acct ▸ ih.2⟩
  | load regs mem _ ih => exact ⟨⟨ih.1.period, ih.1.clock, ih.1.later, ih.1.extra⟩, ih.2⟩
  | rkAttach disk words _ ih => exact ⟨⟨ih.1.period, ih.1.clock, ih.1.later, ih.1.extra⟩, ih.2⟩
  | rpAttach disk words _ ih => exact ⟨⟨ih.1.period, ih.1.clock, ih.1.later, ih.1.extra⟩, ih.2⟩
  | tmAttach tape len wrp _ ih => exact ⟨⟨ih.1.period, ih.1.clock, ih.1.later, ih.1.extra⟩, ih.2⟩
  | rlAttach disk words _ ih => exact ⟨⟨ih.1.period, ih.1.clock, ih.1.later, ih.1.extra⟩, ih.2⟩
  | rxAttach disk bytes _ ih => exact ⟨⟨ih.1.period, ih.1.clock, ih.1.later, ih.1.extra⟩, ih.2⟩

/-- In every reachable state the line clock is due at the first multiple of its period after the
present, and every outstanding completion is due after the present. -/
theorem schedule_exact {s : Cpu} (h : Reachable s) :
    s.dev.clkNextNs.toNat =
        s.dev.clkTickNs.toNat * (s.acct.timeNs.toNat / s.dev.clkTickNs.toNat + 1) ∧
      (s.dev.ttoBusy = true → s.acct.timeNs < s.dev.ttoDoneNs) ∧
      (s.dev.rk.busy = true → s.acct.timeNs < s.dev.rk.doneNs) ∧
      (s.dev.rp.busy = true → s.acct.timeNs < s.dev.rp.doneNs) ∧
      (s.dev.tm.busy = true → s.acct.timeNs < s.dev.tm.doneNs) ∧
      (s.dev.rl.busy = true → s.acct.timeNs < s.dev.rl.doneNs) := by
  obtain ⟨hs, -⟩ := h.exact
  have hl := hs.later
  simp only [completions, List.forall_mem_cons, List.not_mem_nil, false_implies, implies_true,
    and_true] at hl
  refine ⟨?_, hl⟩
  rw [hs.clock, hs.period]
  rfl

/-- `MOV #'A', @#177566`, which starts the console transmitter, and WAIT. -/
def transmit : Cpu :=
  { cpuCreate with
    mem := fun i =>
      if i = 0 then 0o012737 else if i = 1 then 0o101 else if i = 2 then 0o177566 else 1 }

theorem transmit_exact :
    (cpuRun transmit 2).dev.ttoBusy = true ∧
      (cpuRun transmit 2).acct.timeNs < (cpuRun transmit 2).dev.ttoDoneNs := by
  have h0 : Reachable transmit := .load resetRegs _ (.create .m1170)
  have h1 : Reachable (cpuRun transmit 1) := .step h0 (by decide +kernel)
  have h2 : Reachable (cpuRun transmit 2) := .step h1 (by decide +kernel)
  have hb : (cpuRun transmit 2).dev.ttoBusy = true := by decide +kernel
  exact ⟨hb, (schedule_exact h2).2.1 hb⟩

end Pdp11
