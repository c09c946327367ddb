import Pdp11.Schedule

namespace Pdp11

open EventSchedule

/-! The idle skip of a waiting processor against idling in small increments. -/

/-- Let `n` nanoseconds of emulated time pass. -/
def advanceTime (n : ℕ) (s : Cpu) : Cpu :=
  { s with acct.timeNs := s.acct.timeNs + BitVec.ofNat 64 n }

/-- One increment of fine-grained idling. -/
def idleStep (s : Cpu) (d : Time) : Cpu :=
  serviceDueEvents { s with acct.timeNs := s.acct.timeNs + d }

theorem idleStep_eq (s : Cpu) (d : Time) :
    idleStep s d = serviceDueEvents (advanceTime d.toNat s) := by
  rw [idleStep, advanceTime, BitVec.ofNat_toNat, BitVec.setWidth_eq]

theorem advanceTime_add (a b : ℕ) (s : Cpu) :
    advanceTime b (advanceTime a s) = advanceTime (a + b) s := by
  simp only [advanceTime, BitVec.ofNat_add, BitVec.add_assoc]

/-! ## Polls before their deadlines -/

theorem serviceClock_inert {s : Cpu} (h : s.dev.clkTickNs ≠ 0 → s.acct.timeNs < s.dev.clkNextNs) :
    serviceClock s = s := by
  unfold serviceClock
  refine if_neg ?_
  rintro ⟨h0, hle⟩
  exact BitVec.not_lt.2 hle (h h0)

/-- A poll gated on a deadline ahead does nothing. -/
theorem gated_inert {busy : Bool} {now done : Time} (h : Later now (busy, done)) (s t : Cpu) :
    (if busy = true ∧ done ≤ now then t else s) = s := by
  refine if_neg ?_
  rintro ⟨hb, hle⟩
  exact BitVec.not_lt.2 hle (h hb)

theorem tmPoll_inert {s : Cpu} (h : Later s.acct.timeNs (s.dev.tm.busy, s.dev.tm.doneNs)) :
    tmPoll s = s := by
  unfold tmPoll
  refine if_pos ?_
  by_cases hb : s.dev.tm.busy = true
  · exact .inr (h hb)
  · exact .inl (by simpa using hb)

/-- Strictly before every deadline, servicing changes nothing. -/
theorem serviceDueEvents_inert {s : Cpu} (h : ∀ p ∈ deadlines s.dev, Later s.acct.timeNs p) :
    serviceDueEvents s = s := by
  simp only [deadlines, completions, List.forall_mem_cons, List.not_mem_nil, false_implies,
    implies_true, and_true] at h
  obtain ⟨hclk, htto, hrk, hrp, htm, hrl⟩ := h
  have h0 : serviceClock s = s := serviceClock_inert fun h0 => hclk (by simpa using h0)
  have h1 : consoleTxPoll s = s := gated_inert htto s _
  have h2 : rkPoll s = s := gated_inert hrk s _
  have h3 : rpPoll s = s := gated_inert hrp s _
  have h4 : tmPoll s = s := tmPoll_inert htm
  have h5 : rlPoll s = s := gated_inert hrl s _
  unfold serviceDueEvents
  simp only [h0, h1, h2, h3, h4, h5, ite_self]

/-! ## The skip -/

/-- The earliest deadline is one of them, unless none is active. -/
theorem earliest_mem (ps : List (Bool × Time)) (t : Time) :
    earliest ps t = t ∨ ∃ p ∈ ps, p.1 = true ∧ p.2 = earliest ps t := by
  induction ps generalizing t with
  | nil => exact .inl rfl
  | cons p ps ih =>
    have hc : earliest (p :: ps) t = earliest ps (earlier p.1 p.2 t) := rfl
    rw [hc]
    obtain h | ⟨q, hq, ha, he⟩ := ih (earlier p.1 p.2 t)
    · rw [h]
      unfold earlier
      split
      · next hp => exact .inr ⟨p, List.mem_cons_self, hp.1, rfl⟩
      · exact .inl rfl
    · exact .inr ⟨q, List.mem_cons_of_mem _ hq, ha, he⟩

section
variable {s : Cpu}

theorem idleSkip_jump (hn : nextEventNs s ≠ noEventNs) (ht : s.acct.timeNs < nextEventNs s) :
    idleSkip s =
      serviceDueEvents (advanceTime ((nextEventNs s).toNat - s.acct.timeNs.toNat) s) := by
  have htime : s.acct.timeNs + BitVec.ofNat 64 ((nextEventNs s).toNat - s.acct.timeNs.toNat) =
      nextEventNs s := by
    rw [BitVec.lt_def] at ht
    apply BitVec.eq_of_toNat_eq
    rw [BitVec.toNat_add, BitVec.toNat_ofNat]
    have hb := (nextEventNs s).isLt
    omega
  unfold idleSkip
  simp only [if_pos hn, if_pos ht, advanceTime, htime]

/-- Before the earliest deadline no event is due. -/
theorem advanceTime_inert {k : ℕ} (hk : k < (nextEventNs s).toNat - s.acct.timeNs.toNat) :
    serviceDueEvents (advanceTime k s) = advanceTime k s := by
  refine serviceDueEvents_inert ?_
  intro p hp ha
  have hle : nextEventNs s ≤ p.2 := nextEventNs_le hp ha
  show s.acct.timeNs + BitVec.ofNat 64 k < p.2
  rw [BitVec.le_def] at hle
  rw [BitVec.lt_def, BitVec.toNat_add, BitVec.toNat_ofNat]
  have hb := (nextEventNs s).isLt
  omega

/-- With nothing to dispatch and every deadline ahead, the step of a waiting processor comes to
idling in any positive increments up to the next event. -/
theorem idle_skip_eq_increments (hh : s.ctl.halted = false) (hw : s.ctl.waiting = true)
    (hp : pendingDispatch s = none) (hn : nextEventNs s ≠ noEventNs)
    (hl : ∀ p ∈ deadlines s.dev, Later s.acct.timeNs p) (ds : List Time) (hpos : ∀ d ∈ ds, 0 < d)
    (hsum : (ds.map BitVec.toNat).sum = (nextEventNs s).toNat - s.acct.timeNs.toNat) :
    (cpuStep s).cpu = ds.foldl idleStep s := by
  have ht : s.acct.timeNs < nextEventNs s := by
    obtain h | ⟨p, hp, ha, he⟩ := earliest_mem (deadlines s.dev) noEventNs
    · exact absurd h hn
    · rw [nextEventNs_eq, ← he]
      exact hl p hp ha
  have hne : ds.map BitVec.toNat ≠ [] := by
    intro hnil
    rw [hnil, List.sum_nil] at hsum
    rw [BitVec.lt_def] at ht
    omega
  have hpos' : ∀ n ∈ ds.map BitVec.toNat, 0 < n := by
    intro n hmem
    obtain ⟨d, hd, rfl⟩ := List.mem_map.1 hmem
    exact BitVec.lt_def.1 (hpos d hd)
  have hinert : ∀ k, 0 < k → k < (ds.map BitVec.toNat).sum →
      serviceDueEvents (advanceTime k s) = advanceTime k s := by
    intro k _ hk
    exact advanceTime_inert (hsum ▸ hk)
  have hfold := foldl_advance advanceTime_add _ s hpos' hne hinert
  rw [cpuStep_idle hh hp hw, idleSkip_jump hn ht, ← hsum, ← hfold, List.foldl_map]
  refine congrArg (fun f => ds.foldl f s) ?_
  funext t d
  exact (idleStep_eq t d).symm

end

theorem transmit_idle :
    (cpuStep (cpuRun transmit 2)).cpu =
      [1, 400000, 597749].foldl idleStep (cpuRun transmit 2) := by
  have hpos : ∀ d ∈ ([1, 400000, 597749] : List Time), 0 < d := by simp
  have hall : ((deadlines (cpuRun transmit 2).dev).all fun p =>
      decide (Later (cpuRun transmit 2).acct.timeNs p)) = true := by decide +kernel
  have hl : ∀ p ∈ deadlines (cpuRun transmit 2).dev,
      Later (cpuRun transmit 2).acct.timeNs p := fun p hp =>
    of_decide_eq_true (List.all_eq_true.mp hall p hp)
  refine idle_skip_eq_increments ?_ ?_ ?_ ?_ hl _ hpos ?_
  all_goals decide +kernel

end Pdp11
