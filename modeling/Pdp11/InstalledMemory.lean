import Pdp11.UnitEffects
import Pdp11.DmaStores
import Pdp11.BusOps

namespace Pdp11

open FaultState GuardedRun

/-! The memory above the installed one, over every run. -/

/-! ## Transfers that stay in installed memory -/

/-- Every word a register write stores by DMA is installed. -/
def WriteInside (s : Cpu) (a value : Word) : Prop :=
  ∀ pa, DmaStore s a value pa → pa < s.cfg.memTop

/-- Every word the tape stores when it completes is installed. -/
def TapeInside (s : Cpu) : Prop := ∀ pa, TapeStore s pa → pa < s.cfg.memTop

/-- The controllers that transfer, and their way to memory, are the same. -/
structure SameControllers (s t : Cpu) : Prop extends SameRoute s t where
  rk : t.dev.rk = s.dev.rk
  rp : t.dev.rp = s.dev.rp
  tm : t.dev.tm = s.dev.tm
  rl : t.dev.rl = s.dev.rl

/-- The states in which a call of the step from `s` may stand once it has made the register writes
`ws`, as far as the controllers can tell. -/
inductive Passes (s : Cpu) : List (Word × Word) → Cpu → Prop
  | start : Passes s [] s
  | processor {ws : List (Word × Word)} {u t : Cpu} :
      Passes s ws u → SameControllers u t → Passes s ws t
  | read {ws : List (Word × Word)} {u : Cpu} {a : Word} {p : Word × Cpu} :
      Passes s ws u → ioReadReg u a = some p → Passes s ws p.2
  | write {ws : List (Word × Word)} {u : Cpu} (a value : Word) :
      Passes s ws u → Passes s (ws ++ [(a, value)]) ((ioWriteReg u a value).getD u)

/-- Each register write of a call, in the state it is made in, stores in installed memory only. -/
def WritesInside (s : Cpu) (ws : List (Word × Word)) : Prop :=
  ∀ before a value after u, ws = before ++ (a, value) :: after → Passes s before u →
    WriteInside u a value

/-- The state in which a call of the step services its due events: after an instruction that
completes, or over an idle skip. -/
def serviced (s : Cpu) : Option Cpu :=
  if s.ctl.halted then none
  else
    match pendingDispatch s with
    | some _ => none
    | none =>
      if s.ctl.waiting then
        if nextEventNs s ≠ noEventNs then
          some (if s.acct.timeNs < nextEventNs s then { s with acct.timeNs := nextEventNs s } else s)
        else none
      else
        match fetchExecute (instrStart s) with
        | .ok word m => some (countInstr (accountTime word m.cpu))
        | .error _ _ => none

/-- An operation whose transfers all stay in installed memory. -/
def StaysInstalled (op : BusOp) (s : Cpu) : Prop :=
  match op with
  | .step => WritesInside s (writesOf (cpuStep s).events) ∧ ∀ t, serviced s = some t → TapeInside t
  | .write a value => WriteInside s a value
  | .tmPoll => TapeInside s
  | .load _ mem => ∀ i, Uninstalled s i → mem i = s.mem i
  | _ => True

/-- Only a write to RKCS, RLCS or CS1 transfers anything. -/
theorem writeInside_of_ne {a : Word} (hrk : a ≠ 0o177404) (hrl : a ≠ 0o174400)
    (hrp : rpRegSel a ≠ some (.rh 0)) (s : Cpu) (value : Word) : WriteInside s a value := by
  intro pa h
  cases h with
  | rk ha => exact absurd ha hrk
  | rl ha => exact absurd ha hrl
  | rp ha => exact absurd ha hrp

/-! ## Steps -/

/-- No word above installed memory has changed. -/
structure Untouched (s t : Cpu) : Prop where
  cfg : t.cfg = s.cfg
  mem : ∀ i, Uninstalled s i → t.mem i = s.mem i

namespace Untouched

variable {s t u : Cpu}

theorem of_mem (hcfg : t.cfg = s.cfg) (hmem : t.mem = s.mem) : Untouched s t :=
  ⟨hcfg, fun i _ => congrFun hmem i⟩

theorem refl (s : Cpu) : Untouched s s := of_mem rfl rfl

theorem trans (h : Untouched s t) (h' : Untouched t u) : Untouched s u := by
  refine ⟨h'.cfg.trans h.cfg, fun i hi => ?_⟩
  have ht : Uninstalled t i := by
    unfold Uninstalled
    rw [h.cfg]
    exact hi
  rw [h'.mem i ht, h.mem i hi]

/-- Stores at installed addresses. -/
theorem of_stores {P : PhysAddr → Prop} (hcfg : t.cfg = s.cfg)
    (hmem : ∀ i, (∀ pa, P pa → memIndex pa ≠ i) → t.mem i = s.mem i)
    (hP : ∀ pa, P pa → pa < s.cfg.memTop) : Untouched s t :=
  ⟨hcfg, fun i hi => hmem i fun pa hpa => (hi.ne (hP pa hpa)).symm⟩

theorem regRead {a : Word} {p : Word × Cpu} (h : ioReadReg s a = some p) : Untouched s p.2 := by
  obtain ⟨hstep, hmem⟩ := ioReadReg_step s a p h
  exact of_mem (by rw [hstep.rest]) hmem

theorem regWrite {a value : Word} (h : WriteInside s a value) :
    Untouched s ((ioWriteReg s a value).getD s) := by
  cases ht : ioWriteReg s a value with
  | none => exact refl s
  | some t => exact of_stores (ioWriteReg_step s a value t ht).1.cfg (fun i => ioWriteReg_word ht) h

theorem service (h : TapeInside s) : Untouched s (serviceDueEvents s) := by
  refine of_stores ?_ (fun i => serviceDueEvents_word) h
  rw [serviceDueEvents_rest]

end Untouched

theorem Passes.trans {s t u : Cpu} {ws ws' : List (Word × Word)} (h : Passes s ws t)
    (h' : Passes t ws' u) : Passes s (ws ++ ws') u := by
  induction h' with
  | start => rwa [List.append_nil]
  | processor _ hc ih => exact ih.processor hc
  | read _ hp ih => exact ih.read hp
  | write a value _ ih =>
    rw [← List.append_assoc]
    exact ih.write a value

theorem WritesInside.left {s : Cpu} {ws ws' : List (Word × Word)}
    (h : WritesInside s (ws ++ ws')) : WritesInside s ws := by
  intro before a value after u hws hu
  refine h before a value (after ++ ws') u ?_ hu
  rw [hws, List.append_assoc]
  rfl

theorem WritesInside.right {s t : Cpu} {ws ws' : List (Word × Word)} (ht : Passes s ws t)
    (h : WritesInside s (ws ++ ws')) : WritesInside t ws' := by
  intro before a value after u hws hu
  refine h (ws ++ before) a value after u ?_ (ht.trans hu)
  rw [hws, List.append_assoc]

/-- A part of a call leaves the memory above the installed one alone, when its register writes
store in installed memory only. -/
def KeepsInstalled (m m' : Machine) : Prop :=
  ∃ es, m'.events = m.events ++ es ∧ Passes m.cpu (writesOf es) m'.cpu ∧
    (WritesInside m.cpu (writesOf es) → Untouched m.cpu m'.cpu)

theorem keepsInstalled_relation : ProgramRelation KeepsInstalled where
  trans m m' m'' := by
    rintro ⟨es, he, hp, hk⟩ ⟨es', he', hp', hk'⟩
    have hws : writesOf (es ++ es') = writesOf es ++ writesOf es' := List.filterMap_append
    refine ⟨es ++ es', by rw [he', he, List.append_assoc], ?_, fun h => ?_⟩
    · rw [hws]
      exact hp.trans hp'
    · rw [hws] at h
      exact (hk h.left).trans (hk' (h.right hp))
  same m m' h := by
    rintro ⟨es, he, hws⟩
    refine ⟨es, he, ?_, fun _ => ⟨h.cfg, h.mem⟩⟩
    rw [hws]
    have hdev := h.dev
    exact Passes.start.processor ⟨⟨h.cfg, h.mmr3, by rw [hdev]⟩, by rw [hdev], by rw [hdev],
      by rw [hdev], by rw [hdev]⟩
  read m a p hp := ⟨[], (List.append_nil _).symm, .read .start hp, fun _ => .regRead hp⟩
  write m a value :=
    ⟨[.ioWrite a value], rfl, .write a value .start, fun h =>
      .regWrite (h [] a value [] m.cpu rfl .start)⟩

/-- The events of a whole call. -/
theorem KeepsInstalled.untouched {s t : Cpu} {m : Machine} (hs : SameControllers s t)
    (hst : Untouched s t) (h : KeepsInstalled ⟨t, []⟩ m)
    (hw : WritesInside s (writesOf m.events)) : Untouched s m.cpu := by
  obtain ⟨es, he, -, hk⟩ := h
  have hes : m.events = es := he
  rw [hes] at hw
  have ht : Passes s [] t := Passes.start.processor hs
  exact hst.trans (hk (hw.right ht))

theorem serviced_idle {s : Cpu} (hh : s.ctl.halted = false) (hp : pendingDispatch s = none)
    (hw : s.ctl.waiting = true) (hnext : nextEventNs s ≠ noEventNs) :
    serviced s = some (if s.acct.timeNs < nextEventNs s then { s with acct.timeNs := nextEventNs s }
      else s) := by
  rw [serviced, hh, hp]
  simp only [hw, if_true, if_pos hnext, Bool.false_eq_true, if_false]

theorem serviced_instr {s : Cpu} {word : Word} {m : Machine} (hh : s.ctl.halted = false)
    (hp : pendingDispatch s = none) (hw : s.ctl.waiting = false)
    (hx : fetchExecute (instrStart s) = .ok word m) :
    serviced s = some (countInstr (accountTime word m.cpu)) := by
  rw [serviced, hh, hp]
  simp only [hw, Bool.false_eq_true, if_false, hx]

/-- An instruction leaves the memory above the installed one alone. -/
theorem fetchExecute_untouched (s : Cpu)
    (h : WritesInside s (writesOf (final (fetchExecute (instrStart s))).events)) :
    Untouched s (final (fetchExecute (instrStart s))).cpu := by
  have hR := keepsInstalled_relation
  obtain hinstr | ⟨m', hf, hr⟩ := hR.fetchExecute_or (instrStart s)
  · exact (hR.trans _ _ _ (hR.start s) hinstr).untouched ⟨.refl s, rfl, rfl, rfl, rfl⟩ (.refl s) h
  · -- RESET, which stores nothing
    have hfetch := hR.beginFetch (instrStart s)
    rw [hf] at hfetch
    rw [hr] at h ⊢
    have ht : Untouched s m'.cpu :=
      (hR.trans _ _ _ (hR.start s) hfetch).untouched ⟨.refl s, rfl, rfl, rfl, rfl⟩ (.refl s) h
    exact ht.trans (.of_mem rfl rfl)

theorem idleSkip_untouched {s : Cpu} (hh : s.ctl.halted = false) (hp : pendingDispatch s = none)
    (hw : s.ctl.waiting = true) (h : ∀ t, serviced s = some t → TapeInside t) :
    Untouched s (idleSkip s) := by
  unfold idleSkip
  dsimp only
  split
  · have ht := Untouched.service (h _ (serviced_idle hh hp hw ‹_›))
    refine Untouched.trans ?_ ht
    split <;> exact .of_mem rfl rfl
  · exact .refl s

theorem cpuStep_untouched {s : Cpu} (h : StaysInstalled .step s) : Untouched s (cpuStep s).cpu := by
  have hR := keepsInstalled_relation
  obtain ⟨hwrites, htape⟩ := h
  have hresult (r : EStateM.Result Unit Machine Unit) :
      (stepResult r).cpu = (final r).cpu ∧ (stepResult r).events = (final r).events := by
    cases r <;> exact ⟨rfl, rfl⟩
  cases hh : s.ctl.halted with
  | true =>
    rw [cpuStep_halted hh]
    exact .refl s
  | false =>
  cases hp : pendingDispatch s with
  | some p =>
    rw [cpuStep_dispatch hh hp, (hresult _).2] at hwrites
    rw [cpuStep_dispatch hh hp, (hresult _).1]
    have hs : SameControllers s (acknowledge p s) := by
      cases p <;> exact ⟨⟨rfl, rfl, rfl⟩, rfl, rfl, rfl, rfl⟩
    have hu : Untouched s (acknowledge p s) := by
      cases p <;> exact .of_mem rfl rfl
    have hd : KeepsInstalled ⟨acknowledge p s, []⟩ (final (dispatchPending p ⟨s, []⟩)) :=
      (hR.unit (unit_doTrap _)).bind hR.trans (fun _ => hR.dispatched p) ⟨acknowledge p s, []⟩
    exact hd.untouched hs hu hwrites
  | none =>
  cases hw : s.ctl.waiting with
  | true =>
    rw [cpuStep_idle hh hp hw]
    exact idleSkip_untouched hh hp hw htape
  | false =>
    rw [cpuStep_instr hh hp hw] at hwrites ⊢
    have hinstr := fetchExecute_untouched s
    cases hx : fetchExecute (instrStart s) with
    | ok word m =>
      rw [stepInstr_complete hx] at hwrites ⊢
      rw [hx] at hinstr
      have hcount : Untouched m.cpu (countInstr (accountTime word m.cpu)) := .of_mem rfl rfl
      have hserve := Untouched.service (htape _ (serviced_instr hh hp hw hx))
      exact ((hinstr hwrites).trans hcount).trans hserve
    | error e m =>
      rw [stepInstr_abort hx] at hwrites ⊢
      rw [(hresult _).2] at hwrites
      rw [(hresult _).1]
      -- RESET itself does not abort
      obtain hx' | ⟨m', -, hr⟩ := hR.fetchExecute_or (instrStart s)
      · rw [hx] at hx'
        have hall := hR.trans _ _ _ (hR.start s) (hR.trans _ _ _ hx' (hR.abortHandler 9 m))
        exact hall.untouched ⟨.refl s, rfl, rfl, rfl, rfl⟩ (.refl s) hwrites
      · rw [hx] at hr
        cases hr

/-! ## Runs -/

theorem BusOp.untouched (op : BusOp) {s : Cpu} (h : StaysInstalled op s) :
    Untouched s (op.apply s) := by
  have hdevice {t : Cpu} (hstep : DeviceStep s t) (hmem : t.mem = s.mem) : Untouched s t :=
    .of_mem (by rw [hstep.rest]) hmem
  cases op with
  | step => exact cpuStep_untouched h
  | reset => exact .of_mem rfl rfl
  | init => exact .of_mem rfl rfl
  | read a =>
    show Untouched s (((ioReadReg s a).map Prod.snd).getD s)
    cases hp : ioReadReg s a with
    | none => exact .refl s
    | some p => exact .regRead hp
  | write a value => exact .regWrite h
  | tick =>
    have hmem : (clkTick s).mem = s.mem := by rw [clkTick_rest]
    exact hdevice (clkTick_step (.refl s)) hmem
  | input ch =>
    refine hdevice (consoleInput_step (.refl s) ch) ?_
    show (consoleInput s ch).mem = s.mem
    unfold consoleInput
    dsimp only
    split <;> rfl
  | txPoll => exact hdevice (consoleTxPoll_step (.refl s)) (consoleTxPoll_noTransfer s).mem
  | rkPoll => exact hdevice (rkPoll_step (.refl s)) (rkPoll_noTransfer s).mem
  | rpPoll => exact hdevice (rpPoll_step (.refl s)) (rpPoll_noTransfer s).mem
  | tmPoll =>
    have hcfg : (Pdp11.tmPoll s).cfg = s.cfg := by rw [(tmPoll_step (.refl s)).rest]
    exact .of_stores hcfg (fun i => tmPoll_word) h
  | rlPoll => exact hdevice (rlPoll_step (.refl s)) (rlPoll_noTransfer s).mem
  | acknowledge d => exact .of_mem rfl rfl
  | load r mem => exact ⟨rfl, h⟩
  | setHalted halted => exact .of_mem rfl rfl
  | rkAttach disk words => exact .of_mem rfl rfl
  | rpAttach disk words => exact .of_mem rfl rfl
  | tmAttach tape len wrp => exact .of_mem rfl rfl
  | rlAttach disk words => exact .of_mem rfl rfl
  | rxAttach disk bytes => exact .of_mem rfl rfl

/-- In a run whose transfers stay in installed memory no operation changes a word above it. -/
theorem installed_memory_kept {s t : Cpu} (h : BusRun StaysInstalled s t) {i : BitVec 21}
    (hi : Uninstalled s i) : t.mem i = s.mem i := by
  have hrun : Untouched s t :=
    Run.invariant (fun op u hop hu => hu.trans (op.untouched hop)) h (.refl s)
  exact hrun.mem i hi

/-- A one-word READ set up on an RK05 whose words are all 1, to bus address 0. -/
def readReady (s : Cpu) : Cpu :=
  BusOp.apply (.write 0o177406 0o177777) (BusOp.apply (.rkAttach (some fun _ => 1) 4) s)

theorem BusRun.readReady {s t : Cpu} (h : BusRun StaysInstalled s t) :
    BusRun StaysInstalled s (readReady t) :=
  (BusRun.next h (.rkAttach _ _) trivial).next (.write 0o177406 0o177777)
    (writeInside_of_ne (by decide) (by decide) (by decide) _ _)

/-- A machine with 64 KB that executes one instruction and reads a word to address 0. -/
theorem read_word_kept :
    (BusOp.apply (.write 0o177404 0o5) (readReady (cpuStep (cpuCreateModel .m1120)).cpu)).mem
      0o100000 = (cpuCreateModel .m1120).mem 0o100000 := by
  have hwrites : writesOf (cpuStep (cpuCreateModel .m1120)).events = [] := by decide +kernel
  have htape : (serviced (cpuCreateModel .m1120)).map (fun t => t.dev.tm.busy) = some false := by
    decide +kernel
  have hstep : StaysInstalled .step (cpuCreateModel .m1120) := by
    refine ⟨fun before a value after u hws => ?_, fun t ht pa hpa => ?_⟩
    · rw [hwrites] at hws
      simp at hws
    · rw [ht] at htape
      have hbusy : t.dev.tm.busy = false := Option.some.inj htape
      exact absurd (hbusy.symm.trans hpa.1.1) Bool.false_ne_true
  have hrun := ((BusRun.start StaysInstalled _).next .step hstep).readReady
  have hread : WriteInside (readReady (cpuStep (cpuCreateModel .m1120)).cpu) 0o177404 0o5 := by
    intro pa hpa
    have hwords : rkWords (rkCommand (readReady (cpuStep (cpuCreateModel .m1120)).cpu) 0o5) = [0] := by
      decide +kernel
    cases hpa with
    | rk _ _ _ hmem =>
      rw [hwords] at hmem
      obtain rfl := List.mem_singleton.1 hmem
      decide +kernel
    | rl ha => exact absurd ha (by decide)
    | rp ha => exact absurd ha (by decide)
  exact installed_memory_kept (hrun.next (.write 0o177404 0o5) hread) (by decide +kernel)

/-- With an address extension bit set, the same READ stores in the word at 64 KB, the first that is
not installed. -/
theorem installed_memory_exceeded :
    ¬∀ (model : Model) (s : Cpu), Reached model s → ∀ (a value : Word) (i : BitVec 21),
      Uninstalled s i → (BusOp.apply (.write a value) s).mem i = s.mem i := by
  intro h
  have hreached : Reached .m1120 (readReady (cpuCreateModel .m1120)) :=
    (Reached.create .m1120).next _ |>.next _
  have hstored : (BusOp.apply (.write 0o177404 0o25) (readReady (cpuCreateModel .m1120))).mem
      0o100000 = 1 := by decide +kernel
  have hkept := h .m1120 _ hreached 0o177404 0o25 0o100000 (by decide +kernel)
  rw [hstored] at hkept
  exact absurd hkept (by decide +kernel)

end Pdp11
