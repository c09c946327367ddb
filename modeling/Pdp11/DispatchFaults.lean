import Pdp11.AbortedStores
import Pdp11.OperandDecoders

namespace Pdp11

open FaultState

/-! Faults of the dispatches that a call of the step makes before its `setjmp`. -/

/-! ## Words that answer -/

/-- A vector word: even, on a page that Kernel data space may read, in a register or in memory. -/
structure Loads (s : Cpu) (va : Word) : Prop where
  allowed : ¬refused va false 0 true s
  present : ¬Absent s (refPhysical s va 0 true)

/-- No register takes a store at a physical address, and no memory is there. -/
def StoreAbsent (s : Cpu) (pa : PhysAddr) (value : Word) : Prop :=
  if isIopage pa then ioWriteReg s (pa.setWidth 16) value = none else s.cfg.memTop ≤ pa

/-- A word of the current mode's data space that takes a store. -/
structure Stores (s : Cpu) (va value : Word) : Prop where
  allowed : ¬refused va true s.mode true s
  present : ¬StoreAbsent s (refPhysical s va s.mode true) value

/-- The vector word, and the state its read leaves. -/
def loaded (s : Cpu) (va : Word) : Word × Cpu :=
  let pa := refPhysical s va 0 true
  let t := markRef va false 0 true s
  if isIopage pa then (ioReadReg t (pa.setWidth 16)).getD (0, t)
  else (memReadWord t.mem pa, cacheReadCpu pa t)

/-- The state that a store leaves. -/
def stored (s : Cpu) (va value : Word) : Cpu :=
  let pa := refPhysical s va s.mode true
  let t := markRef va true s.mode true s
  if isIopage pa then (ioWriteReg t (pa.setWidth 16) value).getD t
  else { t with mem := memWriteWord t.mem pa value }

/-- The state with the PSW of a vector: the mode and the stack that its pushes use. -/
def entered (s : Cpu) (vector : Word) : Cpu :=
  let (newPsw, t) := loaded (loaded s vector).2 (vector + 2)
  { putPsw t (trapPsw newPsw (curMode s.regs.psw)) with ctl.inTrapPush := true }

/-- The state with a word pushed. -/
def pushed (s : Cpu) (value : Word) : Cpu :=
  stored { s with regs.r := Function.update s.regs.r regSp (pushAddr s) } (pushAddr s) value

/-- The red zone of a Kernel stack, as the end of a trap checks it. -/
def EndsRed (s : Cpu) (sp : Word) : Prop :=
  s.ctl.servicingStackTrap = false ∧ stackZone { s with ctl.inTrapPush := false } sp = .red

/-- The states in which a trap through a vector completes: both words of the vector and both words
of the new frame answer, and the frame ends above the red zone. -/
structure TrapCompletes (s : Cpu) (vector : Word) : Prop where
  pc : Loads s vector
  psw : Loads s (vector + 2)
  first : Stores (entered s vector) (pushAddr (entered s vector)) s.regs.psw
  second : Stores (pushed (entered s vector) s.regs.psw)
    (pushAddr (pushed (entered s vector) s.regs.psw)) (s.regs.r regPc)
  stack : ¬EndsRed (pushed (pushed (entered s vector) s.regs.psw) (s.regs.r regPc))
    ((pushed (pushed (entered s vector) s.regs.psw) (s.regs.r regPc)).regs.r regSp)

/-! ## When a reference returns -/

section
variable {s t : Cpu}

theorem refused_congr (h : SameMap s t) (va : Word) (isWrite : Bool) (mode : Mode) (dspace : Bool) :
    refused va isWrite mode dspace t ↔ refused va isWrite mode dspace s := by
  unfold refused
  rw [h.refError_eq]

theorem loads_congr (hmap : SameMap s t) (hcfg : t.cfg = s.cfg) (va : Word) :
    Loads t va ↔ Loads s va := by
  have hr := refused_congr hmap va false 0 true
  have ha := absent_congr hcfg (refPhysical s va 0 true)
  constructor
  · rintro ⟨h, h'⟩
    rw [hmap.refPhysical_eq] at h'
    exact ⟨mt hr.2 h, mt ha.2 h'⟩
  · rintro ⟨h, h'⟩
    refine ⟨mt hr.1 h, ?_⟩
    rw [hmap.refPhysical_eq]
    exact mt ha.1 h'

theorem sysregWrite_none_congr (h : t.cfg = s.cfg) (a v w : Word) :
    sysregWrite t a v = none ↔ sysregWrite s a w = none := by
  unfold sysregWrite
  rw [h]
  split_ifs
  · rfl
  · simp
  · split <;> simp
  · rfl

/-- Which registers take a store is a matter of the model. -/
theorem ioWriteReg_none_congr (h : t.cfg = s.cfg) (a v w : Word) :
    ioWriteReg t a v = none ↔ ioWriteReg s a w = none := by
  have hubm : isUbm t a = isUbm s a := by
    unfold isUbm
    rw [h]
  unfold ioWriteReg
  rw [hubm]
  iterate 12 refine ite_none_congr ?_
  cases haddr : aprIndex a with
  | none => exact sysregWrite_none_congr h a v w
  | some p => simp

theorem storeAbsent_congr (h : t.cfg = s.cfg) (pa : PhysAddr) (v w : Word) :
    StoreAbsent t pa v ↔ StoreAbsent s pa w := by
  unfold StoreAbsent
  rw [h]
  split
  · exact ioWriteReg_none_congr h _ v w
  · rfl

theorem stores_congr (hmap : SameMap s t) (hcfg : t.cfg = s.cfg) (hmode : t.mode = s.mode)
    (va v w : Word) : Stores t va v ↔ Stores s va w := by
  have hr := refused_congr hmap va true s.mode true
  have ha := storeAbsent_congr hcfg (refPhysical s va s.mode true) v w
  constructor
  · rintro ⟨h, h'⟩
    rw [hmode] at h h'
    rw [hmap.refPhysical_eq] at h'
    exact ⟨mt hr.2 h, mt ha.2 h'⟩
  · rintro ⟨h, h'⟩
    refine ⟨?_, ?_⟩ <;> rw [hmode]
    · exact mt hr.1 h
    · rw [hmap.refPhysical_eq]
      exact mt ha.1 h'

end

/-- The read of a vector word. -/
theorem load_returns (va : Word) (m : Machine) :
    Returns (cpuReadWordGen va 0 true) m (Loads m.cpu va) (loaded m.cpu va).1
      fun m' => m'.cpu = (loaded m.cpu va).2 := by
  have happly := cpuReadWordGen_apply va 0 true m
  have habsent := absent_congr (markRef_cfg va false 0 true m.cpu) (refPhysical m.cpu va 0 true)
  constructor
  · rintro ⟨hr, ha⟩
    rw [if_neg hr] at happly
    rw [← habsent] at ha
    unfold Absent at ha
    rw [happly, readPhysical, loaded]
    split at ha
    · rename_i hio
      obtain ⟨p, hp⟩ := Option.ne_none_iff_exists'.1 ha
      rw [if_pos hio, if_pos hio, ioRead_apply, hp]
      exact ⟨_, rfl, rfl⟩
    · rename_i hio
      rw [if_neg hio, if_neg hio, if_neg ha]
      exact ⟨_, rfl, rfl⟩
  · intro hn
    rw [happly]
    split
    · exact refusal_error va false 0 true m
    · rename_i hr
      have ha : Absent m.cpu (refPhysical m.cpu va 0 true) :=
        not_not.1 fun ha => hn ⟨hr, ha⟩
      rw [readPhysical_absent (habsent.2 ha)]
      rfl

/-- A store to the current mode's data space. -/
theorem store_returns (va value : Word) (m : Machine) :
    Returns (cpuWriteWordMode va m.cpu.mode true value) m (Stores m.cpu va value) ()
      fun m' => m'.cpu = stored m.cpu va value := by
  have happly := cpuWriteWordMode_apply va m.cpu.mode true m value
  have habsent := storeAbsent_congr (markRef_cfg va true m.cpu.mode true m.cpu)
    (refPhysical m.cpu va m.cpu.mode true) value value
  constructor
  · -- allowed and present: the register or the memory word takes it
    rintro ⟨hr, ha⟩
    rw [if_neg hr] at happly
    rw [← habsent] at ha
    unfold StoreAbsent at ha
    rw [happly, writePhysical, stored]
    split at ha
    · rename_i hio
      obtain ⟨u, hu⟩ := Option.ne_none_iff_exists'.1 ha
      rw [if_pos hio, if_pos hio, ioWrite_apply, hu]
      exact ⟨_, rfl, rfl⟩
    · rename_i hio
      rw [if_neg hio, if_neg hio, if_neg ha]
      exact ⟨_, rfl, rfl⟩
  · intro hn
    rw [happly]
    split
    · unfold refusal
      split <;> rfl
    · rename_i hr
      have ha : StoreAbsent m.cpu (refPhysical m.cpu va m.cpu.mode true) value :=
        not_not.1 fun ha => hn ⟨hr, ha⟩
      rw [← habsent] at ha
      unfold StoreAbsent at ha
      unfold writePhysical
      split at ha
      · rename_i hio
        rw [if_pos hio, ioWrite_apply, ha]
        rfl
      · rename_i hio
        rw [if_neg hio, if_pos ha]
        rfl

/-! ## When a trap returns -/

/-- A trap up to its pushes. -/
theorem trapEntry_returns (vector : Word) (m : Machine) :
    Returns (trapEntry vector) m (Loads m.cpu vector ∧ Loads m.cpu (vector + 2))
      (loaded m.cpu vector).1 fun m' => m'.cpu = entered m.cpu vector := by
  have hread := (load_returns vector (dispatching vector m)).and_of_ok fun t ht =>
    (read_kept (read_cpuReadWordGen vector 0 true)).of_ok ht
  refine (hread.bind fun m1 ⟨hm1, hk⟩ => ?_).of_run (trapEntry_apply vector m)
  have hpsw := (load_returns (vector + 2) m1).congr (loads_congr hk.map hk.cfg (vector + 2))
  refine ⟨fun h => ?_, fun h => ?_⟩
  · obtain ⟨m2, h2, hm2⟩ := hpsw.ok h
    rw [bind_ok h2]
    refine ⟨_, rfl, ?_⟩
    show { putPsw m2.cpu (trapPsw (loaded m1.cpu (vector + 2)).1 _) with ctl.inTrapPush := true } = _
    rw [hm2, hm1]
    rfl
  · obtain ⟨e, he⟩ := eq_error_final (hpsw.error h)
    rw [bind_error he]
    rfl

theorem stored_push (s : Cpu) (va value : Word) :
    (stored s va value).ctl.inTrapPush = s.ctl.inTrapPush := by
  have hmark : (markRef va true s.mode true s).ctl = s.ctl := by rw [markRef_rest]
  unfold stored
  dsimp only
  split
  · cases hu : ioWriteReg (markRef va true s.mode true s)
        ((refPhysical s va s.mode true).setWidth 16) value with
    | none => exact congrArg Control.inTrapPush hmark
    | some u =>
      rw [Option.getD_some, (ioWriteReg_step _ _ _ u hu).1.ctl, hmark]
  · exact congrArg Control.inTrapPush hmark

/-- A push of a trap, which skips the stack check. -/
theorem push_returns (value : Word) (m : Machine) (hpush : m.cpu.ctl.inTrapPush = true) :
    Returns (pushWord value) m (Stores m.cpu (pushAddr m.cpu) value) ()
      fun m' => m'.cpu = pushed m.cpu value ∧ m'.cpu.ctl.inTrapPush = true := by
  let m1 := withReg regSp (pushAddr m.cpu) m
  have hexempt : stackExempt m.cpu = true := decide_eq_true (.inl hpush)
  have hzone : stackZone m1.cpu (pushAddr m.cpu) = .fine := if_pos hexempt
  have hrun : pushWord value m = _ := pushWord_apply value m
  rw [hzone] at hrun
  have hstore := store_returns (pushAddr m.cpu) value m1
  have hiff : Stores m1.cpu (pushAddr m.cpu) value ↔ Stores m.cpu (pushAddr m.cpu) value :=
    stores_congr (s := m.cpu) (t := m1.cpu) (.of_mmu rfl) rfl rfl _ _ _
  constructor
  · intro h
    obtain ⟨m2, h2, hm2⟩ := hstore.ok (hiff.2 h)
    refine ⟨m2, hrun.trans h2, hm2, ?_⟩
    rw [hm2, stored_push]
    exact hpush
  · intro h
    rw [hrun]
    exact hstore.error (mt hiff.1 h)

/-- The end of a trap. -/
theorem trapEnd_returns (newPc : Word) (m : Machine) :
    Returns (trapEnd newPc) m (¬EndsRed m.cpu (m.cpu.regs.r regSp)) () fun _ => True := by
  have hrun := trapEnd_apply newPc m
  have hsp : (trapEnded newPc m.cpu).regs.r regSp = m.cpu.regs.r regSp :=
    Function.update_of_ne (show regSp ≠ regPc by decide) newPc m.cpu.regs.r
  have hzone : stackZone (trapEnded newPc m.cpu) (m.cpu.regs.r regSp) =
    stackZone { m.cpu with ctl.inTrapPush := false } (m.cpu.regs.r regSp) := rfl
  have hcheck := checkStackLimit_apply (m.cpu.regs.r regSp) { m with cpu := trapEnded newPc m.cpu }
  rw [hsp] at hrun
  dsimp only at hcheck
  rw [hzone] at hcheck
  unfold EndsRed
  constructor
  · intro h
    rw [hrun, whenM]
    split
    · rename_i hserv
      rw [hcheck]
      cases hz : stackZone { m.cpu with ctl.inTrapPush := false } (m.cpu.regs.r regSp) with
      | red => exact absurd ⟨by simpa using hserv, hz⟩ h
      | fine => exact ⟨_, rfl, trivial⟩
      | yellow => exact ⟨_, rfl, trivial⟩
    · exact ⟨_, rfl, trivial⟩
  · intro h
    obtain ⟨hserv, hz⟩ := not_not.1 h
    rw [hz] at hcheck
    rw [hrun, whenM, if_pos (by simp [hserv]), hcheck]
    rfl

/-- A trap returns exactly when its references do and its frame ends above the red zone. -/
theorem doTrap_isOk (vector : Word) (m : Machine) :
    isOk (doTrap vector m) = true ↔ TrapCompletes m.cpu vector := by
  have hpushes (t : Machine) (ht : t.cpu = entered m.cpu vector) :
      Returns (trapPush m.cpu.regs.psw (m.cpu.regs.r regPc) (loaded m.cpu vector).1) t
        (Stores (entered m.cpu vector) (pushAddr (entered m.cpu vector)) m.cpu.regs.psw ∧
          Stores (pushed (entered m.cpu vector) m.cpu.regs.psw)
            (pushAddr (pushed (entered m.cpu vector) m.cpu.regs.psw)) (m.cpu.regs.r regPc) ∧
          ¬EndsRed (pushed (pushed (entered m.cpu vector) m.cpu.regs.psw) (m.cpu.regs.r regPc))
            ((pushed (pushed (entered m.cpu vector) m.cpu.regs.psw)
              (m.cpu.regs.r regPc)).regs.r regSp))
        () fun _ => True := by
    rw [← ht]
    refine (push_returns m.cpu.regs.psw t (by rw [ht]; rfl)).bind fun t1 h1 => ?_
    rw [← h1.1]
    refine (push_returns (m.cpu.regs.r regPc) t1 h1.2).bind fun t2 h2 => ?_
    rw [← h2.1]
    exact trapEnd_returns _ t2
  have htrap := (trapEntry_returns vector m).bind hpushes
  rw [doTrap_split, htrap.isOk_iff]
  constructor
  · rintro ⟨⟨hpc, hpsw⟩, hfirst, hsecond, hstack⟩
    exact ⟨hpc, hpsw, hfirst, hsecond, hstack⟩
  · intro h
    exact ⟨⟨h.pc, h.psw⟩, h.first, h.second, h.stack⟩

/-! ## A frame in memory -/

/-- What a push to memory leaves of all that a further push depends on: it moves R6. -/
structure PushKept (s t : Cpu) : Prop where
  sp : t.regs.r regSp = pushAddr s
  psw : t.regs.psw = s.regs.psw
  cfg : t.cfg = s.cfg
  ctl : t.ctl = s.ctl
  sys : t.sys = s.sys
  map : SameMap s t

theorem pushed_memory {s : Cpu} (hram : isIopage (refPhysical s (pushAddr s) s.mode true) = false)
    (value : Word) : PushKept s (pushed s value) := by
  let t : Cpu := { s with regs.r := Function.update s.regs.r regSp (pushAddr s) }
  have hmap : SameMap s t := .of_mmu rfl
  have hrest := markRef_rest (pushAddr s) true t.mode true t
  have hmark := markRef_map (pushAddr s) true t.mode true t
  have hio : isIopage (refPhysical t (pushAddr s) t.mode true) = false := by
    rw [hmap.refPhysical_eq]
    exact hram
  have hstored : pushed s value = { markRef (pushAddr s) true t.mode true t with
      mem := memWriteWord (markRef (pushAddr s) true t.mode true t).mem
        (refPhysical t (pushAddr s) t.mode true) value } := by
    refine if_neg ?_
    rw [hio]
    exact Bool.false_ne_true
  rw [hstored]
  refine ⟨?_, ?_, ?_, ?_, ?_, (hmap.trans hmark).trans (.of_mmu rfl)⟩ <;> dsimp only <;> rw [hrest]
  exact Function.update_self regSp (pushAddr s) s.regs.r

theorem PushKept.endsRed {s t : Cpu} (h : PushKept s t) (sp : Word) :
    EndsRed t sp ↔ EndsRed s sp := by
  unfold EndsRed stackZone stackExempt Cpu.mode
  dsimp only
  rw [h.ctl, h.psw, h.sys, h.cfg]

/-- With a frame in memory the condition reads off the state that the vector's PSW selects. -/
theorem trapCompletes_memory {s t : Cpu} {vector : Word} (ht : entered s vector = t)
    (hfirst : isIopage (refPhysical t (pushAddr t) t.mode true) = false)
    (hsecond : isIopage (refPhysical t (pushAddr t - 2) t.mode true) = false) :
    TrapCompletes s vector ↔ Loads s vector ∧ Loads s (vector + 2) ∧
      Stores t (pushAddr t) s.regs.psw ∧ Stores t (pushAddr t - 2) (s.regs.r regPc) ∧
      ¬EndsRed t (pushAddr t - 2) := by
  have hk := pushed_memory hfirst s.regs.psw
  have hmode : (pushed t s.regs.psw).mode = t.mode := congrArg curMode hk.psw
  have hsp : pushAddr (pushed t s.regs.psw) = pushAddr t - 2 := congrArg (· - 2) hk.sp
  have hk' : PushKept (pushed t s.regs.psw) (pushed (pushed t s.regs.psw) (s.regs.r regPc)) := by
    refine pushed_memory ?_ (s.regs.r regPc)
    rw [hsp, hmode, hk.map.refPhysical_eq, hsecond]
  have hstores := stores_congr hk.map hk.cfg hmode (pushAddr t - 2) (s.regs.r regPc) (s.regs.r regPc)
  rw [← hsp] at hstores
  have hends := (hk'.endsRed (pushAddr t - 2)).trans (hk.endsRed (pushAddr t - 2))
  rw [← hends, ← hsp, ← hstores]
  subst ht
  constructor
  · rintro ⟨hpc, hpsw, h1, h2, h3⟩
    exact ⟨hpc, hpsw, h1, h2, hk'.sp ▸ h3⟩
  · rintro ⟨hpc, hpsw, h1, h2, h3⟩
    exact ⟨hpc, hpsw, h1, h2, hk'.sp.symm ▸ h3⟩

/-! ## Faults among the events -/

/-- A run logs no `setjmp`, and a fault exactly when it raises one. -/
def FaultLogged (m : Machine) (returned : Bool) (m' : Machine) : Prop :=
  ∃ es, m'.events = m.events ++ es ∧ Event.setjmp ∉ es ∧
    (returned = true ↔ ∀ vector, Event.fault vector ∉ es)

theorem FaultLogged.trans {m m' m'' : Machine} {returned : Bool} (h : FaultLogged m true m')
    (h' : FaultLogged m' returned m'') : FaultLogged m returned m'' := by
  obtain ⟨es, hes, hjmp, hfault⟩ := h
  obtain ⟨es', hes', hjmp', hfault'⟩ := h'
  refine ⟨es ++ es', by rw [hes', hes, List.append_assoc], by simp [hjmp, hjmp'], ?_⟩
  simp only [List.mem_append, not_or, hfault.1 rfl, not_false_eq_true, true_and, hfault']

theorem faultLogged_quiet {m m' : Machine} (h : m'.events = m.events) : FaultLogged m true m' :=
  ⟨[], by rw [h, List.append_nil], by simp, by simp⟩

theorem faultLogged_fault {α : Type} (vector : Word) :
    Outcomes FaultLogged (cpuBusFault vector : M α) :=
  fun _ => ⟨[.fault vector], rfl, by simp,
    iff_of_false Bool.false_ne_true fun h => h vector (List.mem_singleton_self _)⟩

theorem faultLogged_coreOp {α : Type} {x : M α} (h : CoreOp α x) : Outcomes FaultLogged x := by
  have hone (m : Machine) (e : Event) (s : Cpu) (hjmp : e ≠ .setjmp) (hfault : ∀ v, e ≠ .fault v) :
      FaultLogged m true ⟨s, m.events ++ [e]⟩ :=
    ⟨[e], rfl, by simpa using hjmp.symm, by simpa using fun v => (hfault v).symm⟩
  cases h with
  | fault vector => exact faultLogged_fault vector
  | ioRead a =>
    intro m
    rw [ioRead_apply]
    cases ioReadReg m.cpu a with
    | none => exact faultLogged_fault (α := Word) vecBus m
    | some p => exact faultLogged_quiet rfl
  | ioWrite a value =>
    intro m
    have hlog (s : Cpu) := hone m (.ioWrite a value) s Event.noConfusion fun _ => Event.noConfusion
    rw [ioWrite_apply]
    cases ioWriteReg m.cpu a value with
    | none => exact (hlog m.cpu).trans (faultLogged_fault (α := Unit) vecBus _)
    | some s => exact hlog s
  | dispatch vector psw pc =>
    exact fun m => hone m _ m.cpu Event.noConfusion fun _ => Event.noConfusion
  | _ => exact fun m => faultLogged_quiet rfl

theorem faultLogged_doTrap (vector : Word) : Outcomes FaultLogged (doTrap vector) :=
  (core_doTrap vector).outcomes (fun _ => faultLogged_quiet rfl) (fun _ _ _ _ => .trans)
    faultLogged_coreOp

theorem appends_stepOp {α : Type} {x : M α} (h : StepOp α x) : Respects Appends x := by
  cases h with
  | core h =>
    intro m
    obtain ⟨es, hes, -⟩ := faultLogged_coreOp h m
    exact ⟨es, hes⟩
  | setjmp => exact fun m => ⟨[.setjmp], rfl⟩
  | _ => exact fun m => ⟨[], (List.append_nil _).symm⟩

/-- An instruction logs its events behind its `setjmp`. -/
theorem stepInstr_appends (s : Cpu) :
    Appends (instrStart s) (final (stepInstr ⟨s, []⟩)) := by
  have hrefl := appends_programs.refl
  have htrans := appends_programs.trans
  have hrun := step_fetchExecute.respects hrefl htrans appends_stepOp (instrStart s)
  cases hx : fetchExecute (instrStart s) with
  | ok word m =>
    rw [hx] at hrun
    rw [stepInstr_complete hx]
    exact hrun
  | error e m =>
    rw [hx] at hrun
    rw [stepInstr_abort hx]
    exact htrans _ _ _ hrun (abortHandler_respects hrefl htrans appends_stepOp 9 m)

/-! ## Faults before the `setjmp` -/

/-- Every fault of a call comes behind a `setjmp` of the same call. -/
def FaultsGuarded (es : List Event) : Prop :=
  ∀ before vector rest, es = before ++ Event.fault vector :: rest → Event.setjmp ∈ before

theorem faultsGuarded_setjmp (es : List Event) : FaultsGuarded (.setjmp :: es) := by
  rintro (_ | ⟨e, before⟩) vector rest h
  · cases h
  · cases h
    exact List.mem_cons_self

/-- Where no `setjmp` is made, the faults are guarded if there are none. -/
theorem faultsGuarded_unset {es : List Event} (h : Event.setjmp ∉ es) :
    FaultsGuarded es ↔ ∀ vector, Event.fault vector ∉ es := by
  constructor
  · intro hg vector hv
    obtain ⟨before, rest, rfl⟩ := List.append_of_mem hv
    exact h (List.mem_append_left _ (hg before vector rest rfl))
  · rintro hnone before vector rest rfl
    exact absurd (List.mem_append_right _ List.mem_cons_self) (hnone vector)

theorem dispatch_guarded (p : Pending) (s : Cpu) :
    FaultsGuarded (final (dispatchPending p ⟨s, []⟩)).events ↔
      TrapCompletes (acknowledge p s) p.vec := by
  have hrun : dispatchPending p ⟨s, []⟩ =
      (doTrap p.vec >>= fun _ => modifyCpu (dispatched p)) ⟨acknowledge p s, []⟩ := rfl
  have hevents : (final (dispatchPending p ⟨s, []⟩)).events =
      (final (doTrap p.vec ⟨acknowledge p s, []⟩)).events := by
    rw [hrun, bind_apply]
    cases doTrap p.vec ⟨acknowledge p s, []⟩ <;> rfl
  obtain ⟨es, hes, hjmp, hfault⟩ := faultLogged_doTrap p.vec ⟨acknowledge p s, []⟩
  rw [hevents, hes, List.nil_append, faultsGuarded_unset hjmp, ← hfault]
  exact doTrap_isOk p.vec ⟨acknowledge p s, []⟩

/-- The faults of a call come behind its `setjmp` exactly when the trap it dispatches at its top,
if one is due, completes. -/
theorem faults_guarded_iff (s : Cpu) :
    FaultsGuarded (cpuStep s).events ↔ ∀ p, s.ctl.halted = false → pendingDispatch s = some p →
      TrapCompletes (acknowledge p s) p.vec := by
  have hnone : FaultsGuarded [] := by
    rintro (_ | ⟨e, before⟩) vector rest h <;> cases h
  have hfinal (r : EStateM.Result Unit Machine Unit) : (stepResult r).events = (final r).events := by
    cases r <;> rfl
  cases hh : s.ctl.halted with
  | true =>
    rw [cpuStep_halted hh]
    exact iff_of_true hnone fun _ h => absurd h (by decide)
  | false =>
  cases hp : pendingDispatch s with
  | some p =>
    rw [cpuStep_dispatch hh hp, hfinal, dispatch_guarded]
    refine ⟨?_, fun h => h p rfl rfl⟩
    rintro h _ - ⟨⟩
    exact h
  | none =>
  refine iff_of_true ?_ fun _ _ h => nomatch h
  cases hw : s.ctl.waiting with
  | true =>
    rw [cpuStep_idle hh hp hw]
    exact hnone
  | false =>
    obtain ⟨es, hes⟩ := stepInstr_appends s
    rw [cpuStep_instr hh hp hw, hfinal, hes]
    exact faultsGuarded_setjmp es

/-- An 11/70 with an odd stack pointer, whose program then raised program request 1. -/
def oddStack : Cpu :=
  (BusOp.write iopagePirq 0o1000).apply
    ((BusOp.load (fun i => if i = regSp then 1 else 0) fun _ => 0).apply (cpuCreateModel .m1170))

theorem oddStack_reached : Reached .m1170 oddStack :=
  ((Reached.create .m1170).next _).next _

/-- The grant of the request faults on its push, and no `setjmp` has been made. -/
theorem grant_faults_unguarded :
    ¬∀ (model : Model) (s : Cpu), Reached model s → FaultsGuarded (cpuStep s).events := by
  intro h
  have hevents : (cpuStep oddStack).events = [.dispatch vecPirq 0 0] ++ .fault vecBus :: [] := by
    decide +kernel
  have hjmp := h .m1170 oddStack oddStack_reached [.dispatch vecPirq 0 0] vecBus [] hevents
  exact absurd hjmp (by decide)

end Pdp11
