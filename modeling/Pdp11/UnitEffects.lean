import Pdp11.TrapReturn

namespace Pdp11

open FaultState

/-! Programs as sequences of references and register updates that keep their own guards. -/

/-- The effects of all instructions but RESET, and of dispatches. -/
inductive UnitOp : (α : Type) → M α → Prop
  | basic {α : Type} {x : M α} : BasicOp α x → UnitOp α x
  | read (va : Word) (mode : Mode) (dspace : Bool) : UnitOp Word (cpuReadWordGen va mode dspace)
  | write (va : Word) (mode : Mode) (dspace : Bool) (value : Word) :
      UnitOp Unit (cpuWriteWordMode va mode dspace value)
  | prevReg (pm cm : Mode) (reg : Field3) (value : Word) :
      UnitOp Unit (modifyCpu (setPrevModeReg pm cm reg value))
  | loadPsw (psw : Word) : UnitOp Unit (modifyCpu fun s => putPsw s psw)
  | spl (word : Word) : UnitOp Unit (opSpl word)
  | ctl (f : Cpu → Control) : UnitOp Unit (modifyCpu fun s => { s with ctl := f s })
  | complete : UnitOp Unit (modifyCpu fun s => { s with mmu.mmr0 := s.mmu.mmr0 ||| mmr0Ic })
  | dispatch (vector psw pc : Word) : UnitOp Unit (emit (.dispatch vector psw pc))

abbrev UnitBuilt {α : Type} (x : M α) : Prop := Built UnitOp α x

theorem unit_of_basic {α : Type} {x : M α} (h : BasicBuilt x) : UnitBuilt x :=
  h.subst fun hx => .op (.basic hx)

/-! ## Instructions and dispatches -/

theorem unit_doTrap (vector : Word) : UnitBuilt (doTrap vector) := by
  refine (unit_of_basic (.op .get)).bind fun _ => (Built.op (.dispatch _ _ _)).bind fun _ =>
    (Built.op (.read _ _ _)).bind fun _ => (Built.op (.read _ _ _)).bind fun _ =>
    (Built.op (.loadPsw _)).bind fun _ => ?_
  refine (Built.op (.ctl fun s => { s.ctl with inTrapPush := true })).bind fun _ =>
    (unit_of_basic (basic_pushWord _)).bind fun _ =>
    (unit_of_basic (basic_pushWord _)).bind fun _ => ?_
  exact (Built.op (.ctl fun s => { s.ctl with inTrapPush := false })).bind fun _ =>
    (unit_of_basic (basic_setReg _ _)).bind fun _ => (Built.op .complete).bind fun _ =>
    (unit_of_basic (.op .get)).bind fun _ => built_whenM (unit_of_basic (.op (.stackLimit _)))

theorem unit_opRti (isRtt : Bool) : UnitBuilt (opRti isRtt) := by
  have htrace : rtiTrace isRtt = fun s => { s with ctl := (rtiTrace isRtt s).ctl } := by
    funext s
    exact rtiTrace_rest isRtt s
  have hctl : UnitBuilt (modifyCpu (rtiTrace isRtt)) := by
    rw [htrace]
    exact .op (.ctl _)
  exact (unit_of_basic basic_popWord).bind fun _ => (unit_of_basic (basic_setReg _ _)).bind
    fun _ => (unit_of_basic basic_popWord).bind fun psw => (Built.op (.loadPsw psw)).bind
    fun _ => hctl

theorem unit_readPrevMode (pm cm : Mode) (dspace : Bool) (src : Operand) :
    UnitBuilt (readPrevMode pm cm dspace src) := by
  cases src with
  | reg r => exact (unit_of_basic (.op .get)).bind fun _ => .pure _
  | imm _ _ => exact .op (.read _ _ _)
  | mem _ => exact .op (.read _ _ _)

theorem unit_writePrevMode (pm cm : Mode) (dspace : Bool) (value : Word) (dst : Operand) :
    UnitBuilt (writePrevMode pm cm dspace value dst) := by
  cases dst with
  | reg r => exact .op (.prevReg _ _ _ _)
  | imm _ _ => exact .op (.write _ _ _ _)
  | mem _ => exact .op (.write _ _ _ _)

theorem unit_opMfp (word : Word) (dspace : Bool) : UnitBuilt (opMfp word dspace) :=
  (unit_of_basic (.op .get)).bind fun _ => (unit_of_basic (basic_decodeOperand _ _)).bind fun _ =>
    (unit_readPrevMode _ _ _ _).bind fun _ => (unit_of_basic (basic_setNzV0 _ _)).bind fun _ =>
    unit_of_basic (basic_pushWord _)

theorem unit_opMtp (word : Word) (dspace : Bool) : UnitBuilt (opMtp word dspace) :=
  (unit_of_basic (.op .get)).bind fun _ => (unit_of_basic basic_popWord).bind fun _ =>
    (unit_of_basic (basic_setNzV0 _ _)).bind fun _ =>
    (unit_of_basic (basic_decodeOperand _ _)).bind fun _ => unit_writePrevMode _ _ _ _ _

theorem unit_of_userOp {α : Type} {x : M α} (h : UserOp α x) : UnitBuilt x := by
  cases h with
  | basic hx => exact .op (.basic hx)
  | wait => exact .op (.ctl fun s => { s.ctl with waiting := true })
  | spl word => exact .op (.spl word)
  | mfp word dspace => exact unit_opMfp word dspace
  | mtp word dspace => exact unit_opMtp word dspace
  | trap vector => exact unit_doTrap vector

/-- Every instruction but RESET. -/
theorem unit_execute {word : Word} (h : word ≠ 5) : UnitBuilt (execute word) := by
  by_cases hw : IsMachineWord word
  · obtain rfl | rfl | rfl | rfl := hw
    · exact .op (.ctl fun s => { s.ctl with halted := true })
    · exact unit_opRti false
    · exact absurd rfl h
    · exact (unit_of_basic (.op .get)).bind fun _ => .ite (unit_opRti true) (unit_doTrap _)
  · exact (user_execute hw).subst unit_of_userOp

theorem execute_reset : execute 5 = modifyCpu busInit := rfl

/-! ## Predicates on the processor -/

/-- A predicate that every program keeps and that compares nothing of the devices, memory, the
sequencing flags and the accounting is kept by a call of the step. -/
theorem cpuStep_keeps {I : Cpu → Prop}
    (hunit : ∀ {α : Type} {x : M α}, UnitOp α x → Keeps (fun m => I m.cpu) x)
    (hrest : ∀ (s : Cpu) ctl dev acct mem, I s →
      I { s with ctl := ctl, dev := dev, acct := acct, mem := mem })
    (hbegin : ∀ s, I s → I (beginInstr s)) {s : Cpu} (h : I s) : I (cpuStep s).cpu := by
  have built {α : Type} {x : M α} (hx : UnitBuilt x) : Keeps (fun m => I m.cpu) x :=
    hx.keeps hunit
  have modify {f : Cpu → Cpu} (hf : ∀ t, I t → I (f t)) :
      Keeps (fun m => I m.cpu) (modifyCpu f) := fun m => hf m.cpu
  have hinit : Keeps (fun m => I m.cpu) (modifyCpu busInit) :=
    modify fun t ht => hrest t t.ctl (busInit t).dev t.acct t.mem ht
  -- RESET alone changes the devices as a whole
  have hexecute (word : Word) : Keeps (fun m => I m.cpu) (execute word) := by
    by_cases hw : word = 5
    · subst hw
      exact hinit
    · exact built (unit_execute hw)
  have hinstr : Keeps (fun m => I m.cpu) fetchExecute :=
    (modify hbegin).bind fun _ => (built (unit_of_basic basic_fetch)).bind fun word =>
      (hexecute word).bind fun _ => fun _ hm => hm
  have hstart : I (instrStart s).cpu := by
    show I (armTrace s)
    unfold armTrace
    split
    · exact hrest s { s.ctl with tracePending := true } s.dev s.acct s.mem h
    · exact h
  have hservice (t : Cpu) (ht : I t) : I (serviceDueEvents t) := by
    rw [serviceDueEvents_rest]
    exact hrest t t.ctl _ t.acct _ ht
  have hcount (t : Cpu) (ht : I t) : I (countInstr t) :=
    hrest t t.ctl t.dev { t.acct with instrCount := t.acct.instrCount + 1 } t.mem ht
  refine cpuStep_cases (Q := fun m => I m.cpu) s (fun _ => h) ?_ ?_ ?_ ?_
  · intro p _
    have hack : Keeps (fun m => I m.cpu) (modifyCpu (acknowledge p)) := by
      refine modify fun t ht => ?_
      cases p <;> exact hrest t _ _ t.acct t.mem ht
    have hdone : Keeps (fun m => I m.cpu) (modifyCpu (dispatched p)) := by
      refine modify fun t ht => ?_
      cases p with
      | trace => exact ht
      | yellow => exact hrest t _ t.dev t.acct t.mem ht
      | device d => exact hcount t ht
      | pirq => exact hcount t ht
    exact (hack.bind fun _ => (built (unit_doTrap _)).bind fun _ => hdone) ⟨s, []⟩ h
  · intro _
    show I (idleSkip s)
    unfold idleSkip
    dsimp only
    split
    · refine hservice _ ?_
      split
      · exact hrest s s.ctl s.dev { s.acct with timeNs := nextEventNs s } s.mem h
      · exact h
    · exact h
  · intro word m hx
    have hm : I m.cpu := hinstr.of_ok hx hstart
    have htime : I (accountTime word m.cpu) :=
      hrest m.cpu m.cpu.ctl m.cpu.dev (accountTime word m.cpu).acct m.cpu.mem hm
    exact hservice _ (hcount _ htime)
  · intro m hx
    have hm : I m.cpu := hinstr.of_error hx hstart
    have habort : Keeps (fun m => I m.cpu) abortTrap := by
      have hget : Keeps (fun m => I m.cpu) getCpu := fun _ hm => hm
      exact hget.bind fun _ => (built (unit_doTrap _)).bind fun _ =>
        modify fun t ht => hcount _ (hrest t _ t.dev t.acct t.mem ht)
    exact abortHandler_respects_of (fun _ hm => hm) (fun _ _ _ h h' hm => h' (h hm))
      (fun _ => modify fun t ht => hrest t _ t.dev t.acct t.mem ht) habort 9 m hm

/-! ## Relations on the machine -/

/-- A memory word at or above installed memory. -/
def Uninstalled (s : Cpu) (i : BitVec 21) : Prop := s.cfg.memTop.toNat ≤ 2 * i.toNat

instance (s : Cpu) (i : BitVec 21) : Decidable (Uninstalled s i) :=
  inferInstanceAs (Decidable (_ ≤ _))

/-- The register writes among the events of a call, oldest first. -/
def writesOf (es : List Event) : List (Word × Word) :=
  es.filterMap fun e => match e with
    | .ioWrite a value => some (a, value)
    | _ => none

/-- The bus sees no change: the devices, their way to memory and the memory above the installed
one stay as they are. -/
structure SameBus (s t : Cpu) : Prop where
  cfg : t.cfg = s.cfg
  dev : t.dev = s.dev
  mmr3 : t.mmu.mmr3 = s.mmu.mmr3
  mem : ∀ i, Uninstalled s i → t.mem i = s.mem i

theorem SameBus.of_mem {s t : Cpu} (hcfg : t.cfg = s.cfg) (hdev : t.dev = s.dev)
    (hmmr3 : t.mmu.mmr3 = s.mmu.mmr3) (hmem : t.mem = s.mem) : SameBus s t :=
  ⟨hcfg, hdev, hmmr3, fun i _ => congrFun hmem i⟩

theorem memIndex_le (pa : PhysAddr) : 2 * (memIndex pa).toNat ≤ pa.toNat := by
  have hshift : ((pa &&& (memBytes - 1)) >>> 1).toNat = (pa &&& (memBytes - 1)).toNat >>> 1 :=
    BitVec.toNat_ushiftRight _ 1
  have hmask : (pa &&& (memBytes - 1)).toNat ≤ pa.toNat := by
    rw [BitVec.toNat_and]
    exact Nat.and_le_left
  have hwidth : (memIndex pa).toNat ≤ ((pa &&& (memBytes - 1)) >>> 1).toNat := by
    rw [memIndex, BitVec.toNat_setWidth]
    exact Nat.mod_le _ _
  omega

/-- A store below installed memory leaves the words above it alone. -/
theorem Uninstalled.ne {s : Cpu} {i : BitVec 21} (h : Uninstalled s i) {pa : PhysAddr}
    (hpa : pa < s.cfg.memTop) : i ≠ memIndex pa := by
  rintro rfl
  have hle := memIndex_le pa
  have hlt : pa.toNat < s.cfg.memTop.toNat := hpa
  unfold Uninstalled at h
  omega

/-- A relation that memory reads respect when register reads do: it compares no more than what the
bus sees and the register writes. -/
structure FetchRelation (R : Machine → Machine → Prop) : Prop where
  trans : ∀ m m' m'', R m m' → R m' m'' → R m m''
  same : ∀ m m' : Machine, SameBus m.cpu m'.cpu →
    (∃ es, m'.events = m.events ++ es ∧ writesOf es = []) → R m m'
  read : ∀ (m : Machine) a p, ioReadReg m.cpu a = some p → R m { m with cpu := p.2 }

namespace FetchRelation

variable {R : Machine → Machine → Prop} (hR : FetchRelation R)
include hR

/-- A change the bus does not see. -/
theorem modify {f : Cpu → Cpu} (hf : ∀ s, SameBus s (f s)) : Respects R (modifyCpu f) :=
  fun m => hR.same m _ (hf m.cpu) ⟨[], (List.append_nil _).symm, rfl⟩

theorem refl (m : Machine) : R m m :=
  hR.modify (f := id) (fun _ => .of_mem rfl rfl rfl rfl) m

/-- An event that is no register write. -/
theorem emit {e : Event} (he : writesOf [e] = []) : Respects R (Pdp11.emit e) :=
  fun m => hR.same m _ (.of_mem rfl rfl rfl rfl) ⟨[e], rfl, he⟩

theorem fault {α : Type} (vector : Word) : Respects R (cpuBusFault vector : M α) :=
  fun m => hR.same m _ (.of_mem rfl rfl rfl rfl) ⟨[.fault vector], rfl, rfl⟩

theorem ioRead (a : Word) : Respects R (Pdp11.ioRead a) := by
  intro m
  rw [ioRead_apply]
  cases hp : ioReadReg m.cpu a with
  | none => exact hR.fault vecBus m
  | some p => exact hR.read m a p hp

theorem readOp {α : Type} {x : M α} (hx : ReadOp α x) : Respects R x := by
  cases hx with
  | get => exact hR.refl
  | fault vector => exact hR.fault vector
  | capture idx err _ =>
    refine hR.modify fun s => ?_
    unfold captureMmu
    split <;> exact .of_mem rfl rfl rfl rfl
  | mark idx isWrite => exact hR.modify fun _ => .of_mem rfl rfl rfl rfl
  | ioRead a => exact hR.ioRead a
  | cache pa => exact hR.modify fun _ => .of_mem rfl rfl rfl rfl

theorem read_respects {α : Type} {x : M α} (hx : ReadBuilt x) : Respects R x :=
  hx.respects hR.refl hR.trans fun h => hR.readOp h

/-- The machine as an instruction is fetched. -/
theorem start (s : Cpu) : R ⟨s, []⟩ (instrStart s) := by
  refine hR.same _ _ ?_ ⟨[.setjmp], rfl, rfl⟩
  show SameBus s (armTrace s)
  unfold armTrace
  split <;> exact .of_mem rfl rfl rfl rfl

theorem begin : Respects R (modifyCpu beginInstr) := by
  refine hR.modify fun s => ?_
  unfold beginInstr
  dsimp only
  split <;> exact .of_mem rfl rfl rfl rfl

theorem fetch : Respects R Pdp11.fetch := by
  have hreg : Respects R (getReg regPc) := hR.refl
  have hword (va : Word) : Respects R (cpuFetchWord va) :=
    fun m => hR.read_respects (read_cpuReadWordGen va m.cpu.mode false) m
  have hpc : Respects R (addReg regPc 2) := hR.modify fun _ => .of_mem rfl rfl rfl rfl
  exact hreg.bind hR.trans fun pc => (hword pc).bind hR.trans fun word =>
    hpc.bind hR.trans fun _ => respects_pure hR.refl word

end FetchRelation

/-- The fetch of an instruction word, from the top of an instruction. -/
def beginFetch : M Word := do
  modifyCpu beginInstr
  fetch

theorem FetchRelation.beginFetch {R : Machine → Machine → Prop} (hR : FetchRelation R) :
    Respects R Pdp11.beginFetch := hR.begin.bind hR.trans fun _ => hR.fetch

/-- A relation that programs respect when register accesses do. -/
structure ProgramRelation (R : Machine → Machine → Prop) : Prop extends FetchRelation R where
  write : ∀ (m : Machine) a value,
    R m ⟨(ioWriteReg m.cpu a value).getD m.cpu, m.events ++ [.ioWrite a value]⟩

namespace ProgramRelation

variable {R : Machine → Machine → Prop} (hR : ProgramRelation R)
include hR

theorem ioWrite (a value : Word) : Respects R (Pdp11.ioWrite a value) := by
  intro m
  have hw := hR.write m a value
  rw [ioWrite_apply]
  cases hs : ioWriteReg m.cpu a value with
  | none =>
    rw [hs] at hw
    exact hR.trans m _ _ hw (hR.fault vecBus _)
  | some s' =>
    rw [hs] at hw
    exact hw

/-- A store at a checked physical address. -/
theorem store {pa : PhysAddr} {f : Mem → Mem} (hf : ∀ m i, i ≠ memIndex pa → f m i = m i) :
    Respects R (checkNxm pa >>= fun _ => modifyCpu fun s => { s with mem := f s.mem }) := by
  intro m
  have hx := checkNxm_apply pa m
  by_cases hn : m.cpu.cfg.memTop ≤ pa
  · rw [if_pos hn] at hx
    rw [bind_error hx]
    exact hR.fault (α := Unit) vecBus m
  · rw [if_neg hn] at hx
    rw [bind_ok hx]
    refine hR.same m _ ⟨rfl, rfl, rfl, fun i hi => ?_⟩ ⟨[], (List.append_nil _).symm, rfl⟩
    exact hf m.cpu.mem i (hi.ne (BitVec.not_le.1 hn))

theorem writeWordMode (va : Word) (mode : Mode) (dspace : Bool) (value : Word) :
    Respects R (cpuWriteWordMode va mode dspace value) := by
  refine (hR.read_respects (built_whenM (.op (.fault _)))).bind hR.trans fun _ =>
    (hR.read_respects (read_mmuRelocate _ _ _ _)).bind hR.trans fun pa => ?_
  split
  · exact hR.ioWrite _ _
  · exact hR.store (f := fun m => memWriteWord m pa value) fun m i hi => Function.update_of_ne hi _ _

theorem writeByte (va : Word) (value : Byte) : Respects R (cpuWriteByte va value) := by
  refine (hR.read_respects (.op .get)).bind hR.trans fun s =>
    (hR.read_respects (read_mmuRelocate _ _ _ _)).bind hR.trans fun pa => ?_
  split
  · exact (hR.ioRead _).bind hR.trans fun w => hR.ioWrite _ _
  · exact hR.store (f := fun m => memWriteByte m pa value) fun m i hi => Function.update_of_ne hi _ _

theorem stackLimit (sp : Word) : Respects R (checkStackLimit sp) := by
  intro m
  have hred : Respects R (modifyCpu stackRed) := hR.modify fun _ => .of_mem rfl rfl rfl rfl
  rw [checkStackLimit_apply]
  cases stackZone m.cpu sp with
  | fine => exact hR.refl m
  | yellow => exact hR.modify (f := stackYellow) (fun _ => .of_mem rfl rfl rfl rfl) m
  | red => exact hR.trans m ⟨stackRed m.cpu, m.events⟩ _ (hred m) (hR.fault vecBus _)

theorem basicOp {α : Type} {x : M α} (hx : BasicOp α x) : Respects R x := by
  cases hx with
  | get => exact hR.refl
  | regs f => exact hR.modify fun _ => .of_mem rfl rfl rfl rfl
  | codes f hf =>
    refine hR.modify fun s => ?_
    obtain ⟨psw, hs, -⟩ := hf s
    rw [hs]
    exact .of_mem rfl rfl rfl rfl
  | track reg delta =>
    refine hR.modify fun s => ?_
    unfold mmr1Track
    split <;> exact .of_mem rfl rfl rfl rfl
  | fp f => exact hR.modify fun _ => .of_mem rfl rfl rfl rfl
  | extra ns _ => exact hR.modify fun _ => .of_mem rfl rfl rfl rfl
  | stackLimit sp => exact hR.stackLimit sp
  | fetchWord va =>
    intro m
    exact hR.read_respects (read_cpuReadWordGen va m.cpu.mode false) m
  | readWord va => exact hR.read_respects (read_cpuReadWord va)
  | writeWord va value =>
    intro m
    exact hR.writeWordMode va m.cpu.mode true value m
  | readByte va => exact hR.read_respects (read_cpuReadByte va)
  | writeByte va value => exact hR.writeByte va value

theorem unitOp {α : Type} {x : M α} (hx : UnitOp α x) : Respects R x := by
  cases hx with
  | basic h => exact hR.basicOp h
  | read va mode dspace => exact hR.read_respects (read_cpuReadWordGen va mode dspace)
  | write va mode dspace value => exact hR.writeWordMode va mode dspace value
  | prevReg pm cm reg value =>
    refine hR.modify fun s => ?_
    unfold setPrevModeReg
    split <;> exact .of_mem rfl rfl rfl rfl
  | loadPsw psw =>
    refine hR.modify fun s => ?_
    rw [putPsw_eq]
    exact .of_mem rfl rfl rfl rfl
  | spl word =>
    refine hR.modify fun s => ?_
    split <;> exact .of_mem rfl rfl rfl rfl
  | ctl f => exact hR.modify fun _ => .of_mem rfl rfl rfl rfl
  | complete => exact hR.modify fun _ => .of_mem rfl rfl rfl rfl
  | dispatch vector psw pc => exact hR.emit rfl

/-- A program respects the relation. -/
theorem unit {α : Type} {x : M α} (hx : UnitBuilt x) : Respects R x :=
  hx.respects hR.refl hR.trans fun h => hR.unitOp h

theorem dispatched (p : Pending) : Respects R (modifyCpu (Pdp11.dispatched p)) := by
  refine hR.modify fun t => ?_
  cases p <;> exact .of_mem rfl rfl rfl rfl

theorem abortTrap : Respects R Pdp11.abortTrap := by
  have hget : Respects R getCpu := hR.refl
  exact hget.bind hR.trans fun s => (hR.unit (unit_doTrap _)).bind hR.trans fun _ =>
    hR.modify fun _ => .of_mem rfl rfl rfl rfl

theorem abortHandler (fuel : ℕ) : Respects R (Pdp11.abortHandler fuel) :=
  abortHandler_respects_of hR.refl hR.trans (fun _ => hR.modify fun _ => .of_mem rfl rfl rfl rfl)
    hR.abortTrap fuel

/-- An instruction moves the machine along the relation, unless it is RESET. -/
theorem fetchExecute_or (m : Machine) : R m (final (Pdp11.fetchExecute m)) ∨
    ∃ m', Pdp11.beginFetch m = .ok 5 m' ∧
      Pdp11.fetchExecute m = .ok 5 { m' with cpu := busInit m'.cpu } := by
  have hsplit : Pdp11.fetchExecute =
      (Pdp11.beginFetch >>= fun word => execute word >>= fun _ => pure word) := rfl
  rw [hsplit, bind_apply]
  have hfetch := hR.beginFetch m
  cases hx : Pdp11.beginFetch m with
  | error e m' =>
    rw [hx] at hfetch
    exact .inl hfetch
  | ok word m' =>
    rw [hx] at hfetch
    by_cases h : word = 5
    · subst h
      exact .inr ⟨m', rfl, rfl⟩
    · refine .inl (hR.trans _ _ _ hfetch ?_)
      exact (hR.unit (unit_execute h)).bind hR.trans (fun _ => respects_pure hR.refl word) m'

/-- A call of the step, when the services after an instruction or over an idle skip respect the
relation: it moves the machine along the relation, once from the state an interrupt or trap is
acknowledged in, unless the instruction is RESET. -/
theorem cpuStep_or (hservice : ∀ (m : Machine) (acct : Accounting), R m
      { m with cpu := serviceDueEvents { m.cpu with acct := acct } }) (s : Cpu) :
    R ⟨s, []⟩ ⟨(Pdp11.cpuStep s).cpu, (Pdp11.cpuStep s).events⟩ ∨
      (∃ p, pendingDispatch s = some p ∧
        R ⟨acknowledge p s, []⟩ ⟨(Pdp11.cpuStep s).cpu, (Pdp11.cpuStep s).events⟩) ∨
      ∃ m, Pdp11.beginFetch (instrStart s) = .ok 5 m ∧
        R ⟨busInit m.cpu, m.events⟩ ⟨(Pdp11.cpuStep s).cpu, (Pdp11.cpuStep s).events⟩ := by
  refine cpuStep_cases (Q := fun m => R ⟨s, []⟩ m ∨
    (∃ p, pendingDispatch s = some p ∧ R ⟨acknowledge p s, []⟩ m) ∨
    ∃ m', Pdp11.beginFetch (instrStart s) = .ok 5 m' ∧ R ⟨busInit m'.cpu, m'.events⟩ m)
    s ?_ ?_ ?_ ?_ ?_
  · exact fun _ => .inl (hR.refl _)
  · intro p hp
    refine .inr (.inl ⟨p, hp, ?_⟩)
    exact (hR.unit (unit_doTrap _)).bind hR.trans (fun _ => hR.dispatched p) ⟨acknowledge p s, []⟩
  · intro _
    refine .inl ?_
    unfold idleSkip
    dsimp only
    split
    · split
      · exact hservice ⟨s, []⟩ { s.acct with timeNs := nextEventNs s }
      · exact hservice ⟨s, []⟩ s.acct
    · exact hR.refl _
  · intro word m hx
    have hfinish := hservice m (countInstr (accountTime word m.cpu)).acct
    obtain hinstr | ⟨m', hf, hr⟩ := hR.fetchExecute_or (instrStart s)
    · rw [hx] at hinstr
      exact .inl (hR.trans _ m _ (hR.trans _ _ _ (hR.start s) hinstr) hfinish)
    · rw [hx] at hr
      obtain ⟨-, rfl⟩ := EStateM.Result.ok.inj hr
      exact .inr (.inr ⟨m', hf, hfinish⟩)
  · intro m hx
    have hhandler := hR.abortHandler 9 m
    obtain hinstr | ⟨m', hf, hr⟩ := hR.fetchExecute_or (instrStart s)
    · rw [hx] at hinstr
      exact .inl (hR.trans _ m _ (hR.trans _ _ _ (hR.start s) hinstr) hhandler)
    · rw [hx] at hr
      cases hr

/-- A call of the step, when RESET and an acknowledge respect the relation as well. -/
theorem cpuStep (hinit : Respects R (modifyCpu busInit))
    (hack : ∀ p, Respects R (modifyCpu (acknowledge p)))
    (hservice : ∀ (m : Machine) (acct : Accounting), R m
      { m with cpu := serviceDueEvents { m.cpu with acct := acct } }) (s : Cpu) :
    R ⟨s, []⟩ ⟨(Pdp11.cpuStep s).cpu, (Pdp11.cpuStep s).events⟩ := by
  obtain h | ⟨p, -, h⟩ | ⟨m, hf, h⟩ := hR.cpuStep_or hservice s
  · exact h
  · exact hR.trans _ _ _ (hack p ⟨s, []⟩) h
  · have hfetch := hR.beginFetch (instrStart s)
    rw [hf] at hfetch
    exact hR.trans _ _ _ (hR.trans _ _ _ (hR.start s) hfetch) (hR.trans _ _ _ (hinit m) h)

end ProgramRelation

/-! ## Relations on the devices -/

/-- A relation that memory reads respect when register reads do: it compares no more than the
devices and the events. -/
structure ReadRelation (R : Machine → Machine → Prop) : Prop where
  trans : ∀ m m' m'', R m m' → R m' m'' → R m m''
  same : ∀ m m' : Machine, m'.cpu.dev = m.cpu.dev → (∃ es, m'.events = m.events ++ es) → R m m'
  read : ∀ (m : Machine) a p, ioReadReg m.cpu a = some p → R m { m with cpu := p.2 }

theorem ReadRelation.fetches {R : Machine → Machine → Prop} (hR : ReadRelation R) :
    FetchRelation R where
  trans := hR.trans
  same m m' h he := hR.same m m' h.dev (he.imp fun _ h => h.1)
  read := hR.read

/-- A relation that programs respect when register accesses do. -/
structure DeviceRelation (R : Machine → Machine → Prop) : Prop extends ReadRelation R where
  write : ∀ (m : Machine) a value s', ioWriteReg m.cpu a value = some s' →
    R m ⟨s', m.events ++ [.ioWrite a value]⟩

theorem DeviceRelation.programs {R : Machine → Machine → Prop} (hR : DeviceRelation R) :
    ProgramRelation R where
  toFetchRelation := hR.fetches
  write m a value := by
    cases hs : ioWriteReg m.cpu a value with
    | none => exact hR.same m _ rfl ⟨_, rfl⟩
    | some s' => exact hR.write m a value s' hs

end Pdp11
