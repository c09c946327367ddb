import Pdp11.RunStores
import Pdp11.Lib.LastStore

namespace Pdp11

open FaultState LastStore

/-! The page registers over any run: each holds what was last stored at its address. -/

/-! ## Addresses -/

/-- A PAR (`true`) or a PDR, and its page. -/
abbrev PageReg := Bool × BitVec 6

theorem aprBlock_of_index {a : Word} {p : PageReg} (h : aprIndex a = some p) :
    ∃ b ∈ aprBlocks, b.1 ≤ a ∧ a ≤ b.1 + 0o16 ∧
      p = (b.2.1, b.2.2 + ((a - b.1) >>> 1).setWidth 6) := by
  unfold aprIndex at h
  obtain ⟨b, hb, rfl⟩ := Option.map_eq_some_iff.1 h
  have hin := List.find?_some hb
  rw [decide_eq_true_iff] at hin
  exact ⟨b, List.mem_of_find?_eq_some hb, hin.1, hin.2, rfl⟩

/-- An address in a block is its base and a short offset. -/
theorem aprBlock_offset {a base : Word} (hbase : base ≤ 0o177660) (hlo : base ≤ a)
    (hhi : a ≤ base + 0o16) : ∃ o : BitVec 4, o ≤ 0o16 ∧ a = base + o.setWidth 16 := by
  refine ⟨(a - base).setWidth 4, ?_, ?_⟩
  · bv_omega
  · bv_omega

/-- No other register of the I/O page has the address of a page register. -/
def AprOnly (a : Word) : Prop :=
  ¬(ubmBase ≤ a ∧ a ≤ ubmEnd) ∧ a ≠ iopagePsw ∧ a ≠ iopagePirq ∧ a ≠ iopageMmr0 ∧
    a ≠ iopageMmr1 ∧ a ≠ iopageMmr2 ∧ a ≠ iopageMmr3 ∧ a ≠ kw11lLks ∧ isDl11 a = false ∧
    isRk11 a = false ∧ isTm11 a = false ∧ isRl11 a = false ∧ isRx11 a = false ∧ isRp11 a = false

instance (a : Word) : Decidable (AprOnly a) := inferInstanceAs (Decidable (_ ∧ _))

theorem aprBlocks_only : ∀ b ∈ aprBlocks, b.1 ≤ 0o177660 ∧ ∀ o : BitVec 4,
    AprOnly (b.1 + o.setWidth 16) := by
  have hall : aprBlocks.all (fun b => decide (b.1 ≤ 0o177660 ∧ ∀ o : BitVec 4,
      AprOnly (b.1 + o.setWidth 16))) = true := by
    decide
  exact fun b hb => of_decide_eq_true (List.all_eq_true.1 hall b hb)

theorem aprOnly_of_index {a : Word} {p : PageReg} (h : aprIndex a = some p) : AprOnly a := by
  obtain ⟨b, hb, hlo, hhi, -⟩ := aprBlock_of_index h
  obtain ⟨hbase, honly⟩ := aprBlocks_only b hb
  obtain ⟨o, -, rfl⟩ := aprBlock_offset hbase hlo hhi
  exact honly o

/-- The word address of a page register. -/
def pageAddr (p : PageReg) : Word :=
  (if p.1 then 0o40 else 0) + (p.2 &&& 0o17).setWidth 16 * 2 +
    (if p.2 >>> 4 = 0 then 0o172300 else if p.2 >>> 4 = 1 then 0o172200 else 0o177600)

theorem aprBlocks_addr : ∀ b ∈ aprBlocks, ∀ o : BitVec 4, o ≤ 0o16 →
    pageAddr (b.2.1, b.2.2 + ((b.1 + o.setWidth 16 - b.1) >>> 1).setWidth 6) =
      (b.1 + o.setWidth 16) &&& 0o177776 := by
  have hall : aprBlocks.all (fun b => decide (∀ o : BitVec 4, o ≤ 0o16 →
      pageAddr (b.2.1, b.2.2 + ((b.1 + o.setWidth 16 - b.1) >>> 1).setWidth 6) =
        (b.1 + o.setWidth 16) &&& 0o177776)) = true := by
    decide
  exact fun b hb => of_decide_eq_true (List.all_eq_true.1 hall b hb)

/-- A page register has one word address. -/
theorem pageAddr_of_index {a : Word} {p : PageReg} (h : aprIndex a = some p) :
    pageAddr p = a &&& 0o177776 := by
  obtain ⟨b, hb, hlo, hhi, rfl⟩ := aprBlock_of_index h
  obtain ⟨o, ho, rfl⟩ := aprBlock_offset (aprBlocks_only b hb).1 hlo hhi
  exact aprBlocks_addr b hb o ho

/-- Two even addresses of one page register are the same. -/
theorem aprIndex_inj {a b : Word} {p : PageReg} (ha : aprIndex a = some p)
    (hb : aprIndex b = some p) (hea : a &&& 1 = 0) (heb : b &&& 1 = 0) : a = b := by
  have haddr : a &&& 0o177776 = b &&& 0o177776 :=
    (pageAddr_of_index ha).symm.trans (pageAddr_of_index hb)
  have heven (x : Word) (hx : x &&& 1 = 0) : x &&& 0o177776 = x :=
    BitMask.and_not_eq_self.2 hx
  rwa [heven a hea, heven b heb] at haddr

/-! ## The registers without their flags -/

/-- What a page register keeps between two stores: all but the accessed and written flags. -/
def pageKeep (p : PageReg) : Word := if p.1 then BitVec.allOnes 16 else ~~~(pdrA ||| pdrW)

/-- What a store leaves in a page register. -/
def pageMask (cfg : Config) (p : PageReg) : Word :=
  if p.1 then cfg.parMask else cfg.pdrMask &&& ~~~(pdrA ||| pdrW)

/-- A page register as it reads. -/
def pageReg (s : Cpu) (p : PageReg) : Word := if p.1 then s.mmu.par p.2 else s.mmu.pdr p.2

def pages (s : Cpu) (p : PageReg) : Word := pageReg s p &&& pageKeep p

/-- The page registers after some stores to the I/O page. -/
def storePages (cfg : Config) : (PageReg → Word) → List (Word × Word) → PageReg → Word :=
  putAll (fun w => aprIndex w.1) fun w p => w.2 &&& pageMask cfg p

theorem storePages_apr {cfg : Config} {f : PageReg → Word} {a : Word} {p : PageReg}
    (h : aprIndex a = some p) (value : Word) :
    storePages cfg f [(a, value)] = Function.update f p (value &&& pageMask cfg p) := by
  refine putAll_singleton.trans (put_of_some ?_)
  exact h

theorem storePages_other {cfg : Config} {f : PageReg → Word} {a : Word}
    (h : aprIndex a = none) (value : Word) : storePages cfg f [(a, value)] = f := by
  refine putAll_singleton.trans (put_of_none ?_)
  exact h

section

variable {s t : Cpu}

theorem pages_congr (hpar : t.mmu.par = s.mmu.par) (hpdr : t.mmu.pdr = s.mmu.pdr) :
    pages t = pages s := by
  funext p
  unfold pages pageReg
  rw [hpar, hpdr]

theorem aprWrite_cfg (s : Cpu) (isPar : Bool) (idx : BitVec 6) (value : Word) :
    (aprWrite s isPar idx value).cfg = s.cfg := by
  unfold aprWrite
  split <;> rfl

theorem pages_aprWrite (s : Cpu) (p : PageReg) (value : Word) :
    pages (aprWrite s p.1 p.2 value) =
      Function.update (pages s) p (value &&& pageMask s.cfg p) := by
  obtain ⟨isPar, idx⟩ := p
  funext q
  obtain ⟨par, i⟩ := q
  by_cases hq : (par, i) = (isPar, idx)
  · obtain ⟨rfl, rfl⟩ := Prod.mk.inj hq
    rw [Function.update_self]
    cases par with
    | true =>
      show Function.update s.mmu.par i (value &&& s.cfg.parMask) i &&& BitVec.allOnes 16 = _
      rw [Function.update_self, BitVec.and_allOnes]
      rfl
    | false =>
      show Function.update s.mmu.pdr i (value &&& s.cfg.pdrMask &&& ~~~(pdrA ||| pdrW)) i &&&
        ~~~(pdrA ||| pdrW) = _
      rw [Function.update_self, BitVec.and_assoc, BitVec.and_self, BitVec.and_assoc]
      rfl
  · rw [Function.update_of_ne hq]
    have hcell (f : BitVec 6 → Word) (v : Word) (heq : par = isPar) :
        Function.update f idx v i = f i :=
      Function.update_of_ne (fun hi => hq (by rw [heq, hi])) _ _
    cases isPar <;> cases par
    · exact congrArg (· &&& _) (hcell s.mmu.pdr _ rfl)
    · rfl
    · rfl
    · exact congrArg (· &&& _) (hcell s.mmu.par _ rfl)

/-- An access sets flags only. -/
theorem pages_mark (idx : BitVec 6) (isWrite : Bool) (s : Cpu) :
    pages (markAccess idx isWrite s) = pages s := by
  have hflags (x : Word) : (if isWrite then x ||| pdrA ||| pdrW else x ||| pdrA) &&&
      ~~~(pdrA ||| pdrW) = x &&& ~~~(pdrA ||| pdrW) := by
    cases isWrite with
    | true =>
      rw [if_pos rfl, BitMask.or_and_eq _ (by decide), BitMask.or_and_eq _ (by decide)]
    | false => exact BitMask.or_and_eq _ (by decide)
  funext p
  obtain ⟨isPar, i⟩ := p
  cases isPar with
  | true => rfl
  | false =>
    show Function.update s.mmu.pdr idx _ i &&& _ = s.mmu.pdr i &&& _
    by_cases hi : i = idx
    · subst hi
      rw [Function.update_self]
      exact hflags (s.mmu.pdr i)
    · rw [Function.update_of_ne hi]

end

/-! ## Stores and other operations -/

/-- A store at the address of a page register goes there. -/
theorem ioWriteReg_apr (s : Cpu) {a : Word} {p : PageReg} (h : aprIndex a = some p) (value : Word) :
    ioWriteReg s a value = some (aprWrite s p.1 p.2 value) := by
  obtain ⟨hubm, h1, h2, h3, -, -, h4, h5, h6, h7, h8, h9, h10, h11⟩ := aprOnly_of_index h
  have hubm' : ¬isUbm s a = true := by
    rw [isUbm, decide_eq_true_iff]
    exact fun hc => hubm hc.2
  unfold ioWriteReg
  rw [if_neg hubm', if_neg h1, if_neg h2, if_neg h3, if_neg h4, if_neg h5, h6, h7, h8, h9, h10, h11, h]
  rfl

/-- So does a read, which changes nothing. -/
theorem ioReadReg_apr (s : Cpu) {a : Word} {p : PageReg} (h : aprIndex a = some p) :
    ioReadReg s a = some (pageReg s p, s) := by
  obtain ⟨hubm, h1, h2, h3, h4, h5, h6, h7, h8, h9, h10, h11, h12, h13⟩ := aprOnly_of_index h
  have hubm' : ¬isUbm s a = true := by
    rw [isUbm, decide_eq_true_iff]
    exact fun hc => hubm hc.2
  unfold ioReadReg
  rw [if_neg hubm', if_neg h1, if_neg h2, if_neg h3, if_neg h4, if_neg h5, if_neg h6, if_neg h7,
    h8, h9, h10, h11, h12, h13, h]
  obtain ⟨isPar, idx⟩ := p
  cases isPar <;> rfl

theorem sysregWrite_rest (s : Cpu) (a value : Word) :
    ∀ t ∈ sysregWrite s a value, t = { s with sys := t.sys } := by
  have hsys (sys : SysRegs) : ∀ t ∈ (some { s with sys := sys } : Option Cpu),
      t = { s with sys := t.sys } := by
    rintro _ ⟨⟩
    rfl
  have hnone : ∀ t ∈ (none : Option Cpu), t = { s with sys := t.sys } := by rintro _ ⟨⟩
  unfold sysregWrite
  split
  · exact hnone
  split
  · exact hsys _
  split
  · generalize ((a >>> 1) &&& 0o17).toNat = n
    split
    case h_13 => exact hnone
    all_goals first
      | exact hsys s.sys
      | exact hsys _
  · exact hnone

/-- A store elsewhere leaves the page registers alone. -/
theorem ioWriteReg_pages {s : Cpu} {a : Word} (h : aprIndex a = none) (value : Word) :
    ∀ t ∈ ioWriteReg s a value, t.cfg = s.cfg ∧ pages t = pages s := by
  have hite {c : Prop} [Decidable c] {x y : Option Cpu}
      (hx : ∀ t ∈ x, t.cfg = s.cfg ∧ pages t = pages s)
      (hy : ∀ t ∈ y, t.cfg = s.cfg ∧ pages t = pages s) :
      ∀ t ∈ (if c then x else y), t.cfg = s.cfg ∧ pages t = pages s := by
    split
    · exact hx
    · exact hy
  have hsome {u : Cpu} (hcfg : u.cfg = s.cfg) (hpar : u.mmu.par = s.mmu.par)
      (hpdr : u.mmu.pdr = s.mmu.pdr) : ∀ t ∈ some u, t.cfg = s.cfg ∧ pages t = pages s := by
    rintro _ ⟨⟩
    exact ⟨hcfg, pages_congr hpar hpdr⟩
  have hdevice {u : Cpu} (hu : DeviceStep s u) : ∀ t ∈ some u, t.cfg = s.cfg ∧ pages t = pages s :=
    hsome (by rw [hu.rest]) (by rw [hu.rest]) (by rw [hu.rest])
  have hpsw (psw : Word) : ∀ t ∈ some { putPsw s psw with ctl.ccFrozen := true },
      t.cfg = s.cfg ∧ pages t = pages s := by
    rw [putPsw_eq]
    exact hsome rfl rfl rfl
  have hr := DeviceStep.refl s
  unfold ioWriteReg
  refine hite (hsome rfl rfl rfl) <| hite (hpsw _) <| hite (hsome rfl rfl rfl) <|
    hite (hsome rfl rfl rfl) <| hite (hsome rfl rfl rfl) <| hite (hdevice (clkWrite_step hr value)) <|
    hite (hdevice (consoleWrite_step hr a value)) <| hite (hdevice (rkWrite_step hr a value)) <|
    hite (hdevice (tmWrite_step hr a value)) <| hite (hdevice (rlWrite_step hr a value)) <|
    hite (hdevice (rxWrite_step hr a value)) <| hite (hdevice (rpWrite_step hr a value)) ?_
  rw [h]
  intro t ht
  rw [sysregWrite_rest s a value t ht]
  exact ⟨rfl, rfl⟩

/-- The page registers went through the stores of the events since. -/
structure PagesMoved (m m' : Machine) : Prop where
  cfg : m'.cpu.cfg = m.cpu.cfg
  stored : ∃ es, m'.events = m.events ++ es ∧
    pages m'.cpu = storePages m.cpu.cfg (pages m.cpu) (writesOf es)

namespace PagesMoved

variable {m m' m'' : Machine} {α : Type} {x : M α}

theorem still (hcfg : m'.cpu.cfg = m.cpu.cfg) (hpages : pages m'.cpu = pages m.cpu)
    (hevents : m'.events = m.events) : PagesMoved m m' := by
  refine ⟨hcfg, [], ?_, hpages⟩
  rw [hevents, List.append_nil]

theorem refl (m : Machine) : PagesMoved m m := .still rfl rfl rfl

theorem trans (m m' m'' : Machine) (h : PagesMoved m m') (h' : PagesMoved m' m'') :
    PagesMoved m m'' := by
  obtain ⟨es, hes, hpages⟩ := h.stored
  obtain ⟨fs, hfs, hpages'⟩ := h'.stored
  refine ⟨h'.cfg.trans h.cfg, es ++ fs, ?_, ?_⟩
  · rw [hfs, hes, List.append_assoc]
  · rw [hpages', h.cfg, hpages, writesOf_append]
    exact putAll_append.symm

theorem modify {f : Cpu → Cpu} (hcfg : ∀ s, (f s).cfg = s.cfg) (hpages : ∀ s, pages (f s) = pages s) :
    Respects PagesMoved (modifyCpu f) := fun m => .still (hcfg m.cpu) (hpages m.cpu) rfl

/-- An event that is no store. -/
theorem emit {e : Event} (he : writesOf [e] = []) : Respects PagesMoved (Pdp11.emit e) := by
  intro m
  refine ⟨rfl, [e], rfl, ?_⟩
  rw [he]
  rfl

theorem fault (vector : Word) : Respects PagesMoved (cpuBusFault vector : M α) :=
  fun _ => ⟨rfl, [.fault vector], rfl, rfl⟩

theorem ioRead (a : Word) : Respects PagesMoved (Pdp11.ioRead a) := by
  intro m
  rw [ioRead_apply]
  cases hp : ioReadReg m.cpu a with
  | none => exact fault vecBus m
  | some p =>
    have hrest := (ioReadReg_step m.cpu a p hp).1.rest
    refine .still ?_ ?_ rfl
    · show p.2.cfg = _
      rw [hrest]
    · show pages p.2 = _
      rw [hrest]
      rfl

theorem ioWrite (a value : Word) : Respects PagesMoved (Pdp11.ioWrite a value) := by
  intro m
  rw [ioWrite_apply]
  cases hindex : aprIndex a with
  | some p =>
    rw [ioWriteReg_apr m.cpu hindex]
    exact ⟨aprWrite_cfg m.cpu p.1 p.2 value, [.ioWrite a value], rfl,
      (pages_aprWrite m.cpu p value).trans (storePages_apr hindex value).symm⟩
  | none =>
    have hemit : PagesMoved m ⟨m.cpu, m.events ++ [.ioWrite a value]⟩ :=
      ⟨rfl, _, rfl, (storePages_other hindex value).symm⟩
    cases ht : ioWriteReg m.cpu a value with
    | none => exact hemit.trans _ _ _ (fault vecBus _)
    | some t =>
      obtain ⟨hcfg, hpages⟩ := ioWriteReg_pages hindex value t ht
      exact hemit.trans _ _ _ (.still hcfg hpages rfl)

theorem core (h : CoreOp α x) : Respects PagesMoved x := by
  cases h with
  | get => exact PagesMoved.refl
  | fault vector => exact fault vector
  | capture idx err =>
    have hc (s : Cpu) : (captureMmu idx err s).cfg = s.cfg ∧ pages (captureMmu idx err s) = pages s := by
      unfold captureMmu
      split <;> exact ⟨rfl, rfl⟩
    exact modify (fun s => (hc s).1) fun s => (hc s).2
  | mark idx isWrite => exact modify (fun _ => rfl) (pages_mark idx isWrite)
  | ioRead a => exact ioRead a
  | ioWrite a value => exact ioWrite a value
  | mem f => exact modify (fun _ => rfl) fun _ => rfl
  | cache pa => exact modify (fun _ => rfl) fun _ => rfl
  | regs f => exact modify (fun _ => rfl) fun _ => rfl
  | ctl f => exact modify (fun _ => rfl) fun _ => rfl
  | fp f => exact modify (fun _ => rfl) fun _ => rfl
  | track reg delta =>
    have hc (s : Cpu) : (mmr1Track reg delta s).cfg = s.cfg ∧ pages (mmr1Track reg delta s) = pages s := by
      unfold mmr1Track
      split <;> exact ⟨rfl, rfl⟩
    exact modify (fun s => (hc s).1) fun s => (hc s).2
  | complete => exact modify (fun _ => rfl) fun _ => rfl
  | yellow => exact modify (fun _ => rfl) fun _ => rfl
  | red => exact modify (fun _ => rfl) fun _ => rfl
  | extra ns hns => exact modify (fun _ => rfl) fun _ => rfl
  | init => exact modify (fun _ => rfl) fun _ => rfl
  | dispatch vector psw pc => exact emit rfl

theorem step (h : StepOp α x) : Respects PagesMoved x := by
  cases h with
  | core h => exact core h
  | acknowledge p =>
    refine modify (fun s => ?_) fun s => ?_
    · cases p <;> rfl
    · cases p <;> rfl
  | count => exact modify (fun _ => rfl) fun _ => rfl
  | begin =>
    have hc (s : Cpu) : (beginInstr s).cfg = s.cfg ∧ pages (beginInstr s) = pages s := by
      unfold beginInstr
      extract_lets t
      split <;> exact ⟨rfl, rfl⟩
    exact modify (fun s => (hc s).1) fun s => (hc s).2
  | setjmp => exact emit rfl

end PagesMoved

/-! ## Runs -/

theorem cpuStep_pages (s : Cpu) : (cpuStep s).cpu.cfg = s.cfg ∧
    pages (cpuStep s).cpu = storePages s.cfg (pages s) (writesOf (cpuStep s).events) := by
  have hmoved {m : Machine} (h : PagesMoved ⟨s, []⟩ m) :
      m.cpu.cfg = s.cfg ∧ pages m.cpu = storePages s.cfg (pages s) (writesOf m.events) := by
    obtain ⟨es, hes, hpages⟩ := h.stored
    refine ⟨h.cfg, ?_⟩
    rw [hpages, show m.events = es from hes]
  rcases cpuStep_outcome PagesMoved.refl PagesMoved.trans PagesMoved.step s with
    h | ⟨m, word, h, hcpu, hevents⟩ | ⟨hcpu, hevents⟩
  · exact hmoved h
  · rw [hcpu, hevents, finishInstr, serviceDueEvents_rest]
    exact hmoved h
  · have hidle : (idleSkip s).cfg = s.cfg ∧ pages (idleSkip s) = pages s := by
      unfold idleSkip
      dsimp only
      split_ifs
      all_goals first
        | exact ⟨rfl, rfl⟩
        | rw [serviceDueEvents_rest]; exact ⟨rfl, rfl⟩
    rw [hcpu, hevents]
    exact hidle

theorem BusOp.pages {op : BusOp} (hreset : op ≠ .reset) (s : Cpu) :
    (op.apply s).cfg = s.cfg ∧
      Pdp11.pages (op.apply s) = storePages s.cfg (Pdp11.pages s) (op.stores s) := by
  have hdevice {t : Cpu} (h : DeviceStep s t) : t.cfg = s.cfg ∧ Pdp11.pages t = Pdp11.pages s := by
    rw [h.rest]
    exact ⟨rfl, rfl⟩
  have hr := DeviceStep.refl s
  cases op with
  | step => exact cpuStep_pages s
  | reset => exact absurd rfl hreset
  | init => exact ⟨rfl, rfl⟩
  | read a =>
    show (((ioReadReg s a).map Prod.snd).getD s).cfg = _ ∧
      Pdp11.pages (((ioReadReg s a).map Prod.snd).getD s) = _
    cases hp : ioReadReg s a with
    | none => exact ⟨rfl, rfl⟩
    | some p => exact hdevice (ioReadReg_step s a p hp).1
  | write a value =>
    show ((ioWriteReg s a value).getD s).cfg = _ ∧
      Pdp11.pages ((ioWriteReg s a value).getD s) = storePages s.cfg _ [(a, value)]
    cases hindex : aprIndex a with
    | some p =>
      rw [ioWriteReg_apr s hindex, storePages_apr hindex]
      exact ⟨aprWrite_cfg s p.1 p.2 value, pages_aprWrite s p value⟩
    | none =>
      rw [storePages_other hindex]
      cases ht : ioWriteReg s a value with
      | none => exact ⟨rfl, rfl⟩
      | some t => exact ioWriteReg_pages hindex value t ht
  | tick => exact hdevice (clkTick_step hr)
  | input ch => exact hdevice (consoleInput_step hr ch)
  | txPoll => exact hdevice (consoleTxPoll_step hr)
  | rkPoll => exact hdevice (rkPoll_step hr)
  | rpPoll => exact hdevice (rpPoll_step hr)
  | tmPoll => exact hdevice (tmPoll_step hr)
  | rlPoll => exact hdevice (rlPoll_step hr)
  | acknowledge d => exact ⟨rfl, rfl⟩
  | load r mem => exact ⟨rfl, rfl⟩
  | setHalted halted => exact ⟨rfl, rfl⟩
  | rkAttach disk words => exact ⟨rfl, rfl⟩
  | rpAttach disk words => exact ⟨rfl, rfl⟩
  | tmAttach tape len wrp => exact ⟨rfl, rfl⟩
  | rlAttach disk words => exact ⟨rfl, rfl⟩
  | rxAttach disk bytes => exact ⟨rfl, rfl⟩

theorem runOps_pages {ops : List BusOp} (hreset : BusOp.reset ∉ ops) (s : Cpu) :
    pages (runOps s ops) = storePages s.cfg (pages s) (runStores s ops) := by
  induction ops generalizing s with
  | nil => rfl
  | cons op ops ih =>
    rw [List.mem_cons, not_or] at hreset
    obtain ⟨hcfg, hpages⟩ := BusOp.pages (Ne.symm hreset.1) s
    have hrest := ih hreset.2 (op.apply s)
    rw [hcfg, hpages] at hrest
    exact hrest.trans putAll_append.symm

/-- After any run without a reset, a page register reads as its last store left it, and apart from
the flags of accesses nothing else changes it; no two even addresses share a register. -/
theorem page_registers_hold (s : Cpu) {ops : List BusOp} (hreset : BusOp.reset ∉ ops) {a : Word}
    {p : PageReg} (ha : aprIndex a = some p) :
    let t := runOps s ops
    (∃ v v₀, ioReadReg t a = some (v, t) ∧ ioReadReg s a = some (v₀, s) ∧
      v &&& pageKeep p =
        (((runStores s ops).filter fun w => aprIndex w.1 = some p).getLast?.map
          fun w => w.2 &&& pageMask s.cfg p).getD (v₀ &&& pageKeep p)) ∧
      ∀ b, aprIndex b = some p → a &&& 1 = 0 → b &&& 1 = 0 → a = b := by
  intro t
  refine ⟨⟨_, _, ioReadReg_apr t ha, ioReadReg_apr s ha, ?_⟩, fun b hb => aprIndex_inj ha hb⟩
  have h := congrFun (runOps_pages hreset s) p
  exact h.trans (putAll_apply p)

/-- The kernel's first PAR, stored by a program that also starts the console. -/
theorem par_reads_back :
    let t := runOps cpuCreate [.write 0o172340 0o1234, .write 0o177566 0o101, .step]
    ∃ v, ioReadReg t 0o172340 = some (v, t) ∧ v = 0o1234 := by
  intro t
  have hreset : BusOp.reset ∉ [.write 0o172340 0o1234, .write 0o177566 0o101, .step] := by simp
  have hindex : aprIndex 0o172340 = some (true, 0) := rfl
  obtain ⟨⟨v, _, hv, -, hkeep⟩, -⟩ := page_registers_hold cpuCreate hreset hindex
  refine ⟨v, hv, ?_⟩
  have hall : v &&& pageKeep (true, 0) = v := BitVec.and_allOnes
  rw [hall] at hkeep
  exact hkeep

end Pdp11
