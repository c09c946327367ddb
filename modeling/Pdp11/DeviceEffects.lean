import Pdp11.Step
import Pdp11.Lib.BitMask
import Mathlib.Data.List.Forall2

namespace Pdp11

/-! The controllers change only the devices and memory, and schedule only in the future. -/

/-- The completions the scheduler tracks: whether each is outstanding, and its deadline. -/
def completions (d : Devices) : List (Bool × Time) :=
  [(d.ttoBusy, d.ttoDoneNs), (d.rk.busy, d.rk.doneNs), (d.rp.busy, d.rp.doneNs),
    (d.tm.busy, d.tm.doneNs), (d.rl.busy, d.rl.doneNs)]

/-- A completion afterwards is one from before, or a new one due after `now`. -/
def KeptOrLater (now : Time) (p q : Bool × Time) : Prop :=
  q.1 = true → (p.1 = true ∧ q.2 = p.2) ∨ now < q.2

/-- The bits of `int_req` that no device has. -/
def strayRequests (intReq : BitVec 32) : BitVec 32 := intReq &&& ~~~0xFF

/-- A device operation: only devices and memory change, the clock schedule and the bits of no
device stay, and no completion is scheduled at or before the present. -/
structure DeviceStep (s s' : Cpu) : Prop where
  rest : s' = { s with dev := s'.dev, mem := s'.mem }
  tick : s'.dev.clkTickNs = s.dev.clkTickNs
  next : s'.dev.clkNextNs = s.dev.clkNextNs
  strays : strayRequests s'.dev.intReq = strayRequests s.dev.intReq
  later : s.acct.timeNs.toNat < 2 ^ 63 →
    List.Forall₂ (KeptOrLater s.acct.timeNs) (completions s.dev) (completions s'.dev)

namespace KeptOrLater

variable {now : Time} {p q r : Bool × Time}

theorem refl (p : Bool × Time) : KeptOrLater now p p := fun h => .inl ⟨h, rfl⟩

theorem trans (h : KeptOrLater now p q) (h' : KeptOrLater now q r) : KeptOrLater now p r := by
  intro hr
  obtain ⟨hq, he⟩ | hl := h' hr
  · obtain ⟨hp, he'⟩ | hl := h hq
    · exact .inl ⟨hp, he.trans he'⟩
    · exact .inr (he ▸ hl)
  · exact .inr hl

end KeptOrLater

namespace DeviceStep

variable {s t u : Cpu}

theorem acct (h : DeviceStep s t) : t.acct = s.acct := by rw [h.rest]

theorem refl (s : Cpu) : DeviceStep s s :=
  ⟨rfl, rfl, rfl, rfl, fun _ => List.forall₂_same.2 fun p _ => .refl p⟩

theorem trans (h : DeviceStep s t) (h' : DeviceStep t u) : DeviceStep s u where
  rest := by rw [h'.rest, h.rest]
  tick := h'.tick.trans h.tick
  next := h'.next.trans h.next
  strays := h'.strays.trans h.strays
  later hs := by
    have ht := h'.later (h.acct ▸ hs)
    rw [h.acct] at ht
    have hs := h.later hs
    simp only [completions, List.forall₂_cons, List.Forall₂.nil, and_true] at hs ht ⊢
    exact ⟨hs.1.trans ht.1, hs.2.1.trans ht.2.1, hs.2.2.1.trans ht.2.2.1,
      hs.2.2.2.1.trans ht.2.2.2.1, hs.2.2.2.2.trans ht.2.2.2.2⟩

theorem ite {c : Prop} [Decidable c] (ht : DeviceStep s t) (hu : DeviceStep s u) :
    DeviceStep s (if c then t else u) := by
  split
  · exact ht
  · exact hu

theorem foldl {ι : Type} {f : Cpu → ι → Cpu} (h : DeviceStep s t)
    (hf : ∀ t i, DeviceStep t (f t i)) (l : List ι) : DeviceStep s (l.foldl f t) := by
  induction l generalizing t with
  | nil => exact h
  | cons i l ih => exact ih (h.trans (hf t i))

theorem mem (h : DeviceStep s t) (m : Mem) : DeviceStep s { t with mem := m } :=
  h.trans ⟨rfl, rfl, rfl, rfl, (DeviceStep.refl t).later⟩

theorem setInt (h : DeviceStep s t) (d : IntId) : DeviceStep s (setInt t d) := by
  refine h.trans ⟨rfl, rfl, rfl, ?_, (DeviceStep.refl t).later⟩
  exact BitMask.or_and_not _ (by cases d <;> decide)

theorem clrInt (h : DeviceStep s t) (d : IntId) : DeviceStep s (clrInt t d) := by
  refine h.trans ⟨rfl, rfl, rfl, ?_, (DeviceStep.refl t).later⟩
  exact BitMask.and_not_and_not _ (by cases d <;> decide)

theorem rx (h : DeviceStep s t) (rx : Rx11) : DeviceStep s { t with dev.rx := rx } :=
  h.trans ⟨rfl, rfl, rfl, rfl, (DeviceStep.refl t).later⟩

section
variable {busy : Bool} {done : Time}

/-- A controller's registers change; its completion is kept, dropped or scheduled later. -/
theorem rk (h : DeviceStep s t) {rk : Rk11}
    (hd : t.acct.timeNs.toNat < 2 ^ 63 →
      KeptOrLater t.acct.timeNs (t.dev.rk.busy, t.dev.rk.doneNs) (rk.busy, rk.doneNs)) :
    DeviceStep s { t with dev.rk := rk } := by
  refine h.trans ⟨rfl, rfl, rfl, rfl, fun ht => ?_⟩
  simp only [completions, List.forall₂_cons, List.Forall₂.nil, and_true]
  exact ⟨.refl _, hd ht, .refl _, .refl _, .refl _⟩

theorem rp (h : DeviceStep s t) {rp : Rp11}
    (hd : t.acct.timeNs.toNat < 2 ^ 63 →
      KeptOrLater t.acct.timeNs (t.dev.rp.busy, t.dev.rp.doneNs) (rp.busy, rp.doneNs)) :
    DeviceStep s { t with dev.rp := rp } := by
  refine h.trans ⟨rfl, rfl, rfl, rfl, fun ht => ?_⟩
  simp only [completions, List.forall₂_cons, List.Forall₂.nil, and_true]
  exact ⟨.refl _, .refl _, hd ht, .refl _, .refl _⟩

theorem tm (h : DeviceStep s t) {tm : Tm11}
    (hd : t.acct.timeNs.toNat < 2 ^ 63 →
      KeptOrLater t.acct.timeNs (t.dev.tm.busy, t.dev.tm.doneNs) (tm.busy, tm.doneNs)) :
    DeviceStep s { t with dev.tm := tm } := by
  refine h.trans ⟨rfl, rfl, rfl, rfl, fun ht => ?_⟩
  simp only [completions, List.forall₂_cons, List.Forall₂.nil, and_true]
  exact ⟨.refl _, .refl _, .refl _, hd ht, .refl _⟩

theorem rl (h : DeviceStep s t) {rl : Rl11}
    (hd : t.acct.timeNs.toNat < 2 ^ 63 →
      KeptOrLater t.acct.timeNs (t.dev.rl.busy, t.dev.rl.doneNs) (rl.busy, rl.doneNs)) :
    DeviceStep s { t with dev.rl := rl } := by
  refine h.trans ⟨rfl, rfl, rfl, rfl, fun ht => ?_⟩
  simp only [completions, List.forall₂_cons, List.Forall₂.nil, and_true]
  exact ⟨.refl _, .refl _, .refl _, .refl _, hd ht⟩

end

end DeviceStep

/-- A deadline one delay from now lies in the future, before the 64-bit time wraps. -/
theorem lt_deadline {now base : Time} (extra : BitVec 32) (hn : now.toNat < 2 ^ 63)
    (h0 : 0 < base.toNat) (h1 : base.toNat < 2 ^ 32) : now < now + base + extra.setWidth 64 := by
  have he : (extra.setWidth 64).toNat < 2 ^ 32 := by
    rw [BitVec.toNat_setWidth]
    have := extra.isLt
    omega
  simp only [BitVec.lt_def, BitVec.toNat_add]
  omega

/-- A controller that lowers or raises its request changes nothing else. -/
theorem request_ite (s : Cpu) (d : IntId) (c c' : Prop) [Decidable c] [Decidable c'] :
    ∃ v, (if c then clrInt s d else if c' then setInt s d else s) = { s with dev.intReq := v } := by
  split_ifs
  · exact ⟨_, rfl⟩
  · exact ⟨_, rfl⟩
  · exact ⟨s.dev.intReq, rfl⟩

/-! ## RK11 -/

theorem rkSetError_step {s t : Cpu} (h : DeviceStep s t) (err : Word) :
    DeviceStep s (rkSetError t err) := by
  have h1 : DeviceStep s { t with
      dev.rk.rker := t.dev.rk.rker ||| err
      dev.rk.rkcs := t.dev.rk.rkcs ||| rkcsErr } := h.rk fun _ => .refl _
  exact .ite (h1.rk fun _ => .refl _) h1

theorem rkFinish_step {s t : Cpu} (h : DeviceStep s t) : DeviceStep s (rkFinish t) :=
  have h1 : DeviceStep s { t with
      dev.rk.busy := false
      dev.rk.rkcs := t.dev.rk.rkcs ||| rkcsDone } := h.rk fun _ hb => nomatch hb
  .ite (h1.setInt _) (h1.clrInt _)

theorem rkTransferWord_step (func : Word) (ma da : BitVec 32) (s : Cpu) (i : ℕ) :
    DeviceStep s (rkTransferWord func ma da s i) :=
  have h := DeviceStep.refl s
  .ite (h.mem _) <| .ite (h.rk fun _ => .refl _) <| .ite (rkSetError_step h _) h

theorem rkAdvance_step {s t : Cpu} (h : DeviceStep s t) (ma da wc : BitVec 32) :
    DeviceStep s (rkAdvance ma da wc t) := by
  have h1 : DeviceStep s { t with dev.rk.rkwc := t.dev.rk.rkwc + wc.setWidth 16 } :=
    h.rk fun _ => .refl _
  exact h1.rk fun _ => .refl _

theorem rkTransfer_step {s t : Cpu} (h : DeviceStep s t) (func : Word) :
    DeviceStep s (rkTransfer t func) :=
  rkAdvance_step (.foldl (.ite (rkSetError_step h _) h) (rkTransferWord_step _ _ _) _) _ _ _

theorem rkStart_step {s t : Cpu} (h : DeviceStep s t) (extra : BitVec 32) :
    DeviceStep s { t with
      dev.rk.busy := true
      dev.rk.doneNs := t.acct.timeNs + rkBaseNs + extra.setWidth 64 } :=
  h.rk fun ht _ => .inr (lt_deadline _ ht (by decide) (by decide))

theorem rkCs_step {s t : Cpu} (h : DeviceStep s t) (rkcs : Word) :
    DeviceStep s { t with dev.rk.rkcs := rkcs } := h.rk fun _ => .refl _

theorem rkGo_step {s t : Cpu} (h : DeviceStep s t) : DeviceStep s (rkGo t) := by
  have h0 : DeviceStep s { t with
      dev.rk.rker := 0
      dev.rk.rkda := 0
      dev.rk.rkba := 0
      dev.rk.rkcs := rkcsDone
      dev.rk.busy := false } := h.rk fun _ hb => nomatch hb
  have h2 := (rkCs_step h (t.dev.rk.rkcs &&& ~~~rkcsScp &&& ~~~rkcsDone)).clrInt .rk
  refine .ite (h0.clrInt _) <| .ite (rkFinish_step (rkSetError_step h2 _)) <|
    .ite (rkFinish_step h2) <| .ite (rkFinish_step (rkSetError_step h2 _)) <|
    .ite (rkFinish_step (rkSetError_step h2 _)) ?_
  exact rkStart_step (.ite (rkTransfer_step h2 _) h2) _

theorem rkPoll_step {s t : Cpu} (h : DeviceStep s t) : DeviceStep s (rkPoll t) :=
  .ite (rkFinish_step h) h

theorem rkWrite_step {s t : Cpu} (h : DeviceStep s t) (addr value : Word) :
    DeviceStep s (rkWrite t addr value) := by
  refine .ite ?_ <| .ite (h.rk fun _ => .refl _) <| .ite (h.rk fun _ => .refl _) <|
    .ite (.ite (h.rk fun _ => .refl _) h) h
  have h1 := rkCs_step h (t.dev.rk.rkcs &&& rkcsReal)
  refine .ite (rkGo_step (rkCs_step ?_ _)) (rkCs_step ?_ _) <;>
    exact .ite (h1.clrInt .rk) (.ite (h1.setInt .rk) h1)

/-! ## RH70 and RP04 -/

theorem rpFinish_step {s t : Cpu} (h : DeviceStep s t) : DeviceStep s (rpFinish t) :=
  have h1 : DeviceStep s { t with
      dev.rp.busy := false
      dev.rp.cs1 := t.dev.rp.cs1 ||| cs1Done
      dev.rp.ds := t.dev.rp.ds ||| dsAta } := h.rp fun _ hb => nomatch hb
  .ite (h1.setInt _) (h1.clrInt _)

theorem rpTransferWord_step (func : Word) (da : BitVec 32) (sm : Cpu × BitVec 32) (i : ℕ) :
    DeviceStep sm.1 (rpTransferWord func da sm i).1 :=
  have h := DeviceStep.refl sm.1
  .ite (h.mem _) <| .ite (h.rp fun _ => .refl _) h

theorem rpTransferWords_step (func : Word) (da : BitVec 32) (l : List ℕ) {s : Cpu}
    (sm : Cpu × BitVec 32) (h : DeviceStep s sm.1) :
    DeviceStep s (l.foldl (rpTransferWord func da) sm).1 := by
  induction l generalizing sm with
  | nil => exact h
  | cons i l ih => exact ih _ (h.trans (rpTransferWord_step func da sm i))

theorem rpTransfer_step {s t : Cpu} (h : DeviceStep s t) (func : Word) :
    DeviceStep s (rpTransfer t func) :=
  (rpTransferWords_step _ _ _ (t, _) h).rp fun _ => .refl _

theorem rpStart_step {s t : Cpu} (h : DeviceStep s t) (extra : BitVec 32) :
    DeviceStep s { t with
      dev.rp.busy := true
      dev.rp.doneNs := t.acct.timeNs + rpBaseNs + extra.setWidth 64 } :=
  h.rp fun ht _ => .inr (lt_deadline _ ht (by decide) (by decide))

theorem rpCs_step {s t : Cpu} (h : DeviceStep s t) (cs1 : Word) :
    DeviceStep s { t with dev.rp.cs1 := cs1 } := h.rp fun _ => .refl _

theorem rpGo_step {s t : Cpu} (h : DeviceStep s t) : DeviceStep s (rpGo t) := by
  have h1 := (rpCs_step h (t.dev.rp.cs1 &&& ~~~cs1Done)).clrInt .rp
  refine .ite (rpFinish_step (h1.rp fun _ => .refl _)) <|
    .ite (rpFinish_step (h1.rp fun _ => .refl _)) <| .ite (h1.rp fun ht _ => .inr ?_) <|
    .ite (rpStart_step (.ite (rpTransfer_step h1 _) h1) _) (rpFinish_step h1)
  simpa using lt_deadline 0 ht (by decide : 0 < rpBaseNs.toNat) (by decide)

theorem rpPoll_step {s t : Cpu} (h : DeviceStep s t) : DeviceStep s (rpPoll t) :=
  .ite (rpFinish_step h) h

theorem rpWriteCs1_step {s t : Cpu} (h : DeviceStep s t) (value : Word) :
    DeviceStep s (rpWriteCs1 t value) := by
  refine .ite (rpGo_step (rpCs_step ?_ _)) (rpCs_step ?_ _) <;>
    exact .ite (h.clrInt .rp) (.ite (h.setInt .rp) h)

theorem rpWriteCs2_step {s t : Cpu} (h : DeviceStep s t) (value : Word) :
    DeviceStep s (rpWriteCs2 t value) := by
  have h1 : DeviceStep s { t with
      dev.rp.cs1 := cs1Done
      dev.rp.er1 := 0
      dev.rp.busy := false } := h.rp fun _ hb => nomatch hb
  exact DeviceStep.rp (.ite (h1.clrInt .rp) h) fun _ => .refl _

theorem rpWrite_step {s t : Cpu} (h : DeviceStep s t) (addr value : Word) :
    DeviceStep s (rpWrite t addr value) := by
  unfold rpWrite
  split
  · exact h.rp fun _ => .refl _
  split
  · exact h
  split
  · exact h.rp fun _ => .refl _
  · exact h.rp fun _ => .refl _
  · exact rpWriteCs1_step h value
  · exact h.rp fun _ => .refl _
  · exact h.rp fun _ => .refl _
  · exact rpWriteCs2_step h value
  · exact h.rp fun _ => .refl _
  · exact h

/-! ## TM11 -/

theorem tmSetDone_step {s t : Cpu} (h : DeviceStep s t) : DeviceStep s (tmSetDone t) :=
  have h1 : DeviceStep s { t with
      dev.tm.busy := false
      dev.tm.cmd := t.dev.tm.cmd ||| mtcDone } := h.tm fun _ hb => nomatch hb
  .ite (h1.setInt _) (h1.clrInt _)

theorem tmMemWriteByte_step {s t : Cpu} (h : DeviceStep s t) (a : BitVec 32) (b : Byte) :
    DeviceStep s (tmMemWriteByte t a b) := h.mem _

theorem tmReadBytes_step {s t : Cpu} (h : DeviceStep s t) (xma data : BitVec 32) (l : List ℕ) :
    DeviceStep s (l.foldl (fun s i =>
      tmMemWriteByte s ((xma + BitVec.ofNat 32 i) &&& 0o777777)
        (s.dev.tm.tape.read (data + BitVec.ofNat 32 i))) t) :=
  h.foldl (fun t _ => tmMemWriteByte_step (.refl t) _ _) l

theorem tmExecRead_step {s t : Cpu} (h : DeviceStep s t) (xma cbc : BitVec 32) :
    DeviceStep s (tmExecRead t xma cbc) := by
  refine .ite (h.tm fun _ => .refl _) <| .ite (h.tm fun _ => .refl _) ?_
  refine DeviceStep.tm (tmReadBytes_step ?_ _ _ _) fun _ => .refl _
  exact .ite (h.tm fun _ => .refl _) h

theorem tmTape_step {s t : Cpu} (h : DeviceStep s t) (tape : ByteImage) :
    DeviceStep s { t with dev.tm.tape := tape } := h.tm fun _ => .refl _

theorem tmWriteBytes_step {s t : Cpu} (h : DeviceStep s t) (xma data : BitVec 32) (l : List ℕ) :
    DeviceStep s (l.foldl (fun s i =>
      let b := tmMemReadByte s ((xma + BitVec.ofNat 32 i) &&& 0o777777)
      { s with dev.tm.tape := s.dev.tm.tape.write (data + BitVec.ofNat 32 i) b }) t) :=
  h.foldl (fun t _ => tmTape_step (.refl t) _) l

theorem tmExecWrite_step {s t : Cpu} (h : DeviceStep s t) (xma cbc : BitVec 32) :
    DeviceStep s (tmExecWrite t xma cbc) := by
  refine .ite (h.tm fun _ => .refl _) ?_
  have h1 := tmWriteBytes_step (tmTape_step h (tapWriteLen t.dev.tm.tape t.dev.tm.pos cbc)) xma
    (t.dev.tm.pos + 4) (List.range cbc.toNat)
  exact DeviceStep.tm (.ite (tmTape_step h1 _) h1) fun _ => .refl _

theorem tmExecWreof_step {s t : Cpu} (h : DeviceStep s t) : DeviceStep s (tmExecWreof t) :=
  .ite (h.tm fun _ => .refl _) (h.tm fun _ => .refl _)

theorem tmExecSpacef_step {s t : Cpu} (h : DeviceStep s t) : DeviceStep s (tmExecSpacef t) :=
  .ite (h.tm fun _ => .refl _) <| .ite (h.tm fun _ => .refl _) (h.tm fun _ => .refl _)

theorem tmExecSpacer_step {s t : Cpu} (h : DeviceStep s t) : DeviceStep s (tmExecSpacer t) :=
  .ite (h.tm fun _ => .refl _) <| .ite (h.tm fun _ => .refl _) (h.tm fun _ => .refl _)

theorem tmExecute_step {s t : Cpu} (h : DeviceStep s t) (func : Word) :
    DeviceStep s (tmExecute t func) :=
  tmSetDone_step <| .ite (tmExecRead_step h _ _) <| .ite (tmExecWrite_step h _ _) <|
    .ite (tmExecWreof_step h) <| .ite (tmExecSpacef_step h) <| .ite (tmExecSpacer_step h) h

theorem tmPoll_step {s t : Cpu} (h : DeviceStep s t) : DeviceStep s (tmPoll t) :=
  .ite h <| .ite (tmSetDone_step (h.tm fun _ => .refl _)) (tmExecute_step h _)

theorem tmStart_step {s t : Cpu} (h : DeviceStep s t) (extra : BitVec 32) :
    DeviceStep s { t with
      dev.tm.busy := true
      dev.tm.doneNs := t.acct.timeNs + tmBaseNs + extra.setWidth 64 } :=
  h.tm fun ht _ => .inr (lt_deadline _ ht (by decide) (by decide))

theorem tmGo_step {s t : Cpu} (h : DeviceStep s t) : DeviceStep s (tmGo t) := by
  refine .ite (tmSetDone_step (h.tm fun _ => .refl _)) (tmStart_step (.clrInt ?_ _) _)
  exact h.tm fun _ => .refl _

theorem tmRead_step {s t : Cpu} (h : DeviceStep s t) (addr : Word) :
    DeviceStep s (tmRead t addr).2 := by
  unfold tmRead
  split_ifs
  all_goals first
    | exact h
    | exact h.tm fun _ => .refl _

theorem tmCmd_step {s t : Cpu} (h : DeviceStep s t) (cmd : Word) :
    DeviceStep s { t with dev.tm.cmd := cmd } := h.tm fun _ => .refl _

theorem tmWriteMtc_step {s t : Cpu} (h : DeviceStep s t) (value : Word) :
    DeviceStep s (tmWriteMtc t value) := by
  have h0 : DeviceStep s { t with
      dev.tm.cmd := mtcDone
      dev.tm.sta := 0
      dev.tm.bc := 0
      dev.tm.ca := 0
      dev.tm.db := 0
      dev.tm.busy := false } := h.tm fun _ hb => nomatch hb
  refine .ite (h0.clrInt _) (.ite (tmGo_step (tmCmd_step ?_ _)) (tmCmd_step ?_ _)) <;>
    exact .ite (h.clrInt .tm) (.ite (h.setInt .tm) h)

theorem tmWrite_step {s t : Cpu} (h : DeviceStep s t) (addr value : Word) :
    DeviceStep s (tmWrite t addr value) :=
  .ite (tmWriteMtc_step h value) <| .ite (h.tm fun _ => .refl _) <|
    .ite (h.tm fun _ => .refl _) <| .ite (h.tm fun _ => .refl _) h

/-! ## RL11 -/

theorem rlFinish_step {s t : Cpu} (h : DeviceStep s t) (status : Word) :
    DeviceStep s (rlFinish t status) := by
  unfold rlFinish
  extract_lets rlcs0 rlcs
  have h1 : DeviceStep s { t with
      dev.rl.busy := false
      dev.rl.rlcs := rlcs } := h.rl fun _ hb => nomatch hb
  exact .ite (h1.setInt _) (h1.clrInt _)

theorem rlTransferWord_step (func : Word) (ma da : BitVec 32) (ss : Cpu × Word) (i : ℕ) :
    DeviceStep ss.1 (rlTransferWord func ma da ss i).1 := by
  have h := DeviceStep.refl ss.1
  unfold rlTransferWord
  dsimp only
  split_ifs
  · exact h.mem _
  · exact h.rl fun _ => .refl _
  · exact h
  · exact h

theorem rlTransferWords_step (func : Word) (ma da : BitVec 32) (l : List ℕ) {s : Cpu}
    (ss : Cpu × Word) (h : DeviceStep s ss.1) :
    DeviceStep s (l.foldl (rlTransferWord func ma da) ss).1 := by
  induction l generalizing ss with
  | nil => exact h
  | cons i l ih => exact ih _ (h.trans (rlTransferWord_step func ma da ss i))

theorem rlAdvance_step {s : Cpu} (rl : Rl11) (ma wc : BitVec 32) {ss : Cpu × Word}
    (h : DeviceStep s ss.1) : DeviceStep s (rlAdvance rl ma wc ss).2 :=
  h.rl fun _ => .refl _

theorem rlTransfer_step {s t : Cpu} (h : DeviceStep s t) (func : Word) :
    DeviceStep s (rlTransfer t func).2 :=
  rlAdvance_step _ _ _ (rlTransferWords_step _ _ _ _ (t, _) h)

theorem rlCs_step {s t : Cpu} (h : DeviceStep s t) (rlcs : Word) :
    DeviceStep s { t with dev.rl.rlcs := rlcs } := h.rl fun _ => .refl _

theorem rlMp_step {s t : Cpu} (h : DeviceStep s t) (rlmp : Word) :
    DeviceStep s { t with dev.rl.rlmp := rlmp } := h.rl fun _ => .refl _

theorem rlStart_step {s : Cpu} {out : Word × Cpu} (h : DeviceStep s out.2) :
    DeviceStep s (rlStart out) :=
  h.rl fun ht _ => .inr (lt_deadline _ ht (by decide) (by decide))

theorem rlGo_step {s t : Cpu} (h : DeviceStep s t) : DeviceStep s (rlGo t) := by
  have h1 : DeviceStep s (clrInt { t with dev.rl.rlcs := t.dev.rl.rlcs &&& ~~~rlcsDone } .rl) :=
    (rlCs_step h _).clrInt _
  refine .ite (rlFinish_step h1 _) <| .ite (rlFinish_step h1 _) <|
    .ite (.ite (rlFinish_step h1 _) (rlFinish_step (rlMp_step h1 _) _)) <|
    .ite (h1.rl fun ht _ => .inr ?_) <| .ite (h1.rl fun ht _ => .inr ?_)
    (rlStart_step (rlTransfer_step h1 _))
  · simpa using lt_deadline 0 ht (by decide : 0 < rlBaseNs.toNat) (by decide)
  · simpa using lt_deadline 0 ht (by decide : 0 < rlBaseNs.toNat) (by decide)

theorem rlRead_step {s t : Cpu} (h : DeviceStep s t) (addr : Word) :
    DeviceStep s (rlRead t addr).2 := by
  unfold rlRead
  split
  · exact h.rl fun _ => .refl _
  · split_ifs <;> exact h

theorem rlWriteRlcs_step {s t : Cpu} (h : DeviceStep s t) (value : Word) :
    DeviceStep s (rlWriteRlcs t value) := by
  unfold rlWriteRlcs
  extract_lets rlcs
  have h1 : DeviceStep s { t with
      dev.rl.rlcs := rlcs
      dev.rl.rlbae := (t.dev.rl.rlbae &&& ~~~(3 : Word)) ||| ((rlcs >>> 4) &&& 3) } :=
    h.rl fun _ => .refl _
  refine .ite (.ite (h1.clrInt _) (.ite (h1.setInt _) h1)) ?_
  exact rlGo_step (rlCs_step (h1.clrInt .rl) _)

theorem rlWrite_step {s t : Cpu} (h : DeviceStep s t) (addr value : Word) :
    DeviceStep s (rlWrite t addr value) :=
  .ite (rlWriteRlcs_step h value) <| .ite (h.rl fun _ => .refl _) <|
    .ite (h.rl fun _ => .refl _) <| .ite (h.rl fun _ => .refl _) h

theorem rlPoll_step {s t : Cpu} (h : DeviceStep s t) : DeviceStep s (rlPoll t) :=
  .ite (rlFinish_step h 0) h

/-! ## RX11 -/

theorem rxDone_step {s t : Cpu} (h : DeviceStep s t) (esrFlags : Byte) (newEcode : Option Byte) :
    DeviceStep s (rxDone t esrFlags newEcode) := by
  have h1 : DeviceStep s { t with
      dev.rx.state := .idle
      dev.rx.rxcs := t.dev.rx.rxcs ||| rxcsDone } := h.rx _
  have h2 (rx : Rx11) : DeviceStep s
      { (if (t.dev.rx.rxcs ||| rxcsDone) &&& rxcsIe ≠ 0 then setInt { t with
          dev.rx.state := .idle
          dev.rx.rxcs := t.dev.rx.rxcs ||| rxcsDone } .rx
        else { t with
          dev.rx.state := .idle
          dev.rx.rxcs := t.dev.rx.rxcs ||| rxcsDone }) with dev.rx := rx } :=
    .rx (.ite (h1.setInt .rx) h1) _
  cases newEcode with
  | none => exact h2 _
  | some code =>
    refine DeviceStep.rx (.ite (.rx (h2 _) _) (h2 _)) _

theorem rxTransfer_step {s t : Cpu} (h : DeviceStep s t) : DeviceStep s (rxTransfer t) := by
  refine .ite (rxDone_step h _ _) <| .ite (rxDone_step h _ _) <|
    .ite (rxDone_step (h.rx _) _ _) <| .ite (rxDone_step (.rx (.ite ?_ ?_) _) _ _)
    (rxDone_step (.rx (.ite ?_ ?_) _) _ _)
  all_goals exact (h.rx _).rx _

theorem rxStep_step {s t : Cpu} (h : DeviceStep s t) : DeviceStep s (rxStep t) := by
  cases hs : t.dev.rx.state <;> simp only [rxStep, hs]
  case idle => exact h
  case rwds => exact h.rx _
  case rwdt => exact rxTransfer_step (h.rx _)
  case rwxfr => exact rxTransfer_step h
  case fill => exact .ite ((h.rx _).rx _) (rxDone_step (h.rx _) _ _)
  case empty => exact .ite (rxDone_step h _ _) (h.rx _)
  case cmddone => exact .ite (rxDone_step (h.rx _) _ _) (rxDone_step h _ _)

theorem rxRead_step {s t : Cpu} (h : DeviceStep s t) (addr : Word) :
    DeviceStep s (rxRead t addr).2 := by
  unfold rxRead
  split
  · exact h
  · split
    · exact rxStep_step (h.rx _)
    · exact h

theorem rxGo_step {s t : Cpu} (h : DeviceStep s t) (value : Word) :
    DeviceStep s (rxGo t value) := by
  have h1 : DeviceStep s { t with
      dev.rx.rxcs := value &&& (rxcsIe ||| rxcsDrv ||| rxcsFunc)
      dev.rx.bptr := 0 } := h.rx _
  exact .ite (h1.rx _) <| .ite (rxStep_step (h1.rx _)) <| .ite (h1.rx _) (rxStep_step (h1.rx _))

theorem rxWriteRxcs_step {s t : Cpu} (h : DeviceStep s t) (value : Word) :
    DeviceStep s (rxWriteRxcs t value) :=
  .ite ((h.rx _).clrInt _) <| .ite (rxGo_step h value)
    (.rx (.ite (h.clrInt .rx) (.ite (h.setInt .rx) h)) _)

theorem rxWrite_step {s t : Cpu} (h : DeviceStep s t) (addr value : Word) :
    DeviceStep s (rxWrite t addr value) :=
  .ite (rxWriteRxcs_step h value) <|
    .ite (.ite (rxStep_step ((h.rx _).rx _)) (h.rx _)) h

/-! ## Line clock and console -/

theorem clkCsr_step {s t : Cpu} (h : DeviceStep s t) (csr : Word) :
    DeviceStep s { t with dev.clkCsr := csr } :=
  h.trans ⟨rfl, rfl, rfl, rfl, (DeviceStep.refl t).later⟩

theorem clkWrite_step {s t : Cpu} (h : DeviceStep s t) (value : Word) :
    DeviceStep s (clkWrite t value) :=
  .ite ((clkCsr_step h _).setInt _) ((clkCsr_step h _).clrInt _)

theorem clkTick_step {s t : Cpu} (h : DeviceStep s t) : DeviceStep s (clkTick t) :=
  .ite ((clkCsr_step h _).setInt _) (clkCsr_step h _)

/-- The console's registers change, its transmitter schedule does not. -/
theorem console_step {s t : Cpu} (h : DeviceStep s t) (ttiCsr ttiBuf ttoCsr ttoBuf : Word)
    (out : Option (List Byte)) :
    DeviceStep s { t with
      dev.ttiCsr := ttiCsr, dev.ttiBuf := ttiBuf, dev.ttoCsr := ttoCsr, dev.ttoBuf := ttoBuf
      dev.consoleOut := out } :=
  h.trans ⟨rfl, rfl, rfl, rfl, (DeviceStep.refl t).later⟩

theorem consoleInput_step {s t : Cpu} (h : DeviceStep s t) (ch : Byte) :
    DeviceStep s (consoleInput t ch) :=
  .ite ((console_step h _ _ _ _ _).setInt _) (console_step h _ _ _ _ _)

/-- The transmitter is stopped, or started for a character time. -/
theorem tto_step {s t : Cpu} (h : DeviceStep s t) {busy : Bool} {done : Time} {csr : Word}
    (hd : t.acct.timeNs.toNat < 2 ^ 63 →
      KeptOrLater t.acct.timeNs (t.dev.ttoBusy, t.dev.ttoDoneNs) (busy, done)) :
    DeviceStep s { t with dev.ttoBusy := busy, dev.ttoDoneNs := done, dev.ttoCsr := csr } := by
  refine h.trans ⟨rfl, rfl, rfl, rfl, fun ht => ?_⟩
  simp only [completions, List.forall₂_cons, List.Forall₂.nil, and_true]
  exact ⟨hd ht, .refl _, .refl _, .refl _, .refl _⟩

theorem consoleTxPoll_step {s t : Cpu} (h : DeviceStep s t) : DeviceStep s (consoleTxPoll t) := by
  have h1 : DeviceStep s { t with
      dev.ttoBusy := false
      dev.ttoCsr := t.dev.ttoCsr ||| dl11Done } := tto_step h fun _ hb => nomatch hb
  exact .ite (.ite (h1.setInt _) h1) h

theorem consoleRead_step {s t : Cpu} (h : DeviceStep s t) (addr : Word) :
    DeviceStep s (consoleRead t addr).2 := by
  unfold consoleRead
  split
  · exact h
  split
  · exact (console_step h _ _ _ _ _).clrInt _
  · split_ifs <;> exact h

theorem dl11CsrInt_step {s t : Cpu} (h : DeviceStep s t) (csr value : Word) (d : IntId) :
    DeviceStep s (dl11CsrInt t csr value d) :=
  .ite (h.clrInt _) (.ite (h.setInt _) h)

theorem consoleWrite_step {s t : Cpu} (h : DeviceStep s t) (addr value : Word) :
    DeviceStep s (consoleWrite t addr value) := by
  refine .ite (console_step (dl11CsrInt_step h _ _ _) _ _ _ _ _) <|
    .ite (console_step (dl11CsrInt_step h _ _ _) _ _ _ _ _) <| .ite ?_ h
  refine tto_step ((console_step h _ _ _ _ _).clrInt _) fun ht _ => .inr ?_
  simpa using lt_deadline 0 ht (by decide : 0 < dl11TxNs.toNat) (by decide)

/-! ## Scheduled events -/

theorem clkTick_rest (s : Cpu) : clkTick s = { s with dev := (clkTick s).dev } := by
  simp only [clkTick]
  split <;> rfl

theorem serviceClock_rest (s : Cpu) : serviceClock s = { s with dev := (serviceClock s).dev } := by
  unfold serviceClock
  split
  · rw [clkTick_rest s]
  · rfl

/-- After the clock, servicing only polls the controllers. -/
theorem serviceDueEvents_step (s : Cpu) : DeviceStep (serviceClock s) (serviceDueEvents s) := by
  unfold serviceDueEvents
  extract_lets t1 t2 t3 t4 t5
  have h1 : DeviceStep t1 t2 := .ite (consoleTxPoll_step (.refl _)) (.refl _)
  have h2 : DeviceStep t1 t3 := .ite (rkPoll_step h1) h1
  have h3 : DeviceStep t1 t4 := .ite (rpPoll_step h2) h2
  have h4 : DeviceStep t1 t5 := .ite (tmPoll_step h3) h3
  exact .ite (rlPoll_step h4) h4

theorem serviceDueEvents_rest (s : Cpu) :
    serviceDueEvents s =
      { s with dev := (serviceDueEvents s).dev, mem := (serviceDueEvents s).mem } := by
  have h := (serviceDueEvents_step s).rest
  rw [serviceClock_rest s] at h
  exact h

/-! ## I/O page -/

/-- Any register read that answers is a device operation, and touches no memory. -/
def ReadStep (s : Cpu) (out : Option (Word × Cpu)) : Prop :=
  ∀ p ∈ out, DeviceStep s p.2 ∧ p.2.mem = s.mem

theorem readStep_some {s : Cpu} {p : Word × Cpu} (h : DeviceStep s p.2) (hm : p.2.mem = s.mem) :
    ReadStep s (some p) := by
  rintro _ ⟨⟩
  exact ⟨h, hm⟩

theorem ReadStep.ite {s : Cpu} {c : Prop} [Decidable c] {x y : Option (Word × Cpu)}
    (hx : ReadStep s x) (hy : ReadStep s y) : ReadStep s (if c then x else y) := by
  split
  · exact hx
  · exact hy

theorem rxDone_mem (s : Cpu) (esrFlags : Byte) (newEcode : Option Byte) :
    (rxDone s esrFlags newEcode).mem = s.mem := by
  unfold rxDone
  cases newEcode <;> dsimp only <;> split_ifs <;> rfl

theorem rxRead_mem (s : Cpu) (addr : Word) : (rxRead s addr).2.mem = s.mem := by
  unfold rxRead
  dsimp only
  split_ifs with h1 h2
  · rfl
  · simp only [rxStep, h2.1]
    split
    · exact rxDone_mem _ _ _
    · rfl
  · rfl

theorem ioReadReg_step (s : Cpu) (a : Word) : ReadStep s (ioReadReg s a) := by
  have h := DeviceStep.refl s
  have hs (v : Word) : ReadStep s (some (v, s)) := readStep_some h rfl
  have hconsole : (consoleRead s a).2.mem = s.mem := by
    unfold consoleRead
    split_ifs <;> rfl
  have htm : (tmRead s a).2.mem = s.mem := by
    unfold tmRead
    dsimp only
    split_ifs <;> rfl
  have hrl : (rlRead s a).2.mem = s.mem := by
    unfold rlRead
    split_ifs <;> rfl
  unfold ioReadReg
  refine .ite (hs _) <| .ite (hs _) <| .ite (hs _) <| .ite (hs _) <| .ite (hs _) <|
    .ite (hs _) <| .ite (hs _) <| .ite (hs _) <|
    .ite (readStep_some (consoleRead_step h a) hconsole) <|
    .ite (hs _) <| .ite (readStep_some (tmRead_step h a) htm) <|
    .ite (readStep_some (rlRead_step h a) hrl) <|
    .ite (readStep_some (rxRead_step h a) (rxRead_mem s a)) <| .ite (hs _) ?_
  split
  · exact hs _
  · exact hs _
  · intro p hp
    obtain ⟨w, -, rfl⟩ := Option.map_eq_some_iff.1 hp
    exact ⟨h, rfl⟩

/-- A write of an I/O-page register: memory management keeps its fault log, the processor its
control flags but the frozen codes, and the schedule is kept or extended. Only a load of the PSW
moves registers. -/
structure IoStep (s s' : Cpu) : Prop where
  cfg : s'.cfg = s.cfg
  acct : s'.acct = s.acct
  fp : s'.fp = s.fp
  ctl : s'.ctl = { s.ctl with ccFrozen := s'.ctl.ccFrozen }
  mmr1 : s'.mmu.mmr1 = s.mmu.mmr1
  mmr2 : s'.mmu.mmr2 = s.mmu.mmr2
  tick : s'.dev.clkTickNs = s.dev.clkTickNs
  next : s'.dev.clkNextNs = s.dev.clkNextNs
  strays : strayRequests s'.dev.intReq = strayRequests s.dev.intReq
  later : s.acct.timeNs.toNat < 2 ^ 63 →
    List.Forall₂ (KeptOrLater s.acct.timeNs) (completions s.dev) (completions s'.dev)
  regs : s'.regs = s.regs ∨ ∃ psw, s'.regs = (putPsw s psw).regs

theorem DeviceStep.io {s s' : Cpu} (h : DeviceStep s s') : IoStep s s' := by
  have hr := h.rest
  exact ⟨by rw [hr], by rw [hr], by rw [hr], by rw [hr], by rw [hr], by rw [hr], h.tick, h.next,
    h.strays, h.later, .inl (by rw [hr])⟩

/-- Any register write that answers is an I/O step, and only a write of MMR0 changes MMR0. -/
def WriteStep (s : Cpu) (a : Word) (out : Option Cpu) : Prop :=
  ∀ s' ∈ out, IoStep s s' ∧ (a ≠ iopageMmr0 → s'.mmu.mmr0 = s.mmu.mmr0)

section
variable {s : Cpu} {a : Word}

theorem writeStep_some {s' : Cpu} (h : IoStep s s') (h0 : s'.mmu.mmr0 = s.mmu.mmr0) :
    WriteStep s a (some s') := by
  rintro _ ⟨⟩
  exact ⟨h, fun _ => h0⟩

theorem writeStep_device {s' : Cpu} (h : DeviceStep s s') : WriteStep s a (some s') :=
  writeStep_some h.io (by rw [h.rest])

theorem WriteStep.ite {c : Prop} [Decidable c] {x y : Option Cpu}
    (hx : c → WriteStep s a x) (hy : ¬c → WriteStep s a y) :
    WriteStep s a (if c then x else y) := by
  split
  · exact hx ‹_›
  · exact hy ‹_›

theorem putPsw_eq (s : Cpu) (psw : Word) :
    putPsw s psw = { s with regs := (putPsw s psw).regs } := by
  simp only [putPsw]
  split_ifs <;> rfl

theorem pswWrite_step (value : Word) : WriteStep s a (some (pswWrite s value)) := by
  have h (psw : Word) : IoStep s { putPsw s psw with ctl.ccFrozen := true } := by
    rw [putPsw_eq]
    exact ⟨rfl, rfl, rfl, rfl, rfl, rfl, rfl, rfl, rfl, (DeviceStep.refl s).later, .inr ⟨psw, rfl⟩⟩
  exact writeStep_some (h _) (by rw [pswWrite, putPsw_eq])

theorem sysregWrite_step (value : Word) : WriteStep s a (sysregWrite s a value) := by
  have hs (sys : SysRegs) : WriteStep s a (some { s with sys := sys }) :=
    writeStep_some ⟨rfl, rfl, rfl, rfl, rfl, rfl, rfl, rfl, rfl, (DeviceStep.refl s).later, .inl rfl⟩ rfl
  have h0 : WriteStep s a (some s) := hs s.sys
  have hn : WriteStep s a none := by rintro _ ⟨⟩
  unfold sysregWrite
  split
  · exact hn
  split
  · exact hs _
  split
  · generalize ((a >>> 1) &&& 0o17).toNat = n
    split
    case h_13 => exact hn
    all_goals first
      | exact h0
      | exact hs _
  · exact hn

theorem ioWriteReg_step (s : Cpu) (a value : Word) : WriteStep s a (ioWriteReg s a value) := by
  have hr := DeviceStep.refl s
  have hm (mmu : Mmu) (h0 : mmu.mmr0 = s.mmu.mmr0) (h1 : mmu.mmr1 = s.mmu.mmr1)
      (h2 : mmu.mmr2 = s.mmu.mmr2) : WriteStep s a (some { s with mmu := mmu }) :=
    writeStep_some ⟨rfl, rfl, rfl, rfl, h1, h2, rfl, rfl, rfl, hr.later, .inl rfl⟩ h0
  unfold ioWriteReg
  refine .ite (fun _ => writeStep_device ⟨rfl, rfl, rfl, rfl, hr.later⟩) fun _ => ?_
  refine .ite (fun _ => pswWrite_step value) fun _ => ?_
  refine .ite (fun _ => writeStep_device ⟨rfl, rfl, rfl, rfl, hr.later⟩) fun _ => ?_
  refine .ite (fun h => ?_) fun _ => ?_
  · rintro _ ⟨⟩
    exact ⟨⟨rfl, rfl, rfl, rfl, rfl, rfl, rfl, rfl, rfl, hr.later, .inl rfl⟩, fun hn => absurd h hn⟩
  refine .ite (fun _ => hm _ rfl rfl rfl) fun _ => ?_
  refine .ite (fun _ => writeStep_device (clkWrite_step hr value)) fun _ => ?_
  refine .ite (fun _ => writeStep_device (consoleWrite_step hr a value)) fun _ => ?_
  refine .ite (fun _ => writeStep_device (rkWrite_step hr a value)) fun _ => ?_
  refine .ite (fun _ => writeStep_device (tmWrite_step hr a value)) fun _ => ?_
  refine .ite (fun _ => writeStep_device (rlWrite_step hr a value)) fun _ => ?_
  refine .ite (fun _ => writeStep_device (rxWrite_step hr a value)) fun _ => ?_
  refine .ite (fun _ => writeStep_device (rpWrite_step hr a value)) fun _ => ?_
  cases aprIndex a with
  | some p =>
    obtain ⟨isPar, idx⟩ := p
    cases isPar
    · exact hm _ rfl rfl rfl
    · exact hm _ rfl rfl rfl
  | none => exact sysregWrite_step value

end

/-! ## Register accesses by device -/

/-- The state a register write leaves, by the device that answers. -/
inductive RegWrite (s : Cpu) (a value : Word) : Cpu → Prop
  | processor (t : Cpu) (hdev : t.dev = { s.dev with pirq := t.dev.pirq, ubMap := t.dev.ubMap })
      (hmem : t.mem = s.mem) : RegWrite s a value t
  | clk (h : a = kw11lLks) : RegWrite s a value (clkWrite s value)
  | console : RegWrite s a value (consoleWrite s a value)
  | rk : RegWrite s a value (rkWrite s a value)
  | tm : RegWrite s a value (tmWrite s a value)
  | rl : RegWrite s a value (rlWrite s a value)
  | rx : RegWrite s a value (rxWrite s a value)
  | rp : RegWrite s a value (rpWrite s a value)

/-- The state a register read leaves, by the device that answers. -/
inductive RegRead (s : Cpu) (a : Word) : Cpu → Prop
  | none : RegRead s a s
  | console : RegRead s a (consoleRead s a).2
  | tm : RegRead s a (tmRead s a).2
  | rl : RegRead s a (rlRead s a).2
  | rx : RegRead s a (rxRead s a).2

section
variable {s : Cpu} {a value : Word}

theorem sysregWrite_regWrite {t : Cpu} (h : sysregWrite s a value = some t) :
    RegWrite s a value t := by
  have hs : ∀ t ∈ sysregWrite s a value, t.dev = s.dev ∧ t.mem = s.mem := by
    have hsys (sys : SysRegs) :
        ∀ t ∈ (some { s with sys := sys } : Option Cpu), t.dev = s.dev ∧ t.mem = s.mem := by
      rintro _ ⟨⟩
      exact ⟨rfl, rfl⟩
    have hnone : ∀ t ∈ (none : Option Cpu), t.dev = s.dev ∧ t.mem = s.mem := by rintro _ ⟨⟩
    unfold sysregWrite
    split
    · exact hnone
    split
    · exact hsys _
    split
    · generalize ((a >>> 1) &&& 0o17).toNat = n
      split
      case h_13 => exact hnone
      all_goals first
        | exact hsys s.sys
        | exact hsys _
    · exact hnone
  obtain ⟨hdev, hmem⟩ := hs t h
  exact .processor t (by rw [hdev]) hmem

theorem ioWriteReg_regWrite {t : Cpu} (h : ioWriteReg s a value = some t) :
    RegWrite s a value t := by
  have hite {c : Prop} [Decidable c] {x y : Option Cpu} (hx : c → x = some t → RegWrite s a value t)
      (hy : y = some t → RegWrite s a value t) : (if c then x else y) = some t →
      RegWrite s a value t := by
    split
    · exact hx ‹_›
    · exact hy
  have hsome {u : Cpu} (hu : RegWrite s a value u) : some u = some t → RegWrite s a value t := by
    rintro ⟨⟩
    exact hu
  have hrest {u : Cpu} (hdev : u.dev = { s.dev with pirq := u.dev.pirq, ubMap := u.dev.ubMap })
      (hmem : u.mem = s.mem) : some u = some t → RegWrite s a value t := hsome (.processor u hdev hmem)
  have hsame {u : Cpu} (hdev : u.dev = s.dev) (hmem : u.mem = s.mem) :
      some u = some t → RegWrite s a value t := hrest (by rw [hdev]) hmem
  have hpsw (psw : Word) : (putPsw s psw).dev = s.dev ∧ (putPsw s psw).mem = s.mem := by
    rw [putPsw_eq]
    exact ⟨rfl, rfl⟩
  revert h
  unfold ioWriteReg
  refine hite (fun _ => hrest rfl rfl) <| hite (fun _ => hsame (hpsw _).1 (hpsw _).2) <|
    hite (fun _ => hrest rfl rfl) <| hite (fun _ => hrest rfl rfl) <|
    hite (fun _ => hrest rfl rfl) <| hite (fun h => hsome (.clk h)) <|
    hite (fun _ => hsome .console) <| hite (fun _ => hsome .rk) <| hite (fun _ => hsome .tm) <|
    hite (fun _ => hsome .rl) <| hite (fun _ => hsome .rx) <| hite (fun _ => hsome .rp) ?_
  cases aprIndex a with
  | some p =>
    refine hsame ?_ ?_ <;> unfold aprWrite <;> split <;> rfl
  | none => exact sysregWrite_regWrite

theorem ioReadReg_regRead {p : Word × Cpu} (h : ioReadReg s a = some p) : RegRead s a p.2 := by
  have hite {c : Prop} [Decidable c] {x y : Option (Word × Cpu)} (hx : x = some p → RegRead s a p.2)
      (hy : y = some p → RegRead s a p.2) : (if c then x else y) = some p → RegRead s a p.2 := by
    split
    · exact hx
    · exact hy
  have hsome {q : Word × Cpu} (hq : RegRead s a q.2) : some q = some p → RegRead s a p.2 := by
    rintro ⟨⟩
    exact hq
  revert h
  unfold ioReadReg
  refine hite (hsome .none) <| hite (hsome .none) <| hite (hsome .none) <| hite (hsome .none) <|
    hite (hsome .none) <| hite (hsome .none) <| hite (hsome .none) <| hite (hsome .none) <|
    hite (hsome .console) <| hite (hsome .none) <| hite (hsome .tm) <| hite (hsome .rl) <|
    hite (hsome .rx) <| hite (hsome .none) ?_
  cases aprIndex a with
  | some q =>
    obtain ⟨isPar, idx⟩ := q
    cases isPar
    · exact hsome .none
    · exact hsome .none
  | none =>
    intro hp
    obtain ⟨v, -, rfl⟩ := Option.map_eq_some_iff.1 hp
    exact .none

end

end Pdp11
