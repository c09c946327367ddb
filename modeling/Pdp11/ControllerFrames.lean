import Pdp11.DeviceEffects
import Pdp11.StepEffects

namespace Pdp11

/-! The disk, tape and floppy controllers change their registers, the requests and memory, and
nothing else; and a disk only by a WRITE. -/

/-! ## Views -/

section
variable {β : Type}

/-- A view of the machine in which neither memory nor the interrupt requests show. -/
structure FrameView (v : Cpu → β) : Prop where
  mem : ∀ s m, v { s with mem := m } = v s
  req : ∀ s r, v { s with dev.intReq := r } = v s

/-- Nor do the registers of the RK11; its disk may show, unless it is hidden. -/
structure RkView (v : Cpu → β) (hidden : Prop) : Prop extends FrameView v where
  rk : ∀ s rk, hidden ∨ rk.disk = s.dev.rk.disk → v { s with dev.rk := rk } = v s

structure RpView (v : Cpu → β) (hidden : Prop) : Prop extends FrameView v where
  rp : ∀ s rp, hidden ∨ rp.disk = s.dev.rp.disk → v { s with dev.rp := rp } = v s

structure RlView (v : Cpu → β) (hidden : Prop) : Prop extends FrameView v where
  rl : ∀ s rl, hidden ∨ rl.disk = s.dev.rl.disk → v { s with dev.rl := rl } = v s

structure TmView (v : Cpu → β) (hidden : Prop) : Prop extends FrameView v where
  tm : ∀ s tm, hidden ∨ (tm.tape, tm.wrp) = (s.dev.tm.tape, s.dev.tm.wrp) →
    v { s with dev.tm := tm } = v s

structure RxView (v : Cpu → β) : Prop extends FrameView v where
  rx : ∀ s rx, v { s with dev.rx := rx } = v s

/-- Nothing changes in the view. -/
def Unseen (v : Cpu → β) (s t : Cpu) : Prop := v t = v s

variable {v : Cpu → β} {hidden : Prop} {s t u : Cpu}

namespace Unseen

theorem refl (s : Cpu) : Unseen v s s := rfl

theorem trans (h : Unseen v s t) (h' : Unseen v t u) : Unseen v s u := Eq.trans h' h

theorem ite_of {c : Prop} [Decidable c] (ht : c → Unseen v s t) (hu : ¬c → Unseen v s u) :
    Unseen v s (if c then t else u) := by
  split
  · exact ht ‹_›
  · exact hu ‹_›

theorem ite {c : Prop} [Decidable c] (ht : Unseen v s t) (hu : Unseen v s u) :
    Unseen v s (if c then t else u) := ite_of (fun _ => ht) fun _ => hu

theorem foldl {ι : Type} {f : Cpu → ι → Cpu} (h : Unseen v s t) (hf : ∀ t i, Unseen v t (f t i))
    (l : List ι) : Unseen v s (l.foldl f t) := by
  induction l generalizing t with
  | nil => exact h
  | cons i l ih => exact ih (h.trans (hf t i))

theorem mem (h : Unseen v s t) (hv : FrameView v) (m : Mem) : Unseen v s { t with mem := m } :=
  h.trans (hv.mem t m)

theorem setInt (h : Unseen v s t) (hv : FrameView v) (d : IntId) : Unseen v s (setInt t d) :=
  h.trans (hv.req t _)

theorem clrInt (h : Unseen v s t) (hv : FrameView v) (d : IntId) : Unseen v s (clrInt t d) :=
  h.trans (hv.req t _)

theorem rk (h : Unseen v s t) (hv : RkView v hidden) {rk : Rk11} (hdisk : rk.disk = t.dev.rk.disk) :
    Unseen v s { t with dev.rk := rk } := h.trans (hv.rk t rk (.inr hdisk))

theorem rk_disk (h : Unseen v s t) (hv : RkView v hidden) (hid : hidden) {rk : Rk11} :
    Unseen v s { t with dev.rk := rk } := h.trans (hv.rk t rk (.inl hid))

theorem rp (h : Unseen v s t) (hv : RpView v hidden) {rp : Rp11} (hdisk : rp.disk = t.dev.rp.disk) :
    Unseen v s { t with dev.rp := rp } := h.trans (hv.rp t rp (.inr hdisk))

theorem rp_disk (h : Unseen v s t) (hv : RpView v hidden) (hid : hidden) {rp : Rp11} :
    Unseen v s { t with dev.rp := rp } := h.trans (hv.rp t rp (.inl hid))

theorem rl (h : Unseen v s t) (hv : RlView v hidden) {rl : Rl11} (hdisk : rl.disk = t.dev.rl.disk) :
    Unseen v s { t with dev.rl := rl } := h.trans (hv.rl t rl (.inr hdisk))

theorem rl_disk (h : Unseen v s t) (hv : RlView v hidden) (hid : hidden) {rl : Rl11} :
    Unseen v s { t with dev.rl := rl } := h.trans (hv.rl t rl (.inl hid))

theorem tm (h : Unseen v s t) (hv : TmView v hidden) {tm : Tm11}
    (htape : (tm.tape, tm.wrp) = (t.dev.tm.tape, t.dev.tm.wrp)) :
    Unseen v s { t with dev.tm := tm } := h.trans (hv.tm t tm (.inr htape))

theorem tm_tape (h : Unseen v s t) (hv : TmView v hidden) (hid : hidden) {tm : Tm11} :
    Unseen v s { t with dev.tm := tm } := h.trans (hv.tm t tm (.inl hid))

theorem rx (h : Unseen v s t) (hv : RxView v) (rx : Rx11) : Unseen v s { t with dev.rx := rx } :=
  h.trans (hv.rx t rx)

end Unseen

/-! ## RK11 -/

section
variable (hv : RkView v hidden)
include hv

theorem rkSetError_unseen (h : Unseen v s t) (err : Word) : Unseen v s (rkSetError t err) :=
  have h1 : Unseen v s { t with
      dev.rk.rker := t.dev.rk.rker ||| err
      dev.rk.rkcs := t.dev.rk.rkcs ||| rkcsErr } := h.rk hv (by rfl)
  .ite (h1.rk hv (by rfl)) h1

theorem rkFinish_unseen (h : Unseen v s t) : Unseen v s (rkFinish t) :=
  have h1 : Unseen v s { t with
      dev.rk.busy := false
      dev.rk.rkcs := t.dev.rk.rkcs ||| rkcsDone } := h.rk hv (by rfl)
  .ite (h1.setInt hv.toFrameView .rk) (h1.clrInt hv.toFrameView .rk)

theorem rkTransferWord_unseen {func : Word} (hw : func = rkFuncWrite → hidden) (ma da : BitVec 32)
    (s : Cpu) (i : ℕ) : Unseen v s (rkTransferWord func ma da s i) := by
  have h := Unseen.refl (v := v) s
  unfold rkTransferWord
  dsimp only
  split_ifs with hread hwrite
  · exact h.mem hv.toFrameView _
  · exact h.rk_disk hv (hw hwrite)
  · exact rkSetError_unseen hv h _
  · exact h

theorem rkAdvance_unseen (h : Unseen v s t) (ma da wc : BitVec 32) :
    Unseen v s (rkAdvance ma da wc t) := by
  have h1 : Unseen v s { t with dev.rk.rkwc := t.dev.rk.rkwc + wc.setWidth 16 } :=
    h.rk hv (by rfl)
  exact h1.rk hv (by rfl)

theorem rkTransfer_unseen (h : Unseen v s t) {func : Word} (hw : func = rkFuncWrite → hidden) :
    Unseen v s (rkTransfer t func) :=
  rkAdvance_unseen hv (.foldl (.ite (rkSetError_unseen hv h _) h)
    (rkTransferWord_unseen hv hw _ _) _) _ _ _

theorem rkGo_unseen (h : Unseen v s t)
    (hw : (t.dev.rk.rkcs &&& rkcsFunc) >>> 1 = rkFuncWrite → hidden) : Unseen v s (rkGo t) := by
  have h0 : Unseen v s { t with
      dev.rk.rker := 0
      dev.rk.rkda := 0
      dev.rk.rkba := 0
      dev.rk.rkcs := rkcsDone
      dev.rk.busy := false } := h.rk hv (by rfl)
  have h1 : Unseen v s { t with dev.rk.rkcs := t.dev.rk.rkcs &&& ~~~rkcsScp &&& ~~~rkcsDone } :=
    h.rk hv (by rfl)
  have h2 := h1.clrInt hv.toFrameView .rk
  -- a drive reset goes on as a seek, and a seek does not write
  have hseek {func : Word} (hf : func = rkFuncWrite → hidden) :
      (if func = rkFuncDreset then rkFuncSeek else func) = rkFuncWrite → hidden := by
    split
    · exact fun hc => absurd hc (by decide)
    · exact hf
  refine .ite (h0.clrInt hv.toFrameView _) <|
    .ite (rkFinish_unseen hv (rkSetError_unseen hv h2 _)) <| .ite (rkFinish_unseen hv h2) <|
    .ite (rkFinish_unseen hv (rkSetError_unseen hv h2 _)) <|
    .ite (rkFinish_unseen hv (rkSetError_unseen hv h2 _)) ?_
  exact .rk (.ite (rkTransfer_unseen hv h2 (hseek hw)) h2) hv (by rfl)

theorem rkPoll_unseen (h : Unseen v s t) : Unseen v s (rkPoll t) := .ite (rkFinish_unseen hv h) h

theorem rkWrite_unseen (h : Unseen v s t) (a value : Word) (hw : a = 0o177404 →
    value &&& rkcsGo ≠ 0 → (value &&& rkcsFunc) >>> 1 = rkFuncWrite → hidden) :
    Unseen v s (rkWrite t a value) := by
  refine .ite_of (fun ha => ?_) fun _ => .ite (h.rk hv (by rfl)) <| .ite (h.rk hv (by rfl)) <|
    .ite (.ite (h.rk hv (by rfl)) h) h
  have h1 : Unseen v s { t with dev.rk.rkcs := t.dev.rk.rkcs &&& rkcsReal } := h.rk hv (by rfl)
  -- the function that RKCS holds when the command starts is the one stored
  have hfunc (c : Word) : ((c &&& ~~~rkcsRw) ||| (value &&& rkcsRw)) &&& rkcsFunc =
      value &&& rkcsFunc := BitMask.load_and_self _ _ (by decide)
  refine .ite_of (fun hgo => rkGo_unseen hv (.rk ?_ hv (by rfl)) fun hf => hw ha hgo.2 ?_)
    fun _ => .rk ?_ hv (by rfl)
  · exact .ite (h1.clrInt hv.toFrameView .rk) (.ite (h1.setInt hv.toFrameView .rk) h1)
  · dsimp only at hf
    rwa [hfunc] at hf
  · exact .ite (h1.clrInt hv.toFrameView .rk) (.ite (h1.setInt hv.toFrameView .rk) h1)

end

/-! ## RH70 and RP04 -/

theorem rpGetFnc_load (c value : Word) :
    rpGetFnc ((c &&& ~~~(cs1Rw ||| cs1Ie)) ||| (value &&& (cs1Rw ||| cs1Ie))) = rpGetFnc value := by
  have hsame (x : Word) : rpGetFnc x = rpGetFnc (x &&& 0o76) := by
    unfold rpGetFnc
    rw [BitVec.ushiftRight_and_distrib, BitVec.and_assoc]
    rfl
  rw [hsame, BitMask.load_and_self _ _ (by decide), ← hsame]

section
variable (hv : RpView v hidden)
include hv

theorem rpFinish_unseen (h : Unseen v s t) : Unseen v s (rpFinish t) :=
  have h1 : Unseen v s { t with
      dev.rp.busy := false
      dev.rp.cs1 := t.dev.rp.cs1 ||| cs1Done
      dev.rp.ds := t.dev.rp.ds ||| dsAta } := h.rp hv (by rfl)
  .ite (h1.setInt hv.toFrameView .rp) (h1.clrInt hv.toFrameView .rp)

theorem rpTransferWords_unseen {func : Word} (hw : func = rpFncWrite → hidden) (da : BitVec 32)
    (l : List ℕ) (sm : Cpu × BitVec 32) (h : Unseen v s sm.1) :
    Unseen v s (l.foldl (rpTransferWord func da) sm).1 := by
  induction l generalizing sm with
  | nil => exact h
  | cons i l ih =>
    have hword : Unseen v s (rpTransferWord func da sm i).1 := by
      unfold rpTransferWord
      dsimp only
      split_ifs with hread hwrite
      · exact h.mem hv.toFrameView _
      · exact h.rp_disk hv (hw hwrite)
      · exact h
    exact ih _ hword

theorem rpTransfer_unseen (h : Unseen v s t) {func : Word} (hw : func = rpFncWrite → hidden) :
    Unseen v s (rpTransfer t func) :=
  .rp (rpTransferWords_unseen hv hw _ _ (t, _) h) hv (by rfl)

theorem rpGo_unseen (h : Unseen v s t) (hw : rpGetFnc t.dev.rp.cs1 = rpFncWrite → hidden) :
    Unseen v s (rpGo t) := by
  have h1 : Unseen v s { t with dev.rp.cs1 := t.dev.rp.cs1 &&& ~~~cs1Done } := h.rp hv (by rfl)
  have h2 := h1.clrInt hv.toFrameView .rp
  refine .ite (rpFinish_unseen hv (.rp h2 hv (by rfl))) <|
    .ite (rpFinish_unseen hv (.rp h2 hv (by rfl))) <| .ite (.rp h2 hv (by rfl)) <|
    .ite (.rp (.ite (rpTransfer_unseen hv h2 hw) h2) hv (by rfl)) (rpFinish_unseen hv h2)

theorem rpPoll_unseen (h : Unseen v s t) : Unseen v s (rpPoll t) := .ite (rpFinish_unseen hv h) h

theorem rpWriteCs1_unseen (h : Unseen v s t) (value : Word)
    (hw : value &&& cs1Go ≠ 0 → rpGetFnc value = rpFncWrite → hidden) :
    Unseen v s (rpWriteCs1 t value) := by
  have hie (c c' : Prop) [Decidable c] [Decidable c'] : Unseen v s
      (if c then clrInt t .rp else if c' then setInt t .rp else t) :=
    .ite (h.clrInt hv.toFrameView .rp) (.ite (h.setInt hv.toFrameView .rp) h)
  refine .ite_of (fun hgo => rpGo_unseen hv (.rp (hie _ _) hv (by rfl)) fun hf => hw hgo.2 ?_)
    fun _ => .rp (hie _ _) hv (by rfl)
  dsimp only at hf
  rwa [rpGetFnc_load] at hf

theorem rpWriteCs2_unseen (h : Unseen v s t) (value : Word) : Unseen v s (rpWriteCs2 t value) := by
  have h1 : Unseen v s { t with
      dev.rp.cs1 := cs1Done
      dev.rp.er1 := 0
      dev.rp.busy := false } := h.rp hv (by rfl)
  exact .rp (.ite (h1.clrInt hv.toFrameView .rp) h) hv (by rfl)

theorem rpWrite_unseen (h : Unseen v s t) (a value : Word) (hw : rpRegSel a = some (.rh 0) →
    value &&& cs1Go ≠ 0 → rpGetFnc value = rpFncWrite → hidden) :
    Unseen v s (rpWrite t a value) := by
  unfold rpWrite
  refine .ite (h.rp hv (by rfl)) <| .ite h ?_
  split
  case h_3 ha => exact rpWriteCs1_unseen hv h value (hw ha)
  case h_6 => exact rpWriteCs2_unseen hv h value
  all_goals first
    | exact h
    | exact h.rp hv (by rfl)

end

/-! ## RL11 -/

section
variable (hv : RlView v hidden)
include hv

theorem rlFinish_unseen (h : Unseen v s t) (status : Word) : Unseen v s (rlFinish t status) :=
  .ite (.setInt (.rl h hv (by rfl)) hv.toFrameView _) (.clrInt (.rl h hv (by rfl)) hv.toFrameView _)

theorem rlTransferWords_unseen {func : Word} (hw : func = rlFuncWrite → hidden) (ma da : BitVec 32)
    (l : List ℕ) (ss : Cpu × Word) (h : Unseen v s ss.1) :
    Unseen v s (l.foldl (rlTransferWord func ma da) ss).1 := by
  induction l generalizing ss with
  | nil => exact h
  | cons i l ih =>
    have hword : Unseen v s (rlTransferWord func ma da ss i).1 := by
      unfold rlTransferWord
      dsimp only
      split_ifs with hread hwrite
      · exact h.mem hv.toFrameView _
      · exact h.rl_disk hv (hw hwrite)
      · exact h
      · exact h
    exact ih _ hword

theorem rlAdvance_unseen {ss : Cpu × Word} (h : Unseen v s ss.1) (rl : Rl11) (ma wc : BitVec 32) :
    Unseen v s (rlAdvance rl ma wc ss).2 := h.rl hv (by rfl)

theorem rlTransfer_unseen (h : Unseen v s t) {func : Word} (hw : func = rlFuncWrite → hidden) :
    Unseen v s (rlTransfer t func).2 :=
  rlAdvance_unseen hv (rlTransferWords_unseen hv hw _ _ _ (t, _) h) _ _ _

theorem rlStart_unseen {out : Word × Cpu} (h : Unseen v s out.2) : Unseen v s (rlStart out) :=
  h.rl hv (by rfl)

theorem rlGo_unseen (h : Unseen v s t)
    (hw : (t.dev.rl.rlcs &&& rlcsFunc) >>> 1 = rlFuncWrite → hidden) : Unseen v s (rlGo t) := by
  have h1 : Unseen v s { t with dev.rl.rlcs := t.dev.rl.rlcs &&& ~~~rlcsDone } := h.rl hv (by rfl)
  have h2 := h1.clrInt hv.toFrameView .rl
  exact .ite (rlFinish_unseen hv h2 _) <| .ite (rlFinish_unseen hv h2 _) <|
    .ite (.ite (rlFinish_unseen hv h2 _) (rlFinish_unseen hv (.rl h2 hv (by rfl)) _)) <|
    .ite (.rl h2 hv (by rfl)) <| .ite (.rl h2 hv (by rfl))
    (rlStart_unseen hv (rlTransfer_unseen hv h2 hw))

theorem rlPoll_unseen (h : Unseen v s t) : Unseen v s (rlPoll t) := .ite (rlFinish_unseen hv h 0) h

theorem rlRead_unseen (h : Unseen v s t) (a : Word) : Unseen v s (rlRead t a).2 := by
  unfold rlRead
  split
  · exact h.rl hv (by rfl)
  · split_ifs <;> exact h

theorem rlWriteRlcs_unseen (h : Unseen v s t) (value : Word) (hw : value &&& rlcsDone = 0 →
    (value &&& rlcsFunc) >>> 1 = rlFuncWrite → hidden) : Unseen v s (rlWriteRlcs t value) := by
  have h1 (rlcs rlbae : Word) : Unseen v s { t with
      dev.rl.rlcs := rlcs
      dev.rl.rlbae := rlbae } := h.rl hv (by rfl)
  have h2 (rlcs rlbae : Word) := (h1 rlcs rlbae).clrInt hv.toFrameView .rl
  -- the function of the command survives the clearing of the errors
  have hfunc (c : Word) : (((c &&& ~~~rlcsRw) ||| (value &&& rlcsRw)) &&& ~~~rlcsAllerr) &&&
      rlcsFunc = value &&& rlcsFunc :=
    (BitMask.and_not_and_eq _ (by decide)).trans (BitMask.load_and_self _ _ (by decide))
  refine .ite_of (fun _ => .ite (h2 _ _) (.ite ((h1 _ _).setInt hv.toFrameView .rl) (h1 _ _)))
    fun hgo => rlGo_unseen hv (.rl (h2 _ _) hv (by rfl)) fun hf => hw (not_not.1 hgo) ?_
  have hcs : ((((t.dev.rl.rlcs &&& ~~~rlcsRw) ||| (value &&& rlcsRw)) &&& ~~~rlcsAllerr) &&&
      rlcsFunc) >>> 1 = rlFuncWrite := hf
  rwa [hfunc] at hcs

theorem rlWrite_unseen (h : Unseen v s t) (a value : Word) (hw : a = 0o174400 →
    value &&& rlcsDone = 0 → (value &&& rlcsFunc) >>> 1 = rlFuncWrite → hidden) :
    Unseen v s (rlWrite t a value) :=
  .ite_of (fun ha => rlWriteRlcs_unseen hv h value (hw ha)) fun _ =>
    .ite (h.rl hv (by rfl)) <| .ite (h.rl hv (by rfl)) <| .ite (h.rl hv (by rfl)) h

end

/-! ## TM11 -/

/-- The functions of the TM11 that write the tape. -/
def TmWrites (func : Word) : Prop := func = tmFncWrite ∨ func = tmFncWreof ∨ func = tmFncWrext

instance (func : Word) : Decidable (TmWrites func) := inferInstanceAs (Decidable (_ ∨ _ ∨ _))

section
variable (hv : TmView v hidden)
include hv

theorem tmSetDone_unseen (h : Unseen v s t) : Unseen v s (tmSetDone t) :=
  .ite (.setInt (h.tm hv (by rfl)) hv.toFrameView _)
    (.clrInt (h.tm hv (by rfl)) hv.toFrameView _)

theorem tmExecRead_unseen (h : Unseen v s t) (xma cbc : BitVec 32) :
    Unseen v s (tmExecRead t xma cbc) := by
  refine .ite (h.tm hv (by rfl)) <| .ite (h.tm hv (by rfl)) <|
    .tm (.foldl (.ite (h.tm hv (by rfl)) h) ?_ _) hv (by rfl)
  exact fun u _ => .mem (.refl u) hv.toFrameView _

theorem tmExecWrite_unseen (h : Unseen v s t) (hw : t.dev.tm.wrp = false → hidden)
    (xma cbc : BitVec 32) : Unseen v s (tmExecWrite t xma cbc) := by
  refine .ite_of (fun _ => h.tm hv (by rfl)) fun hgo => ?_
  -- past the check of the write lock the tape is written
  have hid : hidden := hw (Bool.not_eq_true _ ▸ (not_or.1 hgo).1)
  have hlen : Unseen v s { t with
      dev.tm.tape := tapWriteLen t.dev.tm.tape t.dev.tm.pos cbc } := h.tm_tape hv hid
  have hdata := hlen.foldl
    (f := fun s i => { s with
      dev.tm.tape := s.dev.tm.tape.write (t.dev.tm.pos + 4 + BitVec.ofNat 32 i)
        (tmMemReadByte s ((xma + BitVec.ofNat 32 i) &&& 0o777777)) })
    (fun u _ => .tm_tape (.refl u) hv hid) (List.range cbc.toNat)
  exact .tm_tape (.ite (.tm_tape hdata hv hid) hdata) hv hid

theorem tmExecWreof_unseen (h : Unseen v s t) (hw : t.dev.tm.wrp = false → hidden) :
    Unseen v s (tmExecWreof t) := by
  refine .ite_of (fun _ => h.tm hv (by rfl)) fun hgo => h.tm_tape hv (hw ?_)
  exact Bool.not_eq_true _ ▸ (not_or.1 hgo).1

theorem tmExecute_unseen (h : Unseen v s t) {func : Word}
    (hw : t.dev.tm.wrp = false → TmWrites func → hidden) : Unseen v s (tmExecute t func) := by
  refine tmSetDone_unseen hv <| .ite (tmExecRead_unseen hv h _ _) <|
    .ite_of (fun hf => tmExecWrite_unseen hv h (fun hwrp => hw hwrp (hf.imp_right .inr)) _ _)
    fun _ => .ite_of (fun hf => tmExecWreof_unseen hv h fun hwrp => hw hwrp (.inr (.inl hf)))
    fun _ => .ite ?_ <| .ite ?_ h
  · exact .ite (h.tm hv (by rfl)) (.ite (h.tm hv (by rfl)) (h.tm hv (by rfl)))
  · exact .ite (h.tm hv (by rfl)) (.ite (h.tm hv (by rfl)) (h.tm hv (by rfl)))

theorem tmPoll_unseen (h : Unseen v s t) (hw : t.dev.tm.busy = true → t.dev.tm.wrp = false →
    TmWrites (tmGetFnc t.dev.tm.cmd) → hidden) : Unseen v s (tmPoll t) := by
  refine .ite_of (fun _ => h) fun hdue => .ite (tmSetDone_unseen hv (h.tm hv (by rfl))) ?_
  refine tmExecute_unseen hv h (hw ?_)
  simpa using (not_or.1 hdue).1

theorem tmGo_unseen (h : Unseen v s t) : Unseen v s (tmGo t) := by
  have h1 (sta cmd : Word) : Unseen v s { t with
      dev.tm.sta := sta
      dev.tm.cmd := cmd } := h.tm hv (by rfl)
  exact .ite (tmSetDone_unseen hv (h.tm hv (by rfl)))
    (.tm ((h1 _ _).clrInt hv.toFrameView .tm) hv (by rfl))

theorem tmRead_unseen (h : Unseen v s t) (a : Word) : Unseen v s (tmRead t a).2 := by
  unfold tmRead
  dsimp only
  split_ifs
  all_goals first
    | exact h
    | exact h.tm hv (by rfl)

theorem tmWrite_unseen (h : Unseen v s t) (a value : Word) : Unseen v s (tmWrite t a value) := by
  have hie (c c' : Prop) [Decidable c] [Decidable c'] : Unseen v s
      (if c then clrInt t .tm else if c' then setInt t .tm else t) :=
    .ite (h.clrInt hv.toFrameView .tm) (.ite (h.setInt hv.toFrameView .tm) h)
  have hmtc : Unseen v s (tmWriteMtc t value) :=
    .ite (.clrInt (h.tm hv (by rfl)) hv.toFrameView _) <|
    .ite (tmGo_unseen hv (.tm (hie _ _) hv (by rfl))) (.tm (hie _ _) hv (by rfl))
  exact .ite hmtc <| .ite (h.tm hv (by rfl)) <| .ite (h.tm hv (by rfl)) <|
    .ite (h.tm hv (by rfl)) h

end

/-! ## RX11 -/

section
variable (hv : RxView v)
include hv

theorem rxDone_unseen (h : Unseen v s t) (esrFlags : Byte) (newEcode : Option Byte) :
    Unseen v s (rxDone t esrFlags newEcode) := by
  have h1 : Unseen v s { t with
      dev.rx.state := .idle
      dev.rx.rxcs := t.dev.rx.rxcs ||| rxcsDone } := h.rx hv _
  have h2 (rx : Rx11) : Unseen v s
      { (if (t.dev.rx.rxcs ||| rxcsDone) &&& rxcsIe ≠ 0 then setInt { t with
          dev.rx.state := .idle
          dev.rx.rxcs := t.dev.rx.rxcs ||| rxcsDone } .rx
        else { t with
          dev.rx.state := .idle
          dev.rx.rxcs := t.dev.rx.rxcs ||| rxcsDone }) with dev.rx := rx } :=
    .rx (.ite (h1.setInt hv.toFrameView .rx) h1) hv _
  cases newEcode with
  | none => exact h2 _
  | some code => exact .rx (.ite (.rx (h2 _) hv _) (h2 _)) hv _

theorem rxTransfer_unseen (h : Unseen v s t) : Unseen v s (rxTransfer t) := by
  have h1 : Unseen v s { t with dev.rx.curTrack := t.dev.rx.track } := h.rx hv _
  refine .ite (rxDone_unseen hv h _ _) <| .ite (rxDone_unseen hv h _ _) <|
    .ite (rxDone_unseen hv h1 _ _) <| .ite (rxDone_unseen hv (.rx (.ite ?_ h1) hv _) _ _)
    (rxDone_unseen hv (.rx (.ite ?_ h1) hv _) _ _)
  all_goals exact h1.rx hv _

theorem rxStep_unseen (h : Unseen v s t) : Unseen v s (rxStep t) := by
  cases hs : t.dev.rx.state <;> simp only [rxStep, hs]
  case idle => exact h
  case rwds => exact h.rx hv _
  case rwdt => exact rxTransfer_unseen hv (h.rx hv _)
  case rwxfr => exact rxTransfer_unseen hv h
  case fill => exact .ite (.rx (h.rx hv _) hv _) (rxDone_unseen hv (h.rx hv _) _ _)
  case empty => exact .ite (rxDone_unseen hv h _ _) (h.rx hv _)
  case cmddone => exact .ite (rxDone_unseen hv (h.rx hv _) _ _) (rxDone_unseen hv h _ _)

theorem rxRead_unseen (h : Unseen v s t) (a : Word) : Unseen v s (rxRead t a).2 := by
  unfold rxRead
  dsimp only
  split_ifs
  · exact h
  · exact rxStep_unseen hv (h.rx hv _)
  · exact h

theorem rxGo_unseen (h : Unseen v s t) (value : Word) : Unseen v s (rxGo t value) := by
  have h1 : Unseen v s { t with
      dev.rx.rxcs := value &&& (rxcsIe ||| rxcsDrv ||| rxcsFunc)
      dev.rx.bptr := 0 } := h.rx hv _
  exact .ite (h1.rx hv _) <| .ite (rxStep_unseen hv (h1.rx hv _)) <| .ite (h1.rx hv _)
    (rxStep_unseen hv (h1.rx hv _))

theorem rxWrite_unseen (h : Unseen v s t) (a value : Word) : Unseen v s (rxWrite t a value) := by
  have hie (c c' : Prop) [Decidable c] [Decidable c'] : Unseen v s
      (if c then clrInt t .rx else if c' then setInt t .rx else t) :=
    .ite (h.clrInt hv.toFrameView .rx) (.ite (h.setInt hv.toFrameView .rx) h)
  have hcs : Unseen v s (rxWriteRxcs t value) :=
    .ite (.clrInt (h.rx hv _) hv.toFrameView _) <| .ite (rxGo_unseen hv h value) <|
    .rx (hie _ _) hv _
  have hdb : Unseen v s { t with dev.rx.rxdb := value.setWidth 8 } := h.rx hv _
  exact .ite hcs <| .ite (.ite (rxStep_unseen hv (hdb.rx hv _)) hdb) h

end

end

/-! ## Outside the units -/

/-- A state without the registers of the units, the interrupt requests and memory. -/
def outside (s : Cpu) : Cpu :=
  let none := (cpuAlloc .m1170).dev
  { s with
    dev.intReq := 0
    dev.rk := none.rk
    dev.rp := none.rp
    dev.tm := none.tm
    dev.rl := none.rl
    dev.rx := none.rx
    mem := fun _ => 0 }

theorem outside_frame : FrameView outside := ⟨fun _ _ => rfl, fun _ _ => rfl⟩

theorem outside_rk : RkView outside True := ⟨outside_frame, fun _ _ _ => rfl⟩

theorem outside_rp : RpView outside True := ⟨outside_frame, fun _ _ _ => rfl⟩

theorem outside_rl : RlView outside True := ⟨outside_frame, fun _ _ _ => rfl⟩

theorem outside_tm : TmView outside True := ⟨outside_frame, fun _ _ _ => rfl⟩

theorem outside_rx : RxView outside := ⟨outside_frame, fun _ _ => rfl⟩

/-- Outside the units nothing changes. -/
abbrev UnitsOnly (s t : Cpu) : Prop := Unseen outside s t

theorem UnitsOnly.congr {β : Type} {s t : Cpu} (h : UnitsOnly s t) (f : Cpu → β) :
    f (outside t) = f (outside s) := congrArg f h

/-- The clock and the console after the services, before the units are polled. -/
def serviceStation (s : Cpu) : Cpu :=
  let s := serviceClock s
  if s.dev.ttoBusy then consoleTxPoll s else s

theorem serviceDueEvents_unitsOnly (s : Cpu) :
    UnitsOnly (serviceStation s) (serviceDueEvents s) := by
  have h0 : UnitsOnly (serviceStation s) (serviceStation s) := .refl _
  unfold serviceDueEvents
  extract_lets t1 t2 t3 t4 t5
  have h3 : UnitsOnly (serviceStation s) t3 := .ite (rkPoll_unseen outside_rk h0) h0
  have h4 : UnitsOnly (serviceStation s) t4 := .ite (rpPoll_unseen outside_rp h3) h3
  have h5 : UnitsOnly (serviceStation s) t5 :=
    .ite (tmPoll_unseen outside_tm h4 fun _ _ _ => trivial) h4
  exact .ite (rlPoll_unseen outside_rl h5) h5

end Pdp11
