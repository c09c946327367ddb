import Pdp11.Step

namespace Pdp11

/-! The devices neither read nor write the scratch variables of a running step and the floating
accumulators, and only append to the console sink. -/

/-- What is seen of the parts of a state that no device looks at. -/
structure View where
  vec : Word → Word
  extra : BitVec 32 → BitVec 32
  fac : BitVec 64 → BitVec 64
  sink : Option (List Byte) → Option (List Byte)
  sink_put : ∀ out byte, sink (out.map (· ++ [byte])) = (sink out).map (· ++ [byte])

def view (w : View) (s : Cpu) : Cpu :=
  { s with
    ctl.abortVec := w.vec s.ctl.abortVec
    acct.eisExtraNs := w.extra s.acct.eisExtraNs
    fp.fac := fun r => w.fac (s.fp.fac r)
    dev.consoleOut := w.sink s.dev.consoleOut }

/-- Which scratch variables of a step will still be read. -/
structure Live where
  vec : Bool
  extra : Bool

/-- A state without the console sink and the scratch variables that are not live. -/
def trim (l : Live) (s : Cpu) : Cpu :=
  { s with
    ctl.abortVec := if l.vec then s.ctl.abortVec else 0
    acct.eisExtraNs := if l.extra then s.acct.eisExtraNs else 0
    dev.consoleOut := none }

def Live.view (l : Live) : View where
  vec x := if l.vec then x else 0
  extra x := if l.extra then x else 0
  fac := id
  sink _ := none
  sink_put _ _ := rfl

theorem trim_eq_view (l : Live) (s : Cpu) : trim l s = view l.view s := rfl

section View

variable {w : View} {s t : Cpu}

theorem view_ite {c : Prop} [Decidable c] {x y x' y' : Cpu} (hx : x' = view w x)
    (hy : y' = view w y) : (if c then x' else y') = view w (if c then x else y) := by
  split
  · exact hx
  · exact hy

theorem view_foldl {ι : Type} {f : Cpu → ι → Cpu} (hf : ∀ s i, f (view w s) i = view w (f s i))
    (xs : List ι) (h : t = view w s) : xs.foldl f t = view w (xs.foldl f s) := by
  rw [h]
  exact List.foldl_hom (view w) hf

theorem view_seq {g : Cpu → Cpu} (hg : ∀ s, g (view w s) = view w (g s)) (h : t = view w s) :
    g t = view w (g s) := by
  rw [h, hg]

/-- The same of a state with a value beside it. -/
def viewFst (w : View) {α : Type} (sv : Cpu × α) : Cpu × α := (view w sv.1, sv.2)

theorem viewFst_ite {α : Type} {c : Prop} [Decidable c] {x y x' y' : Cpu × α}
    (hx : x' = viewFst w x) (hy : y' = viewFst w y) :
    (if c then x' else y') = viewFst w (if c then x else y) := by
  split
  · exact hx
  · exact hy

/-- A value and the state after it was read. -/
def viewSnd (w : View) {α : Type} (vs : α × Cpu) : α × Cpu := (vs.1, view w vs.2)

theorem viewSnd_ite {α : Type} {c : Prop} [Decidable c] {x y x' y' : α × Cpu}
    (hx : x' = viewSnd w x) (hy : y' = viewSnd w y) :
    (if c then x' else y') = viewSnd w (if c then x else y) := by
  split
  · exact hx
  · exact hy

/-! ## RK11 -/

theorem rkSetError_view (err : Word) (h : t = view w s) :
    rkSetError t err = view w (rkSetError s err) := by
  subst h
  exact view_ite rfl rfl

theorem rkFinish_view (h : t = view w s) : rkFinish t = view w (rkFinish s) := by
  subst h
  exact view_ite rfl rfl

theorem rkTransferWord_view (func : Word) (ma da : BitVec 32) (s : Cpu) (i : ℕ) :
    rkTransferWord func ma da (view w s) i = view w (rkTransferWord func ma da s i) :=
  view_ite rfl <| view_ite rfl <| view_ite (rkSetError_view _ rfl) rfl

theorem rkAdvance_view (ma da wc : BitVec 32) (h : t = view w s) :
    rkAdvance ma da wc t = view w (rkAdvance ma da wc s) := by
  subst h
  rfl

theorem rkTransfer_view (func : Word) (h : t = view w s) :
    rkTransfer t func = view w (rkTransfer s func) := by
  subst h
  exact rkAdvance_view _ _ _ <| view_foldl (rkTransferWord_view func _ _) _ <|
    view_ite (rkSetError_view _ rfl) rfl

theorem rkStart_view (extra : BitVec 32) (h : t = view w s) :
    { t with
      dev.rk.busy := true
      dev.rk.doneNs := t.acct.timeNs + rkBaseNs + extra.setWidth 64 } =
    view w { s with
      dev.rk.busy := true
      dev.rk.doneNs := s.acct.timeNs + rkBaseNs + extra.setWidth 64 } := by
  subst h
  rfl

theorem rkGo_view (h : t = view w s) : rkGo t = view w (rkGo s) := by
  subst h
  refine view_ite rfl <| view_ite (rkFinish_view (rkSetError_view _ rfl)) <|
    view_ite (rkFinish_view rfl) <| view_ite (rkFinish_view (rkSetError_view _ rfl)) <|
    view_ite (rkFinish_view (rkSetError_view _ rfl)) ?_
  exact rkStart_view _ (view_ite (rkTransfer_view _ rfl) rfl)

theorem rkPoll_view (h : t = view w s) : rkPoll t = view w (rkPoll s) := by
  subst h
  exact view_ite (rkFinish_view rfl) rfl

theorem rkWrite_view (addr value : Word) (h : t = view w s) :
    rkWrite t addr value = view w (rkWrite s addr value) := by
  subst h
  refine view_ite ?_ <| view_ite rfl <| view_ite rfl <| view_ite (view_ite rfl rfl) rfl
  refine view_seq (g := fun s =>
    let s := { s with dev.rk.rkcs := (s.dev.rk.rkcs &&& ~~~rkcsRw) ||| (value &&& rkcsRw) }
    if s.dev.rk.rkcs &&& rkcsDone ≠ 0 ∧ value &&& rkcsGo ≠ 0 then rkGo s else s) ?_ ?_
  · exact fun _ => view_ite (rkGo_view rfl) rfl
  · exact view_ite rfl (view_ite rfl rfl)

/-! ## RH70 and RP04 -/

theorem rpFinish_view (h : t = view w s) : rpFinish t = view w (rpFinish s) := by
  subst h
  exact view_ite rfl rfl

theorem rpTransferWord_view (func : Word) (da : BitVec 32) (sm : Cpu × BitVec 32) (i : ℕ) :
    rpTransferWord func da (viewFst w sm) i = viewFst w (rpTransferWord func da sm i) := by
  have hs : (rpTransferWord func da (viewFst w sm) i).1 =
      view w (rpTransferWord func da sm i).1 := view_ite rfl (view_ite rfl rfl)
  have hma (sm : Cpu × BitVec 32) : (rpTransferWord func da sm i).2 =
      if (rpTransferWord func da sm i).1.dev.rp.cs2 &&& cs2Uai = 0 then sm.2 + 2 else sm.2 := rfl
  refine Prod.ext hs ?_
  rw [hma, hs]
  rfl

theorem rpTransferWords_view (func : Word) (da : BitVec 32) (xs : List ℕ) (s : Cpu)
    (ma : BitVec 32) :
    xs.foldl (rpTransferWord func da) (view w s, ma) =
      viewFst w (xs.foldl (rpTransferWord func da) (s, ma)) := by
  show xs.foldl _ (viewFst w (s, ma)) = _
  exact List.foldl_hom (viewFst w) (rpTransferWord_view func da)

theorem rpTransfer_view (func : Word) (h : t = view w s) :
    rpTransfer t func = view w (rpTransfer s func) := by
  subst h
  have hrp : (view w s).dev.rp = s.dev.rp := rfl
  unfold rpTransfer
  rw [hrp]
  dsimp only
  rw [rpTransferWords_view]
  generalize List.foldl _ _ _ = out
  rfl

theorem rpStart_view (extra : BitVec 32) (h : t = view w s) :
    { t with
      dev.rp.busy := true
      dev.rp.doneNs := t.acct.timeNs + rpBaseNs + extra.setWidth 64 } =
    view w { s with
      dev.rp.busy := true
      dev.rp.doneNs := s.acct.timeNs + rpBaseNs + extra.setWidth 64 } := by
  subst h
  rfl

theorem rpGo_view (h : t = view w s) : rpGo t = view w (rpGo s) := by
  subst h
  exact view_ite (rpFinish_view rfl) <| view_ite (rpFinish_view rfl) <| view_ite rfl <|
    view_ite (rpStart_view _ (view_ite (rpTransfer_view _ rfl) rfl)) (rpFinish_view rfl)

theorem rpPoll_view (h : t = view w s) : rpPoll t = view w (rpPoll s) := by
  subst h
  exact view_ite (rpFinish_view rfl) rfl

theorem rpWriteCs1_view (value : Word) (h : t = view w s) :
    rpWriteCs1 t value = view w (rpWriteCs1 s value) := by
  subst h
  refine view_seq (g := fun s =>
    let s := { s with
      dev.rp.cs1 := (s.dev.rp.cs1 &&& ~~~(cs1Rw ||| cs1Ie)) ||| (value &&& (cs1Rw ||| cs1Ie)) }
    if s.dev.rp.cs1 &&& cs1Done ≠ 0 ∧ value &&& cs1Go ≠ 0 then rpGo s else s) ?_ ?_
  · exact fun _ => view_ite (rpGo_view rfl) rfl
  · exact view_ite rfl (view_ite rfl rfl)

theorem rpWriteCs2_view (value : Word) (h : t = view w s) :
    rpWriteCs2 t value = view w (rpWriteCs2 s value) := by
  subst h
  refine view_seq (g := fun s => { s with dev.rp.cs2 := value }) (fun _ => rfl) ?_
  exact view_ite rfl rfl

theorem rpWrite_view (addr value : Word) (h : t = view w s) :
    rpWrite t addr value = view w (rpWrite s addr value) := by
  subst h
  refine view_ite rfl <| view_ite rfl ?_
  split
  · rfl
  · rfl
  · exact rpWriteCs1_view value rfl
  · rfl
  · rfl
  · exact rpWriteCs2_view value rfl
  · rfl
  · rfl

/-! ## TM11 -/

theorem tmSetDone_view (h : t = view w s) : tmSetDone t = view w (tmSetDone s) := by
  subst h
  exact view_ite rfl rfl

theorem tmExecRead_view (xma cbc : BitVec 32) (h : t = view w s) :
    tmExecRead t xma cbc = view w (tmExecRead s xma cbc) := by
  subst h
  refine view_ite rfl <| view_ite rfl ?_
  refine view_seq (g := fun u => { u with
    dev.tm.ca := (xma + _).setWidth 16
    dev.tm.bc := s.dev.tm.bc + _
    dev.tm.pos := _ }) (fun _ => rfl) ?_
  exact view_foldl (fun _ _ => rfl) _ (view_ite rfl rfl)

theorem tmExecWrite_view (xma cbc : BitVec 32) (h : t = view w s) :
    tmExecWrite t xma cbc = view w (tmExecWrite s xma cbc) := by
  subst h
  refine view_ite rfl ?_
  refine view_seq (g := fun u => { u with
    dev.tm.tape := tapWriteLen u.dev.tm.tape (s.dev.tm.pos + 4 + ((cbc + 1) &&& ~~~1)) cbc
    dev.tm.ca := (xma + cbc).setWidth 16
    dev.tm.bc := 0
    dev.tm.pos := _ }) (fun _ => rfl) ?_
  refine view_seq (g := fun u => if cbc &&& 1 ≠ 0 then
      { u with dev.tm.tape := u.dev.tm.tape.write (s.dev.tm.pos + 4 + cbc) 0 }
    else u) (fun _ => view_ite rfl rfl) ?_
  exact view_foldl (fun _ _ => rfl) _ rfl

theorem tmExecute_view (func : Word) (h : t = view w s) :
    tmExecute t func = view w (tmExecute s func) := by
  subst h
  refine tmSetDone_view ?_
  exact view_ite (tmExecRead_view _ _ rfl) <| view_ite (tmExecWrite_view _ _ rfl) <|
    view_ite (view_ite rfl rfl) <| view_ite (view_ite rfl <| view_ite rfl rfl) <|
    view_ite (view_ite rfl <| view_ite rfl rfl) rfl

theorem tmPoll_view (h : t = view w s) : tmPoll t = view w (tmPoll s) := by
  subst h
  exact view_ite rfl <| view_ite (tmSetDone_view rfl) (tmExecute_view _ rfl)

theorem tmGo_view (h : t = view w s) : tmGo t = view w (tmGo s) := by
  subst h
  exact view_ite (tmSetDone_view rfl) rfl

theorem tmWriteMtc_view (value : Word) (h : t = view w s) :
    tmWriteMtc t value = view w (tmWriteMtc s value) := by
  subst h
  refine view_ite rfl ?_
  refine view_seq (g := fun s =>
    let s := { s with dev.tm.cmd := (s.dev.tm.cmd &&& ~~~mtcRw) ||| (value &&& mtcRw) }
    if s.dev.tm.cmd &&& mtcDone ≠ 0 ∧ value &&& mtcGo ≠ 0 then tmGo s else s) ?_ ?_
  · exact fun _ => view_ite (tmGo_view rfl) rfl
  · exact view_ite rfl (view_ite rfl rfl)

theorem tmWrite_view (addr value : Word) (h : t = view w s) :
    tmWrite t addr value = view w (tmWrite s addr value) := by
  subst h
  exact view_ite (tmWriteMtc_view value rfl) <| view_ite rfl <| view_ite rfl <| view_ite rfl rfl

/-! ## RL11 -/

theorem rlFinish_view (status : Word) (h : t = view w s) :
    rlFinish t status = view w (rlFinish s status) := by
  subst h
  exact view_ite rfl rfl

theorem rlTransferWord_view (func : Word) (ma da : BitVec 32) (ss : Cpu × Word) (i : ℕ) :
    rlTransferWord func ma da (viewFst w ss) i = viewFst w (rlTransferWord func ma da ss i) :=
  viewFst_ite rfl <| viewFst_ite rfl <| viewFst_ite rfl rfl

theorem rlTransfer_view (func : Word) (s : Cpu) :
    rlTransfer (view w s) func = viewSnd w (rlTransfer s func) := by
  have hadvance (rl : Rl11) (ma wc : BitVec 32) (ss : Cpu × Word) :
      rlAdvance rl ma wc (viewFst w ss) = viewSnd w (rlAdvance rl ma wc ss) := rfl
  have hwords (ma da : BitVec 32) (xs : List ℕ) (status : Word) :
      xs.foldl (rlTransferWord func ma da) (view w s, status) =
        viewFst w (xs.foldl (rlTransferWord func ma da) (s, status)) := by
    show xs.foldl _ (viewFst w (s, status)) = _
    exact List.foldl_hom (viewFst w) (rlTransferWord_view func ma da)
  have hrl : (view w s).dev.rl = s.dev.rl := rfl
  unfold rlTransfer
  rw [hrl]
  dsimp only
  rw [hwords, hadvance]

theorem rlStart_view (out : Word × Cpu) :
    rlStart (viewSnd w out) = view w (rlStart out) := by
  have hrl : (viewSnd w out).2.dev.rl = out.2.dev.rl := rfl
  unfold rlStart
  dsimp only
  rw [hrl]
  generalize wordCount out.2.dev.rl.rlmp = wc
  rfl

theorem rlGo_view (h : t = view w s) : rlGo t = view w (rlGo s) := by
  subst h
  have hstart {u v : Cpu} (func : Word) (h : v = view w u) :
      rlStart (rlTransfer v func) = view w (rlStart (rlTransfer u func)) := by
    rw [h, rlTransfer_view, rlStart_view]
  refine view_ite (rlFinish_view _ rfl) <| view_ite (rlFinish_view _ rfl) <|
    view_ite (view_ite (rlFinish_view _ rfl) (rlFinish_view _ rfl)) <| view_ite rfl <|
    view_ite rfl ?_
  exact hstart _ rfl

theorem rlPoll_view (h : t = view w s) : rlPoll t = view w (rlPoll s) := by
  subst h
  exact view_ite (rlFinish_view _ rfl) rfl

theorem rlWriteRlcs_view (value : Word) (h : t = view w s) :
    rlWriteRlcs t value = view w (rlWriteRlcs s value) := by
  subst h
  exact view_ite (view_ite rfl <| view_ite rfl rfl) (rlGo_view rfl)

theorem rlWrite_view (addr value : Word) (h : t = view w s) :
    rlWrite t addr value = view w (rlWrite s addr value) := by
  subst h
  exact view_ite (rlWriteRlcs_view value rfl) <| view_ite rfl <| view_ite rfl <| view_ite rfl rfl

/-! ## RX11 -/

theorem rxDone_view (esrFlags : Byte) (newEcode : Option Byte) (h : t = view w s) :
    rxDone t esrFlags newEcode = view w (rxDone s esrFlags newEcode) := by
  subst h
  have hrxes {u v : Cpu} (h : v = view w u) :
      { v with dev.rx.rxes :=
          if v.dev.rx.disk.isSome then (v.dev.rx.rxes ||| esrFlags) &&& ~~~rxesDrdy ||| rxesDrdy
          else (v.dev.rx.rxes ||| esrFlags) &&& ~~~rxesDrdy } =
        view w { u with dev.rx.rxes :=
          if u.dev.rx.disk.isSome then (u.dev.rx.rxes ||| esrFlags) &&& ~~~rxesDrdy ||| rxesDrdy
          else (u.dev.rx.rxes ||| esrFlags) &&& ~~~rxesDrdy } := by
    subst h
    rfl
  cases newEcode with
  | none => exact hrxes (view_ite rfl rfl)
  | some code =>
    refine view_seq (g := fun u => { u with
      dev.rx.ecode := code
      dev.rx.rxdb := u.dev.rx.rxes }) (fun _ => rfl) ?_
    refine view_seq (g := fun u =>
      if 0 < code then { u with dev.rx.rxcs := u.dev.rx.rxcs ||| rxcsErr } else u) ?_ ?_
    · exact fun _ => view_ite rfl rfl
    · refine hrxes ?_
      exact view_ite rfl rfl

theorem rxTransfer_view (h : t = view w s) : rxTransfer t = view w (rxTransfer s) := by
  subst h
  have hrx : (view w s).dev.rx = s.dev.rx := rfl
  have hdisk {u v : Cpu} (disk : ByteImage) (h : v = view w u) :
      { v with dev.rx.disk := disk } = view w { u with dev.rx.disk := disk } := by
    subst h
    rfl
  have hbuf {u v : Cpu} (buf : BitVec 7 → Byte) (h : v = view w u) :
      { v with dev.rx.buf := buf } = view w { u with dev.rx.buf := buf } := by
    subst h
    rfl
  unfold rxTransfer
  rw [hrx]
  dsimp only
  refine view_ite (rxDone_view _ _ rfl) <| view_ite (rxDone_view _ _ rfl) <|
    view_ite (rxDone_view _ _ rfl) <| view_ite (rxDone_view _ _ ?_) (rxDone_view _ _ ?_)
  · exact hbuf _ (view_ite rfl rfl)
  · exact hdisk _ (view_ite rfl rfl)

theorem rxStep_view (h : t = view w s) : rxStep t = view w (rxStep s) := by
  subst h
  have hstate : (view w s).dev.rx.state = s.dev.rx.state := rfl
  cases hs : s.dev.rx.state <;> simp only [rxStep, hstate, hs]
  case rwds => rfl
  case rwdt => exact rxTransfer_view rfl
  case rwxfr => exact rxTransfer_view rfl
  case fill => exact view_ite rfl (rxDone_view _ _ rfl)
  case empty => exact view_ite (rxDone_view _ _ rfl) rfl
  case cmddone => exact view_ite (rxDone_view _ _ rfl) (rxDone_view _ _ rfl)

theorem rxGo_view (value : Word) (h : t = view w s) : rxGo t value = view w (rxGo s value) := by
  subst h
  exact view_ite rfl <| view_ite (rxStep_view rfl) <| view_ite rfl (rxStep_view rfl)

theorem rxWriteRxcs_view (value : Word) (h : t = view w s) :
    rxWriteRxcs t value = view w (rxWriteRxcs s value) := by
  subst h
  refine view_ite rfl <| view_ite (rxGo_view value rfl) ?_
  refine view_seq (g := fun u =>
    { u with dev.rx.rxcs := (u.dev.rx.rxcs &&& ~~~rxcsRw) ||| (value &&& rxcsRw) })
    (fun _ => rfl) ?_
  exact view_ite rfl (view_ite rfl rfl)

theorem rxWrite_view (addr value : Word) (h : t = view w s) :
    rxWrite t addr value = view w (rxWrite s addr value) := by
  subst h
  exact view_ite (rxWriteRxcs_view value rfl) <| view_ite (view_ite (rxStep_view rfl) rfl) rfl

/-! ## Line clock and console -/

theorem clkWrite_view (value : Word) (h : t = view w s) :
    clkWrite t value = view w (clkWrite s value) := by
  subst h
  exact view_ite rfl rfl

theorem clkTick_view (h : t = view w s) : clkTick t = view w (clkTick s) := by
  subst h
  exact view_ite rfl rfl

theorem consoleInput_view (ch : Byte) (h : t = view w s) :
    consoleInput t ch = view w (consoleInput s ch) := by
  subst h
  exact view_ite rfl rfl

theorem consoleTxPoll_view (h : t = view w s) : consoleTxPoll t = view w (consoleTxPoll s) := by
  subst h
  exact view_ite (view_ite rfl rfl) rfl

theorem dl11CsrInt_view (csr value : Word) (d : IntId) (h : t = view w s) :
    dl11CsrInt t csr value d = view w (dl11CsrInt s csr value d) := by
  subst h
  exact view_ite rfl (view_ite rfl rfl)

/-- The sink only grows: what it held before is never read. -/
theorem consoleWrite_view (addr value : Word) (h : t = view w s) :
    consoleWrite t addr value = view w (consoleWrite s addr value) := by
  subst h
  -- the character sent is appended to what is seen of the sink
  have hput := congrArg (fun out => { view w (consoleWrite s dl11Xbuf value) with
    dev.consoleOut := out }) (w.sink_put s.dev.consoleOut (value.setWidth 8)).symm
  refine view_ite ?_ <| view_ite ?_ <| view_ite hput rfl
  · exact view_seq (g := fun u =>
      { u with dev.ttiCsr := (u.dev.ttiCsr &&& ~~~dl11Ie) ||| (value &&& dl11Ie) })
      (fun _ => rfl) (dl11CsrInt_view _ _ _ rfl)
  · exact view_seq (g := fun u =>
      { u with dev.ttoCsr := (u.dev.ttoCsr &&& ~~~dl11Ie) ||| (value &&& dl11Ie) })
      (fun _ => rfl) (dl11CsrInt_view _ _ _ rfl)

/-! ## Services -/

theorem serviceClock_view (h : t = view w s) : serviceClock t = view w (serviceClock s) := by
  subst h
  refine view_ite ?_ rfl
  exact view_seq (g := fun u =>
    { u with dev.clkNextNs := u.dev.clkNextNs + u.dev.clkTickNs.setWidth 64 }) (fun _ => rfl)
    (clkTick_view rfl)

theorem serviceDueEvents_view (h : t = view w s) :
    serviceDueEvents t = view w (serviceDueEvents s) := by
  have hpoll (busy : Cpu → Bool) (hb : ∀ u, busy (view w u) = busy u) {poll : Cpu → Cpu}
      (hp : ∀ {u v : Cpu}, v = view w u → poll v = view w (poll u)) {u v : Cpu}
      (h : v = view w u) :
      (if busy v then poll v else v) = view w (if busy u then poll u else u) := by
    rw [h, hb]
    exact view_ite (hp rfl) rfl
  exact hpoll (·.dev.rl.busy) (fun _ => rfl) rlPoll_view <|
    hpoll (·.dev.tm.busy) (fun _ => rfl) tmPoll_view <|
    hpoll (·.dev.rp.busy) (fun _ => rfl) rpPoll_view <|
    hpoll (·.dev.rk.busy) (fun _ => rfl) rkPoll_view <|
    hpoll (·.dev.ttoBusy) (fun _ => rfl) consoleTxPoll_view (serviceClock_view h)

theorem idleSkip_view (h : t = view w s) : idleSkip t = view w (idleSkip s) := by
  subst h
  refine view_ite (serviceDueEvents_view ?_) rfl
  exact view_ite rfl rfl

/-! ## Register reads -/

theorem consoleRead_view (a : Word) (s : Cpu) :
    consoleRead (view w s) a = viewSnd w (consoleRead s a) :=
  viewSnd_ite rfl <| viewSnd_ite rfl <| viewSnd_ite rfl <| viewSnd_ite rfl rfl

theorem tmRead_view (a : Word) (s : Cpu) : tmRead (view w s) a = viewSnd w (tmRead s a) :=
  viewSnd_ite rfl <| viewSnd_ite rfl <| viewSnd_ite rfl <| viewSnd_ite rfl <| viewSnd_ite rfl <|
    viewSnd_ite rfl rfl

theorem rlRead_view (a : Word) (s : Cpu) : rlRead (view w s) a = viewSnd w (rlRead s a) :=
  viewSnd_ite rfl <| viewSnd_ite rfl <| viewSnd_ite rfl <| viewSnd_ite rfl rfl

theorem rxRead_view (a : Word) (s : Cpu) : rxRead (view w s) a = viewSnd w (rxRead s a) := by
  refine viewSnd_ite rfl <| viewSnd_ite ?_ rfl
  exact Prod.ext rfl (rxStep_view rfl)

theorem optionMap_ite {α : Type} {f : α → α} {c : Prop} [Decidable c] {x y x' y' : Option α}
    (hx : x' = x.map f) (hy : y' = y.map f) :
    (if c then x' else y') = (if c then x else y).map f := by
  split
  · exact hx
  · exact hy

theorem sysregRead_view (a : Word) (s : Cpu) : sysregRead (view w s) a = sysregRead s a := rfl

theorem ioReadReg_view (a : Word) (s : Cpu) :
    ioReadReg (view w s) a = (ioReadReg s a).map (viewSnd w) := by
  unfold ioReadReg
  refine optionMap_ite rfl <| optionMap_ite rfl <| optionMap_ite rfl <| optionMap_ite rfl <|
    optionMap_ite rfl <| optionMap_ite rfl <| optionMap_ite rfl <| optionMap_ite rfl <|
    optionMap_ite (congrArg some (consoleRead_view a s)) <| optionMap_ite rfl <|
    optionMap_ite (congrArg some (tmRead_view a s)) <|
    optionMap_ite (congrArg some (rlRead_view a s)) <|
    optionMap_ite (congrArg some (rxRead_view a s)) <| optionMap_ite rfl ?_
  cases aprIndex a with
  | some p =>
    obtain ⟨isPar, idx⟩ := p
    cases isPar <;> rfl
  | none =>
    dsimp only
    rw [sysregRead_view, Option.map_map]
    rfl

/-! ## Register writes -/

theorem putPsw_view (psw : Word) (h : t = view w s) : putPsw t psw = view w (putPsw s psw) := by
  subst h
  refine view_seq (g := fun u => { u with regs.psw := psw &&& s.cfg.pswMask }) (fun _ => rfl) ?_
  refine view_seq (g := fun u =>
    if curMode (psw &&& s.cfg.pswMask) ≠ curMode u.regs.psw then
      { u with
        regs.stackfile :=
          Function.update u.regs.stackfile (curMode u.regs.psw) (u.regs.r regSp)
        regs.r := Function.update u.regs.r regSp
          (u.regs.stackfile (curMode (psw &&& s.cfg.pswMask))) }
    else u) (fun _ => view_ite rfl rfl) ?_
  exact view_ite rfl rfl

theorem pswWrite_view (value : Word) (h : t = view w s) :
    pswWrite t value = view w (pswWrite s value) := by
  subst h
  exact view_seq (g := fun u => { u with ctl.ccFrozen := true }) (fun _ => rfl) (putPsw_view _ rfl)

theorem sysregWrite_view (a value : Word) (s : Cpu) :
    sysregWrite (view w s) a value = (sysregWrite s a value).map (view w) := by
  refine optionMap_ite rfl <| optionMap_ite rfl <| optionMap_ite ?_ rfl
  generalize ((a >>> 1) &&& 0o17).toNat = n
  split <;> rfl

theorem ioWriteReg_view (a value : Word) (s : Cpu) :
    ioWriteReg (view w s) a value = (ioWriteReg s a value).map (view w) := by
  unfold ioWriteReg
  refine optionMap_ite rfl <| optionMap_ite (congrArg some (pswWrite_view value rfl)) <|
    optionMap_ite rfl <| optionMap_ite rfl <| optionMap_ite rfl <|
    optionMap_ite (congrArg some (clkWrite_view value rfl)) <|
    optionMap_ite (congrArg some (consoleWrite_view a value rfl)) <|
    optionMap_ite (congrArg some (rkWrite_view a value rfl)) <|
    optionMap_ite (congrArg some (tmWrite_view a value rfl)) <|
    optionMap_ite (congrArg some (rlWrite_view a value rfl)) <|
    optionMap_ite (congrArg some (rxWrite_view a value rfl)) <|
    optionMap_ite (congrArg some (rpWrite_view a value rfl)) ?_
  cases aprIndex a with
  | some p =>
    obtain ⟨isPar, idx⟩ := p
    exact congrArg some (view_ite rfl rfl)
  | none => exact sysregWrite_view a value s

end View

end Pdp11
