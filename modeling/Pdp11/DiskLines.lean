import Pdp11.DeviceLines

namespace Pdp11

open InterruptLine Function

/-! ## RK11 -/

/-- The registers of the RK11 change, and its line by `f`. -/
theorem Moved.rk {s t : Cpu} {l : InterruptLine} (h : Moved .rk s t l) {rk : Rk11} {mem : Mem}
    (f : InterruptLine → InterruptLine)
    (hf : statusLine rk.rkcs rk.busy (requests t.dev .rk) = f (lines t .rk)) :
    Moved .rk s { t with dev.rk := rk, mem := mem } (f l) := by
  refine h.step f (fun d hd => ?_) hf fun _ => rfl
  cases d <;> first | rfl | exact absurd rfl hd

theorem Quiet.rk {s t : Cpu} (h : Quiet s t) {rk : Rk11} {mem : Mem}
    (hcs : rk.rkcs &&& 0o300 = t.dev.rk.rkcs &&& 0o300) (hbusy : rk.busy = t.dev.rk.busy) :
    Quiet s { t with dev.rk := rk, mem := mem } := by
  have hmoved : Moved .rk t { t with dev.rk := rk, mem := mem } (lines t .rk) := by
    refine (Moved.refl .rk t).rk id ?_
    rw [statusLine_congr hcs, hbusy]
    rfl
  exact h.trans ⟨hmoved.kept, rfl⟩

theorem rkSetError_quiet {s t : Cpu} (h : Quiet s t) (err : Word) :
    Quiet s (rkSetError t err) := by
  have h1 : Quiet s { t with
      dev.rk.rker := t.dev.rk.rker ||| err
      dev.rk.rkcs := t.dev.rk.rkcs ||| rkcsErr } := h.rk (BitMask.or_and_eq _ (by decide)) rfl
  exact .ite (h1.rk (BitMask.or_and_eq _ (by decide)) rfl) h1

theorem rkTransferWord_quiet (func : Word) (ma da : BitVec 32) (s : Cpu) (i : ℕ) :
    Quiet s (rkTransferWord func ma da s i) :=
  have h := Quiet.refl s
  .ite (h.rk rfl rfl) <| .ite (h.rk rfl rfl) <| .ite (rkSetError_quiet h _) h

theorem rkAdvance_quiet {s t : Cpu} (h : Quiet s t) (ma da wc : BitVec 32) :
    Quiet s (rkAdvance ma da wc t) :=
  h.rk (BitMask.load_and_eq _ _ (by decide)) rfl

theorem rkTransfer_quiet {s t : Cpu} (h : Quiet s t) (func : Word) : Quiet s (rkTransfer t func) :=
  rkAdvance_quiet (.foldl (.ite (rkSetError_quiet h _) h) (rkTransferWord_quiet _ _ _) _) _ _ _

theorem rkFinish_moved {s t : Cpu} {l : InterruptLine} (h : Moved .rk s t l) :
    Moved .rk s (rkFinish t) l.complete := by
  have h1 : Moved .rk s { t with
      dev.rk.busy := false
      dev.rk.rkcs := t.dev.rk.rkcs ||| rkcsDone } { l with done := true, busy := false } :=
    h.rk (fun l => { l with done := true, busy := false }) (statusLine_done _ _ _)
  have hie : (t.dev.rk.rkcs ||| rkcsDone).getLsbD 6 = l.ie := by
    rw [← h.own]
    simp [lineOf, statusLine]
  exact h1.settle hie

theorem rkAccept_moved {s t : Cpu} {l : InterruptLine} (h : Moved .rk s t l) :
    Moved .rk s (clrInt { t with
      dev.rk.rkcs := t.dev.rk.rkcs &&& ~~~rkcsScp &&& ~~~rkcsDone } .rk) l.accept := by
  have hline (csr : Word) (busy requested : Bool) :
      statusLine (csr &&& ~~~rkcsScp &&& ~~~rkcsDone) busy requested =
        { statusLine csr busy requested with done := false } := by
    simp [statusLine]
  have h1 : Moved .rk s { t with
      dev.rk.rkcs := t.dev.rk.rkcs &&& ~~~rkcsScp &&& ~~~rkcsDone } { l with done := false } :=
    h.rk (fun l => { l with done := false }) (hline _ _ _)
  exact h1.drop

theorem rkGo_follows {s t : Cpu} {l : InterruptLine} (h : Moved .rk s t l) :
    Follows Steps .rk s (rkGo t) l := by
  have h0 : Moved .rk s { t with
      dev.rk.rker := 0
      dev.rk.rkda := 0
      dev.rk.rkba := 0
      dev.rk.rkcs := rkcsDone
      dev.rk.busy := false } ⟨true, false, false, l.requested⟩ :=
    h.rk (fun l => ⟨true, false, false, l.requested⟩) (statusLine_ready _ _)
  have h1 := rkAccept_moved h
  have hfinish {u : Cpu} (hu : Moved .rk s u l.accept) : Follows Steps .rk s (rkFinish u) l :=
    (rkFinish_moved hu).follows (Step.complete l).steps
  have herror (err : Word) := hfinish (h1.quiet (rkSetError_quiet (.refl _) err))
  refine .ite (h0.drop.follows (Step.clear l).steps) <| .ite (herror _) <| .ite (hfinish h1) <|
    .ite (herror _) <| .ite (herror _) ?_
  exact ⟨l.begin, (Step.begin l).steps,
    Moved.rk (h1.quiet (.ite (rkTransfer_quiet (.refl _) _) (.refl _)))
      (fun l => { l with busy := true }) rfl⟩

theorem rkPoll_follows (s : Cpu) : Follows Served .rk s (rkPoll s) (lines s .rk) :=
  .ite ((rkFinish_moved (.refl .rk s)).follows (.complete _)) ((Quiet.refl s).follows .rk)

/-- A write of RKCS up to its command. -/
theorem rkIe_moved (s : Cpu) (value : Word) :
    Moved .rk s
      (let s := { s with dev.rk.rkcs := s.dev.rk.rkcs &&& rkcsReal }
      let s := ieWrite s (s.dev.rk.rkcs &&& (rkcsDone ||| rkcsIe) = rkcsDone) value .rk
      { s with dev.rk.rkcs := (s.dev.rk.rkcs &&& ~~~rkcsRw) ||| (value &&& rkcsRw) })
      ((lines s .rk).setIe (value.getLsbD 6)) := by
  have h1 : Moved .rk s { s with dev.rk.rkcs := s.dev.rk.rkcs &&& rkcsReal } (lines s .rk) := by
    refine (Moved.refl .rk s).quiet ((Quiet.refl s).rk ?_ rfl)
    show (s.dev.rk.rkcs &&& rkcsReal) &&& 0o300 = _
    rw [BitVec.and_assoc]
    rfl
  have hbit (i : ℕ) (hi : rkcsReal.getLsbD i = true) :
      (s.dev.rk.rkcs &&& rkcsReal).getLsbD i = s.dev.rk.rkcs.getLsbD i := by
    rw [BitVec.getLsbD_and, hi, Bool.and_true]
  have hready := done_only (s.dev.rk.rkcs &&& rkcsReal)
  rw [hbit 7 (by decide), hbit 6 (by decide)] at hready
  have h2 := h1.ieWrite hready value
  exact h2.rk (fun l => { l with ie := value.getLsbD 6 })
    (statusLine_load _ _ (by decide) (by decide) _ _)

/-- A write of RKCS without GO. -/
theorem rkWrite_ie (s : Cpu) {value : Word} (h : value &&& rkcsGo = 0) :
    Moved .rk s (rkWrite s 0o177404 value) ((lines s .rk).setIe (value.getLsbD 6)) := by
  have hie := rkIe_moved s value
  unfold rkWrite
  rw [if_pos rfl]
  dsimp only
  rw [if_neg fun hgo => hgo.2 h]
  exact hie

/-- The other registers do not touch the line. -/
theorem rkWrite_quiet {s : Cpu} {addr : Word} (h : addr ≠ 0o177404) (value : Word) :
    Quiet s (rkWrite s addr value) := by
  have hs := Quiet.refl s
  unfold rkWrite
  rw [if_neg h]
  exact .ite (hs.rk rfl rfl) <| .ite (hs.rk rfl rfl) <| .ite (.ite (hs.rk rfl rfl) hs) hs

theorem rkWrite_follows (s : Cpu) (addr value : Word) :
    Follows Steps .rk s (rkWrite s addr value) (lines s .rk) := by
  by_cases h : addr = 0o177404
  · have hie := rkIe_moved s value
    unfold rkWrite
    rw [if_pos h]
    refine .ite ?_ ?_
    · obtain ⟨l, hl, ht⟩ := rkGo_follows hie
      exact ⟨l, (Step.setIe _ _).steps.trans hl, ht⟩
    · exact ⟨_, (Step.setIe _ _).steps, hie⟩
  · exact ((rkWrite_quiet h value).follows .rk).mono fun _ _ => Served.steps

/-! ## RH70 and RP04 -/

theorem Moved.rp {s t : Cpu} {l : InterruptLine} (h : Moved .rp s t l) {rp : Rp11} {mem : Mem}
    (f : InterruptLine → InterruptLine)
    (hf : statusLine rp.cs1 rp.busy (requests t.dev .rp) = f (lines t .rp)) :
    Moved .rp s { t with dev.rp := rp, mem := mem } (f l) := by
  refine h.step f (fun d hd => ?_) hf fun _ => rfl
  cases d <;> first | rfl | exact absurd rfl hd

theorem Quiet.rp {s t : Cpu} (h : Quiet s t) {rp : Rp11} {mem : Mem}
    (hcs : rp.cs1 = t.dev.rp.cs1) (hbusy : rp.busy = t.dev.rp.busy) :
    Quiet s { t with dev.rp := rp, mem := mem } := by
  have hmoved : Moved .rp t { t with dev.rp := rp, mem := mem } (lines t .rp) := by
    refine (Moved.refl .rp t).rp id ?_
    rw [hcs, hbusy]
    rfl
  exact h.trans ⟨hmoved.kept, rfl⟩

theorem rpTransferWord_quiet (func : Word) (da : BitVec 32) (sm : Cpu × BitVec 32) (i : ℕ) :
    Quiet sm.1 (rpTransferWord func da sm i).1 :=
  have h := Quiet.refl sm.1
  .ite (h.rp rfl rfl) <| .ite (h.rp rfl rfl) h

theorem rpTransferWords_quiet (func : Word) (da : BitVec 32) (l : List ℕ) {s : Cpu}
    (sm : Cpu × BitVec 32) (h : Quiet s sm.1) :
    Quiet s (l.foldl (rpTransferWord func da) sm).1 := by
  induction l generalizing sm with
  | nil => exact h
  | cons i l ih => exact ih _ (h.trans (rpTransferWord_quiet func da sm i))

theorem rpTransfer_quiet {s t : Cpu} (h : Quiet s t) (func : Word) : Quiet s (rpTransfer t func) :=
  (rpTransferWords_quiet _ _ _ (t, _) h).rp rfl rfl

theorem rpFinish_moved {s t : Cpu} {l : InterruptLine} (h : Moved .rp s t l) :
    Moved .rp s (rpFinish t) l.complete := by
  have h1 : Moved .rp s { t with
      dev.rp.busy := false
      dev.rp.cs1 := t.dev.rp.cs1 ||| cs1Done
      dev.rp.ds := t.dev.rp.ds ||| dsAta } { l with done := true, busy := false } :=
    h.rp (fun l => { l with done := true, busy := false }) (statusLine_done _ _ _)
  have hie : (t.dev.rp.cs1 ||| cs1Done).getLsbD 6 = l.ie := by
    rw [← h.own]
    simp [lineOf, statusLine]
  exact h1.settle hie

theorem rpGo_follows {s t : Cpu} {l : InterruptLine} (h : Moved .rp s t l) :
    Follows Steps .rp s (rpGo t) l := by
  have h1 : Moved .rp s { t with dev.rp.cs1 := t.dev.rp.cs1 &&& ~~~cs1Done }
      { l with done := false } :=
    h.rp (fun l => { l with done := false }) (statusLine_clearDone _ _ _)
  have h2 : Moved .rp s (clrInt { t with dev.rp.cs1 := t.dev.rp.cs1 &&& ~~~cs1Done } .rp)
      l.accept := h1.drop
  have hfinish {u : Cpu} (hu : Quiet (clrInt { t with dev.rp.cs1 := t.dev.rp.cs1 &&& ~~~cs1Done } .rp)
      u) : Follows Steps .rp s (rpFinish u) l :=
    (rpFinish_moved (h2.quiet hu)).follows (Step.complete l).steps
  have hq := Quiet.refl (clrInt { t with dev.rp.cs1 := t.dev.rp.cs1 &&& ~~~cs1Done } .rp)
  unfold rpGo
  refine .ite (hfinish (hq.rp rfl rfl)) <| .ite (hfinish (hq.rp rfl rfl)) <| .ite ?_ <|
    .ite ?_ (hfinish hq)
  · exact ⟨l.begin, (Step.begin l).steps, Moved.rp h2 (fun l => { l with busy := true }) rfl⟩
  · exact ⟨l.begin, (Step.begin l).steps,
      Moved.rp (h2.quiet (.ite (rpTransfer_quiet hq _) hq)) (fun l => { l with busy := true }) rfl⟩

theorem rpPoll_follows (s : Cpu) : Follows Served .rp s (rpPoll s) (lines s .rp) :=
  .ite ((rpFinish_moved (.refl .rp s)).follows (.complete _)) ((Quiet.refl s).follows .rp)

/-- A write of CS1 up to its command. -/
theorem rpIe_moved (s : Cpu) (value : Word) :
    Moved .rp s
      (let s := ieWrite s (s.dev.rp.cs1 &&& (cs1Done ||| cs1Ie) = cs1Done) value .rp
      { s with dev.rp.cs1 :=
        (s.dev.rp.cs1 &&& ~~~(cs1Rw ||| cs1Ie)) ||| (value &&& (cs1Rw ||| cs1Ie)) })
      ((lines s .rp).setIe (value.getLsbD 6)) := by
  have h1 := (Moved.refl .rp s).ieWrite (done_only s.dev.rp.cs1) value
  exact h1.rp (fun l => { l with ie := value.getLsbD 6 })
    (statusLine_load _ _ (by decide) (by decide) _ _)

theorem rpWriteCs1_follows (s : Cpu) (value : Word) :
    Follows Steps .rp s (rpWriteCs1 s value) (lines s .rp) := by
  have hie := rpIe_moved s value
  unfold rpWriteCs1
  refine .ite ?_ ?_
  · obtain ⟨l, hl, h⟩ := rpGo_follows hie
    exact ⟨l, (Step.setIe _ _).steps.trans hl, h⟩
  · exact ⟨_, (Step.setIe _ _).steps, hie⟩

/-- A write of CS1 without GO. -/
theorem rpWriteCs1_ie (s : Cpu) {value : Word} (h : value &&& cs1Go = 0) :
    Moved .rp s (rpWriteCs1 s value) ((lines s .rp).setIe (value.getLsbD 6)) := by
  have hie := rpIe_moved s value
  unfold rpWriteCs1
  dsimp only
  rw [if_neg fun hgo => hgo.2 h]
  exact hie

/-- CLR clears the controller, whatever it is doing. -/
theorem rpWriteCs2_moved (s : Cpu) (value : Word) : Quiet s (rpWriteCs2 s value) ∨
    Moved .rp s (rpWriteCs2 s value) (lines s .rp).clear := by
  have h1 : Moved .rp s { s with
      dev.rp.cs1 := cs1Done
      dev.rp.er1 := 0
      dev.rp.busy := false } ⟨true, false, false, (lines s .rp).requested⟩ :=
    (Moved.refl .rp s).rp (fun l => ⟨true, false, false, l.requested⟩) (statusLine_ready _ _)
  have hcs2 (t : Cpu) : Quiet t { t with dev.rp.cs2 := value } := (Quiet.refl t).rp rfl rfl
  unfold rpWriteCs2
  dsimp only
  split
  · exact .inr (h1.drop.quiet (hcs2 _))
  · exact .inl (hcs2 s)

/-- CS1 is selected at the base of the window alone. -/
theorem rpRegSel_cs1 {addr : Word} (h : rpRegSel addr = some (.rh 0)) : addr &&& ~~~1 = rpCsr := by
  have hmap : ∀ n : Fin 32, rpMapofs[n.val]? = some (.rh 0) → n.val = 0 := by decide
  unfold rpRegSel at h
  split at h
  · cases h
  · obtain ⟨hn, -⟩ := List.getElem?_eq_some_iff.1 h
    have hzero : ((addr - rpCsr) >>> 1).toNat = 0 := hmap ⟨_, hn⟩ h
    have hsmall : (addr - rpCsr).toNat < 2 := by
      rw [BitVec.toNat_ushiftRight, Nat.shiftRight_eq_div_pow] at hzero
      omega
    have hcases : addr - rpCsr = 0 ∨ addr - rpCsr = 1 := by
      have h0 : (0 : Word).toNat = 0 := rfl
      have h1 : (1 : Word).toNat = 1 := rfl
      rw [← BitVec.toNat_inj, ← BitVec.toNat_inj, h0, h1]
      omega
    rcases hcases with h0 | h0
    · rw [← BitVec.sub_add_cancel addr rpCsr, h0]
      decide
    · rw [← BitVec.sub_add_cancel addr rpCsr, h0]
      decide

/-- A write of CS1; the other registers leave the line alone or clear the controller. -/
theorem rpWrite_cases (s : Cpu) (addr value : Word) :
    (addr &&& ~~~1 = rpCsr ∧ rpWrite s addr value = rpWriteCs1 s value) ∨
      Quiet s (rpWrite s addr value) ∨ Moved .rp s (rpWrite s addr value) (lines s .rp).clear := by
  have hs := Quiet.refl s
  unfold rpWrite
  split
  · exact .inr (.inl (hs.rp rfl rfl))
  split
  · exact .inr (.inl hs)
  split
  · exact .inr (.inl (hs.rp rfl rfl))
  · exact .inr (.inl (hs.rp rfl rfl))
  · rename_i hsel
    exact .inl ⟨rpRegSel_cs1 hsel, rfl⟩
  · exact .inr (.inl (hs.rp rfl rfl))
  · exact .inr (.inl (hs.rp rfl rfl))
  · exact .inr (rpWriteCs2_moved s value)
  · exact .inr (.inl (hs.rp rfl rfl))
  · exact .inr (.inl hs)

theorem rpWrite_follows (s : Cpu) (addr value : Word) :
    Follows Steps .rp s (rpWrite s addr value) (lines s .rp) := by
  obtain ⟨-, hcs1⟩ | h | h := rpWrite_cases s addr value
  · rw [hcs1]
    exact rpWriteCs1_follows s value
  · exact (h.follows .rp).mono fun _ _ => Served.steps
  · exact h.follows (Step.clear _).steps

/-! ## TM11 -/

theorem Moved.tm {s t : Cpu} {l : InterruptLine} (h : Moved .tm s t l) {tm : Tm11} {mem : Mem}
    (f : InterruptLine → InterruptLine)
    (hf : statusLine tm.cmd tm.busy (requests t.dev .tm) = f (lines t .tm)) :
    Moved .tm s { t with dev.tm := tm, mem := mem } (f l) := by
  refine h.step f (fun d hd => ?_) hf fun _ => rfl
  cases d <;> first | rfl | exact absurd rfl hd

theorem Quiet.tm {s t : Cpu} (h : Quiet s t) {tm : Tm11} {mem : Mem}
    (hcs : tm.cmd = t.dev.tm.cmd) (hbusy : tm.busy = t.dev.tm.busy) :
    Quiet s { t with dev.tm := tm, mem := mem } := by
  have hmoved : Moved .tm t { t with dev.tm := tm, mem := mem } (lines t .tm) := by
    refine (Moved.refl .tm t).tm id ?_
    rw [hcs, hbusy]
    rfl
  exact h.trans ⟨hmoved.kept, rfl⟩

theorem tmSetDone_moved {s t : Cpu} {l : InterruptLine} (h : Moved .tm s t l) :
    Moved .tm s (tmSetDone t) l.complete := by
  have h1 : Moved .tm s { t with
      dev.tm.busy := false
      dev.tm.cmd := t.dev.tm.cmd ||| mtcDone } { l with done := true, busy := false } :=
    h.tm (fun l => { l with done := true, busy := false }) (statusLine_done _ _ _)
  have hie : (t.dev.tm.cmd ||| mtcDone).getLsbD 6 = l.ie := by
    rw [← h.own]
    simp [lineOf, statusLine]
  exact h1.settle hie

theorem tmExecRead_quiet (s : Cpu) (xma cbc : BitVec 32) : Quiet s (tmExecRead s xma cbc) := by
  have h := Quiet.refl s
  refine .ite (h.tm rfl rfl) <| .ite (h.tm rfl rfl) ?_
  refine Quiet.tm (.foldl ?_ (fun t _ => (Quiet.refl t).tm rfl rfl) _) rfl rfl
  exact .ite (h.tm rfl rfl) h

theorem tmExecWrite_quiet (s : Cpu) (xma cbc : BitVec 32) : Quiet s (tmExecWrite s xma cbc) := by
  have h := Quiet.refl s
  refine .ite (h.tm rfl rfl) ?_
  have htape {t : Cpu} (ht : Quiet s t) (tape : ByteImage) :
      Quiet s { t with dev.tm.tape := tape } := ht.tm rfl rfl
  have hbytes (t : Cpu) (i : ℕ) : Quiet t
      (let b := tmMemReadByte t ((xma + BitVec.ofNat 32 i) &&& 0o777777)
      { t with dev.tm.tape := t.dev.tm.tape.write (s.dev.tm.pos + 4 + BitVec.ofNat 32 i) b }) :=
    (Quiet.refl t).tm rfl rfl
  have h1 := (htape h (tapWriteLen s.dev.tm.tape s.dev.tm.pos cbc)).foldl hbytes
    (List.range cbc.toNat)
  exact Quiet.tm (.ite (htape h1 _) h1) rfl rfl

theorem tmExecute_moved {s t : Cpu} {l : InterruptLine} (h : Moved .tm s t l) (func : Word) :
    Moved .tm s (tmExecute t func) l.complete := by
  have hs := Quiet.refl t
  have hspacef : Quiet t (tmExecSpacef t) :=
    .ite (hs.tm rfl rfl) <| .ite (hs.tm rfl rfl) (hs.tm rfl rfl)
  have hspacer : Quiet t (tmExecSpacer t) :=
    .ite (hs.tm rfl rfl) <| .ite (hs.tm rfl rfl) (hs.tm rfl rfl)
  have hwreof : Quiet t (tmExecWreof t) := .ite (hs.tm rfl rfl) (hs.tm rfl rfl)
  refine tmSetDone_moved (h.quiet ?_)
  exact .ite (tmExecRead_quiet _ _ _) <| .ite (tmExecWrite_quiet _ _ _) <| .ite hwreof <|
    .ite hspacef <| .ite hspacer hs

/-- The completion a poll finds due. -/
theorem tmPoll_due {s : Cpu} (h : ¬(!s.dev.tm.busy ∨ s.acct.timeNs < s.dev.tm.doneNs)) :
    Moved .tm s (tmPoll s) (lines s .tm).complete := by
  have hs : Moved .tm s s (lines s .tm) := .refl .tm s
  unfold tmPoll
  rw [if_neg h]
  dsimp only
  split
  · exact tmSetDone_moved (hs.quiet ((Quiet.refl s).tm rfl rfl))
  · exact tmExecute_moved hs _

theorem tmPoll_follows (s : Cpu) : Follows Served .tm s (tmPoll s) (lines s .tm) := by
  by_cases h : !s.dev.tm.busy ∨ s.acct.timeNs < s.dev.tm.doneNs
  · have hpoll : tmPoll s = s := if_pos h
    rw [hpoll]
    exact (Quiet.refl s).follows .tm
  · exact (tmPoll_due h).follows (.complete _)

theorem tmGo_follows {s t : Cpu} {l : InterruptLine} (h : Moved .tm s t l) :
    Follows Steps .tm s (tmGo t) l := by
  unfold tmGo
  refine .ite ?_ ?_
  · exact ⟨_, (Step.complete l).steps, tmSetDone_moved (h.quiet ((Quiet.refl t).tm rfl rfl))⟩
  · have h1 : Moved .tm s { t with
        dev.tm.sta := if tmGetFnc t.dev.tm.cmd = tmFncRewind then staRew else 0
        dev.tm.cmd := t.dev.tm.cmd &&& ~~~mtcDone } { l with done := false } :=
      h.tm (fun l => { l with done := false }) (statusLine_clearDone _ _ _)
    exact ⟨l.begin, (Step.begin l).steps, Moved.tm h1.drop (fun l => { l with busy := true }) rfl⟩

/-- A write of MTC up to its command. -/
theorem tmIe_moved (s : Cpu) (value : Word) :
    Moved .tm s
      (let s := ieWrite s (s.dev.tm.cmd &&& (mtcDone ||| mtcIe) = mtcDone) value .tm
      { s with dev.tm.cmd := (s.dev.tm.cmd &&& ~~~mtcRw) ||| (value &&& mtcRw) })
      ((lines s .tm).setIe (value.getLsbD 6)) := by
  have h1 := (Moved.refl .tm s).ieWrite (done_only s.dev.tm.cmd) value
  exact h1.tm (fun l => { l with ie := value.getLsbD 6 })
    (statusLine_load _ _ (by decide) (by decide) _ _)

/-- A write of MTC with INIT clears the controller. -/
theorem tmWriteMtc_clear (s : Cpu) {value : Word} (h : value &&& mtcInit ≠ 0) :
    Moved .tm s (tmWriteMtc s value) (lines s .tm).clear := by
  have h1 : Moved .tm s { s with
      dev.tm.cmd := mtcDone
      dev.tm.sta := 0
      dev.tm.bc := 0
      dev.tm.ca := 0
      dev.tm.db := 0
      dev.tm.busy := false } ⟨true, false, false, (lines s .tm).requested⟩ :=
    (Moved.refl .tm s).tm (fun l => ⟨true, false, false, l.requested⟩) (statusLine_ready _ _)
  unfold tmWriteMtc
  rw [if_pos h]
  exact h1.drop

/-- A write of MTC without INIT and GO. -/
theorem tmWriteMtc_ie (s : Cpu) {value : Word} (hinit : ¬value &&& mtcInit ≠ 0)
    (h : value &&& mtcGo = 0) :
    Moved .tm s (tmWriteMtc s value) ((lines s .tm).setIe (value.getLsbD 6)) := by
  have hie := tmIe_moved s value
  unfold tmWriteMtc
  rw [if_neg hinit]
  dsimp only
  rw [if_neg fun hgo => hgo.2 h]
  exact hie

theorem tmWriteMtc_follows (s : Cpu) (value : Word) :
    Follows Steps .tm s (tmWriteMtc s value) (lines s .tm) := by
  by_cases h : value &&& mtcInit ≠ 0
  · exact (tmWriteMtc_clear s h).follows (Step.clear _).steps
  · have hie := tmIe_moved s value
    unfold tmWriteMtc
    rw [if_neg h]
    refine .ite ?_ ?_
    · obtain ⟨l, hl, ht⟩ := tmGo_follows hie
      exact ⟨l, (Step.setIe _ _).steps.trans hl, ht⟩
    · exact ⟨_, (Step.setIe _ _).steps, hie⟩

/-- The other registers do not touch the line. -/
theorem tmWrite_quiet {s : Cpu} {addr : Word} (h : addr ≠ 0o172522) (value : Word) :
    Quiet s (tmWrite s addr value) := by
  have hs := Quiet.refl s
  unfold tmWrite
  rw [if_neg h]
  exact .ite (hs.tm rfl rfl) <| .ite (hs.tm rfl rfl) <| .ite (hs.tm rfl rfl) hs

theorem tmWrite_follows (s : Cpu) (addr value : Word) :
    Follows Steps .tm s (tmWrite s addr value) (lines s .tm) := by
  by_cases h : addr = 0o172522
  · have hmtc : tmWrite s addr value = tmWriteMtc s value := if_pos h
    rw [hmtc]
    exact tmWriteMtc_follows s value
  · exact ((tmWrite_quiet h value).follows .tm).mono fun _ _ => Served.steps

/-- A read moves no line; the read-lines clock is all it changes. -/
theorem tmRead_quiet (s : Cpu) (addr : Word) : Quiet s (tmRead s addr).2 := by
  have hrdl (rdl : Word) : Quiet s { s with dev.tm.rdl := rdl } := (Quiet.refl s).tm rfl rfl
  unfold tmRead
  dsimp only
  split_ifs <;> first | exact .refl s | exact hrdl _

/-! ## RL11 -/

theorem Moved.rl {s t : Cpu} {l : InterruptLine} (h : Moved .rl s t l) {rl : Rl11} {mem : Mem}
    (f : InterruptLine → InterruptLine)
    (hf : statusLine rl.rlcs rl.busy (requests t.dev .rl) = f (lines t .rl)) :
    Moved .rl s { t with dev.rl := rl, mem := mem } (f l) := by
  refine h.step f (fun d hd => ?_) hf fun _ => rfl
  cases d <;> first | rfl | exact absurd rfl hd

theorem Quiet.rl {s t : Cpu} (h : Quiet s t) {rl : Rl11} {mem : Mem}
    (hcs : rl.rlcs &&& 0o300 = t.dev.rl.rlcs &&& 0o300) (hbusy : rl.busy = t.dev.rl.busy) :
    Quiet s { t with dev.rl := rl, mem := mem } := by
  have hmoved : Moved .rl t { t with dev.rl := rl, mem := mem } (lines t .rl) := by
    refine (Moved.refl .rl t).rl id ?_
    rw [statusLine_congr hcs, hbusy]
    rfl
  exact h.trans ⟨hmoved.kept, rfl⟩

/-- A completion, whose status sets neither done nor the enable. -/
theorem rlFinish_moved {s t : Cpu} {l : InterruptLine} (h : Moved .rl s t l) {status : Word}
    (hstatus : status &&& 0o300 = 0) : Moved .rl s (rlFinish t status) l.complete := by
  have hline (csr : Word) (busy requested : Bool) :
      statusLine (csr ||| status ||| rlcsDone ||| rlcsDrdy) busy requested =
        { statusLine csr busy requested with done := true } := by
    rw [statusLine_congr (BitMask.or_and_eq _ (by decide)), statusLine_done,
      statusLine_congr (BitMask.or_and_eq _ hstatus)]
  have hrlcs (csr : Word) (busy requested : Bool) :
      statusLine (if status &&& (rlcsIncmp ||| rlcsCrc ||| rlcsDlt ||| rlcsNxm ||| rlcsDre) ≠ 0 then
          csr ||| status ||| rlcsDone ||| rlcsDrdy ||| rlcsErr
        else csr ||| status ||| rlcsDone ||| rlcsDrdy) busy requested =
        { statusLine csr busy requested with done := true } := by
    split
    · rw [statusLine_congr (BitMask.or_and_eq _ (by decide)), hline]
    · exact hline csr busy requested
  have hie := congrArg InterruptLine.ie (hrlcs t.dev.rl.rlcs t.dev.rl.busy (requests t.dev .rl))
  have hown : (statusLine t.dev.rl.rlcs t.dev.rl.busy (requests t.dev .rl)) = l := h.own
  rw [hown] at hie
  unfold rlFinish
  dsimp only
  refine Moved.settle (l := { l with done := true, busy := false }) ?_ hie
  exact h.rl (fun l => { l with done := true, busy := false }) (hrlcs _ _ _)

/-- A word of a transfer moves no line, and sets no status bit but errors. -/
theorem rlTransferWord_quiet (func : Word) (ma da : BitVec 32) (ss : Cpu × Word) (i : ℕ)
    (hstatus : ss.2 &&& 0o300 = 0) : Quiet ss.1 (rlTransferWord func ma da ss i).1 ∧
      (rlTransferWord func ma da ss i).2 &&& 0o300 = 0 := by
  have h := Quiet.refl ss.1
  have herror : (ss.2 ||| rlcsErr ||| rlcsCrc) &&& 0o300 = 0 := by
    rw [BitMask.or_and_eq _ (by decide), BitMask.or_and_eq _ (by decide), hstatus]
  unfold rlTransferWord
  dsimp only
  split_ifs
  · exact ⟨h.rl rfl rfl, hstatus⟩
  · exact ⟨h.rl rfl rfl, hstatus⟩
  · exact ⟨h, herror⟩
  · exact ⟨h, hstatus⟩

theorem rlTransferWords_quiet (func : Word) (ma da : BitVec 32) (l : List ℕ) {s : Cpu}
    (ss : Cpu × Word) (h : Quiet s ss.1) (hstatus : ss.2 &&& 0o300 = 0) :
    Quiet s (l.foldl (rlTransferWord func ma da) ss).1 ∧
      (l.foldl (rlTransferWord func ma da) ss).2 &&& 0o300 = 0 := by
  induction l generalizing ss with
  | nil => exact ⟨h, hstatus⟩
  | cons i l ih =>
    obtain ⟨hi, hs⟩ := rlTransferWord_quiet func ma da ss i hstatus
    exact ih _ (h.trans hi) hs

/-- The memory extension an advance loads into RLCS lies outside the line's bits. -/
theorem rlMex_bits (ma : BitVec 32) :
    ((((ma >>> 16) &&& 3) <<< 4).setWidth 16 : Word) &&& 0o300 = 0 := by
  have h7 : ((((ma >>> 16) &&& 3) <<< 4).setWidth 16 : Word).getLsbD 7 = false := by simp
  have h6 : ((((ma >>> 16) &&& 3) <<< 4).setWidth 16 : Word).getLsbD 6 = false := by simp
  rw [done_ie, h7, h6]
  rfl

theorem rlAdvance_quiet (rl : Rl11) (ma wc : BitVec 32) {s : Cpu} (ss : Cpu × Word)
    (h : Quiet s ss.1) (hstatus : ss.2 &&& 0o300 = 0) :
    Quiet s (rlAdvance rl ma wc ss).2 ∧ (rlAdvance rl ma wc ss).1 &&& 0o300 = 0 := by
  have herror : (ss.2 ||| rlcsErr ||| rlcsIncmp) &&& 0o300 = 0 := by
    rw [BitMask.or_and_eq _ (by decide), BitMask.or_and_eq _ (by decide), hstatus]
  refine ⟨h.rl ?_ rfl, ?_⟩
  · show ((ss.1.dev.rl.rlcs &&& ~~~rlcsMex) ||| _) &&& 0o300 = _
    rw [BitMask.or_and_eq _ (rlMex_bits _), BitMask.and_not_and_eq _ (by decide)]
  · unfold rlAdvance
    dsimp only
    split
    · exact herror
    · exact hstatus

theorem rlTransfer_quiet (s : Cpu) (func : Word) :
    Quiet s (rlTransfer s func).2 ∧ (rlTransfer s func).1 &&& 0o300 = 0 := by
  have hstatus (off : Prop) [Decidable off] :
      (if off then rlcsErr ||| rlcsIncmp else 0 : Word) &&& 0o300 = 0 := by
    split <;> rfl
  have hwords (ma da : BitVec 32) (n : ℕ) (off : Prop) [Decidable off] :=
    rlTransferWords_quiet func ma da (List.range n)
      (s, if off then rlcsErr ||| rlcsIncmp else 0) (.refl s) (hstatus off)
  exact rlAdvance_quiet _ _ _ _ (hwords _ _ _ _).1 (hwords _ _ _ _).2

theorem rlStart_moved {s : Cpu} {out : Word × Cpu} {l : InterruptLine}
    (h : Moved .rl s out.2 l.accept) (hstatus : out.1 &&& 0o300 = 0) :
    Moved .rl s (rlStart out) l.begin := by
  have hs : (out.1 &&& ~~~rlcsDone) &&& 0o300 = 0 := by
    rw [BitVec.and_assoc, BitVec.and_comm (~~~rlcsDone), ← BitVec.and_assoc, hstatus]
    rfl
  refine Moved.rl h (fun l => { l with busy := true }) ?_
  show statusLine (out.2.dev.rl.rlcs ||| (out.1 &&& ~~~rlcsDone)) true _ = _
  rw [statusLine_congr (BitMask.or_and_eq _ hs)]
  rfl

theorem rlGo_taken {s t : Cpu} {l : InterruptLine} (h : Moved .rl s t l) :
    Follows Taken .rl s (rlGo t) l := by
  have h1 : Moved .rl s { t with dev.rl.rlcs := t.dev.rl.rlcs &&& ~~~rlcsDone }
      { l with done := false } :=
    h.rl (fun l => { l with done := false }) (statusLine_clearDone _ _ _)
  have h2 : Moved .rl s (clrInt { t with dev.rl.rlcs := t.dev.rl.rlcs &&& ~~~rlcsDone } .rl)
      l.accept := h1.drop
  have hfinish {u : Cpu} (hu : Moved .rl s u l.accept) {status : Word}
      (hstatus : status &&& 0o300 = 0) : Follows Taken .rl s (rlFinish u status) l :=
    ⟨_, .complete l, rlFinish_moved hu hstatus⟩
  unfold rlGo
  refine .ite (hfinish h2 (by decide)) <| .ite (hfinish h2 (by decide)) <|
    .ite (.ite (hfinish h2 (by decide)) (hfinish ?_ (by decide))) <| .ite ?_ <| .ite ?_ ?_
  · exact h2.quiet ((Quiet.refl _).rl rfl rfl)
  · exact ⟨l.begin, .begin l, Moved.rl h2 (fun l => { l with busy := true }) rfl⟩
  · exact ⟨l.begin, .begin l, Moved.rl h2 (fun l => { l with busy := true }) rfl⟩
  · obtain ⟨hq, hstatus⟩ := rlTransfer_quiet
      (clrInt { t with dev.rl.rlcs := t.dev.rl.rlcs &&& ~~~rlcsDone } .rl)
      ((t.dev.rl.rlcs &&& rlcsFunc) >>> 1)
    exact ⟨l.begin, .begin l, rlStart_moved (h2.quiet hq) hstatus⟩

theorem rlPoll_follows (s : Cpu) : Follows Served .rl s (rlPoll s) (lines s .rl) :=
  .ite ⟨_, .complete _, rlFinish_moved (.refl .rl s) (by decide)⟩
    ((Quiet.refl s).follows .rl)

/-- The state RLCS is loaded in, before its interrupt or its command. -/
theorem rlLoad_moved (s : Cpu) (value : Word) :
    Moved .rl s
      (let rlcs := (s.dev.rl.rlcs &&& ~~~rlcsRw) ||| (value &&& rlcsRw)
      { s with
        dev.rl.rlcs := rlcs
        dev.rl.rlbae := (s.dev.rl.rlbae &&& ~~~(3 : Word)) ||| ((rlcs >>> 4) &&& 3) })
      { lines s .rl with done := value.getLsbD 7, ie := value.getLsbD 6 } := by
  refine (Moved.refl .rl s).rl (fun l => { l with done := value.getLsbD 7, ie := value.getLsbD 6 })
    ?_
  simp [lineOf, statusLine, requests]

/-- The ready bit is writable too: with it a write loads done and the enable, and the request is
that of the new bits. -/
theorem rlWriteRlcs_load {s : Cpu} {value : Word} (h : value &&& rlcsDone ≠ 0) :
    Moved .rl s (rlWriteRlcs s value) ((lines s .rl).assign true (value.getLsbD 6)) := by
  have h1 := rlLoad_moved s value
  have h7 : value.getLsbD 7 = true := by simpa using mt (done_clear value).2 h
  rw [h7] at h1
  have hassign (requested : Bool) (hr : requested = value.getLsbD 6) :
      (lines s .rl).assign true (value.getLsbD 6) = { lines s .rl with
        done := true, ie := value.getLsbD 6, requested := requested } := by
    rw [hr]
    rfl
  have hloaded : ((s.dev.rl.rlcs &&& ~~~rlcsRw) ||| (value &&& rlcsRw)) &&& rlcsDone ≠ 0 := by
    refine mt (done_clear _).1 ?_
    simp [h7]
  unfold rlWriteRlcs
  dsimp only
  rw [if_pos h]
  by_cases h6 : value &&& rlcsIe = 0
  · rw [if_pos h6, hassign false ((ie_clear value).1 h6).symm]
    exact h1.drop
  · have hie : value.getLsbD 6 = true := by simpa using mt (ie_clear value).2 h6
    rw [if_neg h6, if_pos hloaded, hassign true hie.symm]
    exact h1.raise

/-- Without it the write is a command. -/
theorem rlWriteRlcs_command {s : Cpu} {value : Word} (h : value &&& rlcsDone = 0) :
    Follows Taken .rl s (rlWriteRlcs s value) ((lines s .rl).assign false (value.getLsbD 6)) := by
  have h1 := (rlLoad_moved s value).drop
  have hclear (t : Cpu) : Quiet t { t with dev.rl.rlcs := t.dev.rl.rlcs &&& ~~~rlcsAllerr } :=
    (Quiet.refl t).rl (BitMask.and_not_and_eq _ (by decide)) rfl
  have hgo := rlGo_taken (h1.quiet (hclear _))
  rw [(done_clear value).1 h] at hgo
  unfold rlWriteRlcs
  dsimp only
  rw [if_neg (not_not.2 h)]
  exact hgo

theorem rlWriteRlcs_follows (s : Cpu) (value : Word) :
    Follows Changes .rl s (rlWriteRlcs s value) (lines s .rl) := by
  by_cases h : value &&& rlcsDone = 0
  · obtain ⟨l, hl, ht⟩ := rlWriteRlcs_command h
    exact ⟨l, (Change.assign _ _ _).changes.trans hl.steps.changes, ht⟩
  · exact ⟨_, (Change.assign _ _ _).changes, rlWriteRlcs_load h⟩

/-- The refresh of DRDY and the error summary on a read. -/
theorem rlRead_quiet (s : Cpu) (addr : Word) : Quiet s (rlRead s addr).2 := by
  have hs := Quiet.refl s
  have hdrdy (csr : Word) (c : Prop) [Decidable c] :
      (if c then csr ||| rlcsDrdy else csr &&& ~~~rlcsDrdy) &&& 0o300 = csr &&& 0o300 := by
    split
    · exact BitMask.or_and_eq _ (by decide)
    · exact BitMask.and_not_and_eq _ (by decide)
  have herr (csr : Word) (c : Prop) [Decidable c] :
      (if c then csr ||| rlcsErr else csr) &&& 0o300 = csr &&& 0o300 := by
    split
    · exact BitMask.or_and_eq _ (by decide)
    · rfl
  unfold rlRead
  dsimp only
  by_cases h0 : addr = 0o174400
  · rw [if_pos h0]
    refine hs.rl ?_ rfl
    exact (herr _ _).trans (hdrdy _ _)
  · rw [if_neg h0]
    split_ifs <;> exact hs

/-- The other registers do not touch the line. -/
theorem rlWrite_quiet {s : Cpu} {addr : Word} (h : addr ≠ 0o174400) (value : Word) :
    Quiet s (rlWrite s addr value) := by
  have hs := Quiet.refl s
  unfold rlWrite
  rw [if_neg h]
  exact .ite (hs.rl rfl rfl) <| .ite (hs.rl rfl rfl) <| .ite (hs.rl rfl rfl) hs

theorem rlWrite_follows (s : Cpu) (addr value : Word) :
    Follows Changes .rl s (rlWrite s addr value) (lines s .rl) := by
  by_cases h : addr = 0o174400
  · have hrlcs : rlWrite s addr value = rlWriteRlcs s value := if_pos h
    rw [hrlcs]
    exact rlWriteRlcs_follows s value
  · exact ((rlWrite_quiet h value).follows .rl).mono fun _ _ h => h.steps.changes

end Pdp11
