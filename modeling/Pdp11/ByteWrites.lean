import Pdp11.FloppyProtocol
import Pdp11.FloppyRequests
import Pdp11.OperandDecoders
import Pdp11.RlcsRefresh

namespace Pdp11

open FaultState

/-! Byte writes of device registers, made as a read and a write of the whole word. -/

/-- The register a byte of the I/O page belongs to. -/
def byteReg (pa : PhysAddr) : Word := pa.setWidth 16 &&& 0o177776

/-- A byte merged into the word of its register. -/
def mergeByte (pa : PhysAddr) (w : Word) (value : Byte) : Word :=
  if pa &&& 1 ≠ 0 then (w &&& 0o377) ||| (value.setWidth 16 <<< 8)
  else (w &&& 0o177400) ||| value.setWidth 16

/-- The write alone: the word of the register is looked at, and not read. -/
def ioStoreByte (pa : PhysAddr) (value : Byte) : M Unit := do
  let s ← getCpu
  match ioReadReg s (byteReg pa) with
  | some p => ioWrite (byteReg pa) (mergeByte pa p.1 value)
  | none => cpuBusFault vecBus

/-- `cpu_write_byte` with the write alone. -/
def cpuStoreByte (va : Word) (value : Byte) : M Unit := do
  let s ← getCpu
  let pa ← mmuRelocate va true s.mode true
  if isIopage pa then ioStoreByte pa value
  else do
    checkNxm pa
    modifyCpu fun s => { s with mem := memWriteByte s.mem pa value }

/-- What the console has sent, and the transmission under way. -/
def transmitter (s : Cpu) : Option (List Byte) × Bool × Time :=
  (s.dev.consoleOut, s.dev.ttoBusy, s.dev.ttoDoneNs)

/-! ## Devices that leave the transmitter alone -/

/-- The transmitter is as it was. -/
def Mute (s t : Cpu) : Prop := transmitter t = transmitter s

namespace Mute

variable {s t u : Cpu}

theorem refl (s : Cpu) : Mute s s := rfl

theorem trans (h : Mute s t) (h' : Mute t u) : Mute s u := Eq.trans h' h

theorem ite {c : Prop} [Decidable c] (ht : Mute s t) (hu : Mute s u) :
    Mute s (if c then t else u) := by
  split
  · exact ht
  · exact hu

theorem foldl {ι : Type} {f : Cpu → ι → Cpu} (h : Mute s t) (hf : ∀ t i, Mute t (f t i))
    (l : List ι) : Mute s (l.foldl f t) := by
  induction l generalizing t with
  | nil => exact h
  | cons i l ih => exact ih (h.trans (hf t i))

theorem mem (h : Mute s t) (m : Mem) : Mute s { t with mem := m } := h

theorem setInt (h : Mute s t) (d : IntId) : Mute s (setInt t d) := h

theorem clrInt (h : Mute s t) (d : IntId) : Mute s (clrInt t d) := h

theorem rk (h : Mute s t) (rk : Rk11) : Mute s { t with dev.rk := rk } := h

theorem rp (h : Mute s t) (rp : Rp11) : Mute s { t with dev.rp := rp } := h

theorem tm (h : Mute s t) (tm : Tm11) : Mute s { t with dev.tm := tm } := h

theorem rl (h : Mute s t) (rl : Rl11) : Mute s { t with dev.rl := rl } := h

theorem rx (h : Mute s t) (rx : Rx11) : Mute s { t with dev.rx := rx } := h

end Mute

section
variable {s t : Cpu}

theorem rkSetError_mute (h : Mute s t) (err : Word) : Mute s (rkSetError t err) :=
  .ite ((h.rk _).rk _) (h.rk _)

theorem rkFinish_mute (h : Mute s t) : Mute s (rkFinish t) :=
  .ite ((h.rk _).setInt _) ((h.rk _).clrInt _)

theorem rkTransferWord_mute (func : Word) (ma da : BitVec 32) (s : Cpu) (i : ℕ) :
    Mute s (rkTransferWord func ma da s i) :=
  have h := Mute.refl s
  .ite (h.mem _) <| .ite (h.rk _) <| .ite (rkSetError_mute h _) h

theorem rkTransfer_mute (h : Mute s t) (func : Word) : Mute s (rkTransfer t func) :=
  ((Mute.foldl (.ite (rkSetError_mute h _) h) (rkTransferWord_mute _ _ _) _).rk _).rk _

theorem rkGo_mute (h : Mute s t) : Mute s (rkGo t) := by
  have h1 := (h.rk { t.dev.rk with
    rkcs := t.dev.rk.rkcs &&& ~~~rkcsScp &&& ~~~rkcsDone }).clrInt .rk
  refine .ite ((h.rk _).clrInt _) <| .ite (rkFinish_mute (rkSetError_mute h1 _)) <|
    .ite (rkFinish_mute h1) <| .ite (rkFinish_mute (rkSetError_mute h1 _)) <|
    .ite (rkFinish_mute (rkSetError_mute h1 _)) ?_
  exact Mute.rk (.ite (rkTransfer_mute h1 _) h1) _

theorem rkWrite_mute (h : Mute s t) (a value : Word) : Mute s (rkWrite t a value) := by
  refine .ite ?_ <| .ite (h.rk _) <| .ite (h.rk _) <| .ite (.ite (h.rk _) h) h
  have h1 := h.rk { t.dev.rk with rkcs := t.dev.rk.rkcs &&& rkcsReal }
  refine .ite (rkGo_mute (Mute.rk ?_ _)) (Mute.rk ?_ _) <;>
    exact .ite (h1.clrInt .rk) (.ite (h1.setInt .rk) h1)

theorem rpFinish_mute (h : Mute s t) : Mute s (rpFinish t) :=
  .ite ((h.rp _).setInt _) ((h.rp _).clrInt _)

theorem rpTransferWords_mute (func : Word) (da : BitVec 32) (l : List ℕ) (sm : Cpu × BitVec 32)
    (h : Mute s sm.1) : Mute s (l.foldl (rpTransferWord func da) sm).1 := by
  induction l generalizing sm with
  | nil => exact h
  | cons i l ih =>
    have hword : Mute s (rpTransferWord func da sm i).1 := .ite (h.mem _) <| .ite (h.rp _) h
    exact ih _ hword

theorem rpGo_mute (h : Mute s t) : Mute s (rpGo t) := by
  have h1 := (h.rp { t.dev.rp with cs1 := t.dev.rp.cs1 &&& ~~~cs1Done }).clrInt .rp
  have htransfer (func : Word) {u : Cpu} (hu : Mute s u) : Mute s (rpTransfer u func) :=
    Mute.rp (rpTransferWords_mute func _ _ (u, _) hu) _
  exact .ite (rpFinish_mute (h1.rp _)) <| .ite (rpFinish_mute (h1.rp _)) <| .ite (h1.rp _) <|
    .ite (Mute.rp (.ite (htransfer _ h1) h1) _) (rpFinish_mute h1)

theorem rpWrite_mute (h : Mute s t) (a value : Word) : Mute s (rpWrite t a value) := by
  have hcs1 : Mute s (rpWriteCs1 t value) := by
    refine .ite (rpGo_mute (Mute.rp ?_ _)) (Mute.rp ?_ _) <;>
      exact .ite (h.clrInt .rp) (.ite (h.setInt .rp) h)
  have hcs2 : Mute s (rpWriteCs2 t value) := Mute.rp (.ite ((h.rp _).clrInt .rp) h) _
  unfold rpWrite
  refine .ite (h.rp _) <| .ite h ?_
  split <;> first | exact hcs1 | exact hcs2 | exact h.rp _

theorem tmGo_mute (h : Mute s t) : Mute s (tmGo t) := by
  refine .ite ?_ (((h.tm _).clrInt _).tm _)
  exact .ite (((h.tm _).tm _).setInt _) (((h.tm _).tm _).clrInt _)

theorem tmWrite_mute (h : Mute s t) (a value : Word) : Mute s (tmWrite t a value) := by
  refine .ite (.ite ((h.tm _).clrInt _) ?_) <| .ite (h.tm _) <| .ite (h.tm _) <| .ite (h.tm _) h
  refine .ite (tmGo_mute (Mute.tm ?_ _)) (Mute.tm ?_ _) <;>
    exact .ite (h.clrInt .tm) (.ite (h.setInt .tm) h)

theorem rlFinish_mute (h : Mute s t) (status : Word) : Mute s (rlFinish t status) :=
  .ite ((h.rl _).setInt _) ((h.rl _).clrInt _)

theorem rlTransferWords_mute (func : Word) (ma da : BitVec 32) (l : List ℕ) (ss : Cpu × Word)
    (h : Mute s ss.1) : Mute s (l.foldl (rlTransferWord func ma da) ss).1 := by
  induction l generalizing ss with
  | nil => exact h
  | cons i l ih =>
    have hword : Mute s (rlTransferWord func ma da ss i).1 := by
      unfold rlTransferWord
      dsimp only
      split_ifs
      · exact h.mem _
      · exact h.rl _
      · exact h
      · exact h
    exact ih _ hword

theorem rlTransfer_mute (h : Mute s t) (func : Word) : Mute s (rlTransfer t func).2 :=
  Mute.rl (rlTransferWords_mute func _ _ _ (t, _) h) _

theorem rlGo_mute (h : Mute s t) : Mute s (rlGo t) := by
  have h1 : Mute s (clrInt { t with dev.rl.rlcs := t.dev.rl.rlcs &&& ~~~rlcsDone } .rl) :=
    (h.rl _).clrInt _
  have hstart (func : Word) : Mute s (rlStart (rlTransfer
      (clrInt { t with dev.rl.rlcs := t.dev.rl.rlcs &&& ~~~rlcsDone } .rl) func)) :=
    Mute.rl (rlTransfer_mute h1 func) _
  exact .ite (rlFinish_mute h1 _) <| .ite (rlFinish_mute h1 _) <|
    .ite (.ite (rlFinish_mute h1 _) (rlFinish_mute (h1.rl _) _)) <| .ite (h1.rl _) <|
    .ite (h1.rl _) (hstart _)

theorem rlWrite_mute (h : Mute s t) (a value : Word) : Mute s (rlWrite t a value) := by
  have hcs : Mute s (rlWriteRlcs t value) := by
    unfold rlWriteRlcs
    extract_lets rlcs
    have h1 : Mute s { t with
        dev.rl.rlcs := rlcs
        dev.rl.rlbae := (t.dev.rl.rlbae &&& ~~~(3 : Word)) ||| ((rlcs >>> 4) &&& 3) } := h.rl _
    exact .ite (.ite (h1.clrInt _) (.ite (h1.setInt _) h1)) (rlGo_mute ((h1.clrInt .rl).rl _))
  exact .ite hcs <| .ite (h.rl _) <| .ite (h.rl _) <| .ite (h.rl _) h

theorem rxDone_mute (h : Mute s t) (esrFlags : Byte) (newEcode : Option Byte) :
    Mute s (rxDone t esrFlags newEcode) := by
  have h2 (rx : Rx11) : Mute s
      { (if (t.dev.rx.rxcs ||| rxcsDone) &&& rxcsIe ≠ 0 then setInt { t with
          dev.rx.state := .idle
          dev.rx.rxcs := t.dev.rx.rxcs ||| rxcsDone } .rx
        else { t with
          dev.rx.state := .idle
          dev.rx.rxcs := t.dev.rx.rxcs ||| rxcsDone }) with dev.rx := rx } :=
    .rx (.ite ((h.rx _).setInt .rx) (h.rx _)) _
  cases newEcode with
  | none => exact h2 _
  | some code =>
    refine Mute.rx (.ite (.rx (h2 _) _) (h2 _)) _

theorem rxTransfer_mute (h : Mute s t) : Mute s (rxTransfer t) := by
  refine .ite (rxDone_mute h _ _) <| .ite (rxDone_mute h _ _) <|
    .ite (rxDone_mute (h.rx _) _ _) <| .ite (rxDone_mute (.rx (.ite ?_ ?_) _) _ _)
    (rxDone_mute (.rx (.ite ?_ ?_) _) _ _)
  all_goals exact h.rx _

theorem rxStep_mute (h : Mute s t) : Mute s (rxStep t) := by
  cases hs : t.dev.rx.state <;> simp only [rxStep, hs]
  case idle => exact h
  case rwds => exact h.rx _
  case rwdt => exact rxTransfer_mute (h.rx _)
  case rwxfr => exact rxTransfer_mute h
  case fill => exact .ite ((h.rx _).rx _) (rxDone_mute (h.rx _) _ _)
  case empty => exact .ite (rxDone_mute h _ _) (h.rx _)
  case cmddone => exact .ite (rxDone_mute (h.rx _) _ _) (rxDone_mute h _ _)

theorem rxWrite_mute (h : Mute s t) (a value : Word) : Mute s (rxWrite t a value) := by
  have h1 : Mute s { t with
      dev.rx.rxcs := value &&& (rxcsIe ||| rxcsDrv ||| rxcsFunc)
      dev.rx.bptr := 0 } := h.rx _
  have hgo : Mute s (rxGo t value) := .ite (h1.rx _) <| .ite (rxStep_mute (h1.rx _)) <|
    .ite (h1.rx _) (rxStep_mute (h1.rx _))
  have hcs : Mute s (rxWriteRxcs t value) := .ite ((h.rx _).clrInt _) <| .ite hgo
    (.rx (.ite (h.clrInt .rx) (.ite (h.setInt .rx) h)) _)
  exact .ite hcs <| .ite (.ite (rxStep_mute ((h.rx _).rx _)) (h.rx _)) h

/-- Only a store to XBUF reaches the transmitter. -/
theorem consoleWrite_mute (s : Cpu) {a : Word} (ha : a ≠ dl11Xbuf) (value : Word) :
    Mute s (consoleWrite s a value) := by
  have hcsr (csr : Word) (d : IntId) : Mute s (dl11CsrInt s csr value d) :=
    .ite (.clrInt (.refl s) d) (.ite (.setInt (.refl s) d) (.refl s))
  unfold consoleWrite
  split
  · exact hcsr s.dev.ttiCsr .tti
  split
  · exact hcsr s.dev.ttoCsr .tto
  · exact .refl s

theorem ioWriteReg_mute {a value : Word} (h : ioWriteReg s a value = some t)
    (ha : a ≠ dl11Xbuf) : Mute s t := by
  have hs := Mute.refl s
  cases ioWriteReg_regWrite h with
  | processor _ hdev _ =>
    unfold Mute transmitter
    rw [hdev]
  | clk _ => exact .ite (hs.setInt .clk) (hs.clrInt .clk)
  | console => exact consoleWrite_mute s ha value
  | rk => exact rkWrite_mute hs a value
  | tm => exact tmWrite_mute hs a value
  | rl => exact rlWrite_mute hs a value
  | rx => exact rxWrite_mute hs a value
  | rp => exact rpWrite_mute hs a value

theorem ioReadReg_mute {a : Word} {p : Word × Cpu} (h : ioReadReg s a = some p) : Mute s p.2 := by
  have hs := Mute.refl s
  have hread := ioReadReg_regRead h
  generalize p.2 = t at hread ⊢
  cases hread with
  | none => exact hs
  | console =>
    unfold consoleRead
    split_ifs <;> exact hs
  | tm =>
    unfold tmRead
    dsimp only
    split_ifs <;> exact hs
  | rl =>
    unfold rlRead
    split_ifs <;> exact hs
  | rx =>
    unfold rxRead
    dsimp only
    split_ifs
    · exact hs
    · exact rxStep_mute (hs.rx _)
    · exact hs

end

/-! ## Registers that a read changes -/

theorem not_ubm {s : Cpu} {a : Word} (h : a < ubmBase ∨ ubmEnd < a) : isUbm s a = false := by
  unfold isUbm
  simp only [decide_eq_false_iff_not, not_and]
  intro _ hle
  obtain h | h := h
  · exact absurd hle (BitVec.not_le.2 h)
  · exact BitVec.not_le.2 h

theorem ioReadReg_dl11 {s : Cpu} {a : Word} (h : isDl11 a = true) :
    ioReadReg s a = some (consoleRead s a) := by
  have ha : a = dl11Rcsr ∨ a = dl11Rbuf ∨ a = dl11Xcsr ∨ a = dl11Xbuf := by
    simpa [isDl11] using h
  have hubm : isUbm s a = false := by
    rcases ha with rfl | rfl | rfl | rfl <;> exact not_ubm (by decide)
  rcases ha with rfl | rfl | rfl | rfl <;> unfold ioReadReg <;> rw [hubm] <;> rfl

theorem ioWriteReg_dl11 {s : Cpu} {a : Word} (h : isDl11 a = true) (value : Word) :
    ioWriteReg s a value = some (consoleWrite s a value) := by
  have ha : a = dl11Rcsr ∨ a = dl11Rbuf ∨ a = dl11Xcsr ∨ a = dl11Xbuf := by
    simpa [isDl11] using h
  have hubm : isUbm s a = false := by
    rcases ha with rfl | rfl | rfl | rfl <;> exact not_ubm (by decide)
  rcases ha with rfl | rfl | rfl | rfl <;> unfold ioWriteReg <;> rw [hubm] <;> rfl

theorem ioReadReg_rlcs (s : Cpu) : ioReadReg s 0o174400 = some (rlRead s 0o174400) := by
  unfold ioReadReg
  rw [not_ubm (by decide)]
  rfl

theorem ioWriteReg_rlcs (s : Cpu) (value : Word) :
    ioWriteReg s 0o174400 value = some (rlWriteRlcs s value) := by
  unfold ioWriteReg
  rw [not_ubm (by decide)]
  rfl

theorem ioReadReg_mtrd (s : Cpu) : ioReadReg s 0o172532 =
    some (s.dev.tm.rdl ^^^ 0o100000, { s with dev.tm.rdl := s.dev.tm.rdl ^^^ 0o100000 }) := by
  unfold ioReadReg
  rw [not_ubm (by decide)]
  rfl

theorem ioWriteReg_mtrd (s : Cpu) (value : Word) : ioWriteReg s 0o172532 value = some s := by
  unfold ioWriteReg
  rw [not_ubm (by decide)]
  rfl

theorem ioReadReg_rxdb (s : Cpu) : ioReadReg s 0o177172 = some (rxRead s 0o177172) := by
  unfold ioReadReg
  rw [not_ubm (by decide)]
  rfl

theorem ioWriteReg_rxdb (s : Cpu) (value : Word) :
    ioWriteReg s 0o177172 value = some (rxWrite s 0o177172 value) := by
  unfold ioWriteReg
  rw [not_ubm (by decide)]
  rfl

/-- The registers whose read has an effect. -/
def ReadEffect (a : Word) : Prop := a ∈ [dl11Rbuf, 0o177172, 0o172532, 0o174400]

instance (a : Word) : Decidable (ReadEffect a) := inferInstanceAs (Decidable (_ ∈ _))

/-- A read of any other register changes nothing. -/
theorem ioReadReg_pure {s : Cpu} {a : Word} {p : Word × Cpu} (h : ioReadReg s a = some p)
    (ha : ¬ReadEffect a) : p.2 = s := by
  simp only [ReadEffect, List.mem_cons, List.not_mem_nil, or_false, not_or] at ha
  obtain ⟨hrbuf, hrxdb, hmtrd, hrlcs⟩ := ha
  have hite {c : Prop} [Decidable c] {x y : Option (Word × Cpu)}
      (hx : c → x = some p → p.2 = s) (hy : y = some p → p.2 = s) :
      (if c then x else y) = some p → p.2 = s := by
    split
    · exact hx ‹_›
    · exact hy
  have hsome {q : Word × Cpu} (hq : q.2 = s) : some q = some p → p.2 = s := by
    rintro ⟨⟩
    exact hq
  have hconsole : (consoleRead s a).2 = s := by
    unfold consoleRead
    rw [if_neg hrbuf]
    split_ifs <;> rfl
  have htm : (tmRead s a).2 = s := by
    unfold tmRead
    dsimp only
    rw [if_neg hmtrd]
    split_ifs <;> rfl
  have hrl : (rlRead s a).2 = s := by
    unfold rlRead
    rw [if_neg hrlcs]
    split_ifs <;> rfl
  have hrx (hrx : isRx11 a = true) : (rxRead s a).2 = s := by
    have ha : a = 0o177170 ∨ a = 0o177172 := by simpa [isRx11] using hrx
    unfold rxRead
    rw [if_pos (ha.resolve_right hrxdb)]
  revert h
  unfold ioReadReg
  -- in the order of the bus decoder
  refine hite (fun _ => hsome rfl) <| hite (fun _ => hsome rfl) <| hite (fun _ => hsome rfl) <|
    hite (fun _ => hsome rfl) <| hite (fun _ => hsome rfl) <| hite (fun _ => hsome rfl) <|
    hite (fun _ => hsome rfl) <| hite (fun _ => hsome rfl) <| hite (fun _ => hsome hconsole) <|
    hite (fun _ => hsome rfl) <| hite (fun _ => hsome htm) <| hite (fun _ => hsome hrl) <|
    hite (fun h => hsome (hrx h)) <| hite (fun _ => hsome rfl) ?_
  cases aprIndex a with
  | some q =>
    obtain ⟨isPar, idx⟩ := q
    cases isPar <;> exact hsome rfl
  | none =>
    intro hp
    obtain ⟨v, -, rfl⟩ := Option.map_eq_some_iff.1 hp
    rfl

/-! ## Byte writes -/

/-- An outstanding transmission that one started now would not differ from, without a sink. -/
def TransmitLost (s : Cpu) : Prop :=
  s.dev.consoleOut = none ∧ s.dev.ttoBusy = true ∧ s.dev.ttoDoneNs = s.acct.timeNs + dl11TxNs

/-- A byte write has no effect of a read, reaches the transmitter through the low byte of XBUF
only, and starts no RL11 command through the high byte of RLCS. -/
structure ActsAsWrite (va : Word) (value : Byte) (pa : PhysAddr) (m : Machine) : Prop where
  unread : cpuWriteByte va value m = cpuStoreByte va value m
  silent : ¬(byteReg pa = dl11Xbuf ∧ pa &&& 1 = 0) →
    Mute m.cpu (final (cpuWriteByte va value m)).cpu
  uncommanded : byteReg pa = 0o174400 → pa &&& 1 ≠ 0 → ∀ word,
    (final (cpuWriteByte va value m)).events = m.events ++ [.ioWrite 0o174400 word] →
      NoCommand (0o174400, word)

/-- The states in which a byte write acts only as a write, one field for each register that may
tell. -/
structure ByteSafe (s : Cpu) (pa : PhysAddr) (value : Byte) : Prop where
  rbuf : byteReg pa = dl11Rbuf → s.dev.ttiCsr &&& dl11Done = 0 ∧ requests s.dev .tti = false
  rxdb : byteReg pa = 0o177172 → ¬(s.dev.rx.state = .empty ∧ s.dev.rx.rxcs &&& rxcsTr ≠ 0)
  mtrd : byteReg pa ≠ 0o172532
  rlcs : byteReg pa = 0o174400 → RefreshLost s.dev.rl (mergeByte pa (rlcsRead s.dev.rl) value)
  xbuf : byteReg pa = dl11Xbuf → pa &&& 1 ≠ 0 → TransmitLost s
  command : byteReg pa = 0o174400 → pa &&& 1 ≠ 0 → s.dev.rl.rlcs &&& rlcsDone ≠ 0

section
variable {pa : PhysAddr} {value : Byte} {m : Machine} {p : Word × Cpu}

theorem ioWriteByte_apply (hp : ioReadReg m.cpu (byteReg pa) = some p) :
    ioWriteByte pa value m =
      ioWrite (byteReg pa) (mergeByte pa p.1 value) { m with cpu := p.2 } := by
  have hread : ioRead (byteReg pa) m = .ok p.1 { m with cpu := p.2 } := by
    rw [ioRead_apply, hp]
  exact bind_ok hread

theorem ioStoreByte_apply (hp : ioReadReg m.cpu (byteReg pa) = some p) :
    ioStoreByte pa value m = ioWrite (byteReg pa) (mergeByte pa p.1 value) m := by
  have hstore : ioStoreByte pa value m = (match ioReadReg m.cpu (byteReg pa) with
      | some p => ioWrite (byteReg pa) (mergeByte pa p.1 value)
      | none => cpuBusFault vecBus) m := rfl
  rw [hstore, hp]

/-- The read leaves no trace exactly when the store makes the same state without it. -/
theorem unread_of_write {reg : Word} {f : Cpu → Cpu} (hreg : byteReg pa = reg)
    (hp : ioReadReg m.cpu reg = some p)
    (hf : ∀ s, ioWriteReg s reg (mergeByte pa p.1 value) = some (f s)) :
    ioWriteByte pa value m = ioStoreByte pa value m ↔ f p.2 = f m.cpu := by
  subst hreg
  rw [ioWriteByte_apply hp, ioStoreByte_apply hp, ioWrite_apply, ioWrite_apply, hf, hf]
  constructor
  · intro h
    exact congrArg Machine.cpu (EStateM.Result.ok.inj h).2
  · intro h
    rw [h]

theorem rbuf_unread (hreg : byteReg pa = dl11Rbuf) :
    ioWriteByte pa value m = ioStoreByte pa value m ↔
      m.cpu.dev.ttiCsr &&& dl11Done = 0 ∧ requests m.cpu.dev .tti = false := by
  rw [unread_of_write (f := id) hreg (ioReadReg_dl11 (by decide)) fun s =>
    ioWriteReg_dl11 (by decide) _]
  have hreq : requests m.cpu.dev .tti = false ↔
      m.cpu.dev.intReq &&& BitVec.twoPow 32 IntId.tti.bit = 0 :=
    (BitMask.and_twoPow_eq_zero (by decide)).symm
  rw [hreq, ← BitMask.and_not_eq_self, ← BitMask.and_not_eq_self]
  constructor
  · intro h
    exact ⟨congrArg (fun s : Cpu => s.dev.ttiCsr) h, congrArg (fun s : Cpu => s.dev.intReq) h⟩
  · rintro ⟨hcsr, hint⟩
    have hcleared : (consoleRead m.cpu dl11Rbuf).2 = { m.cpu with
        dev.ttiCsr := m.cpu.dev.ttiCsr &&& ~~~dl11Done
        dev.intReq := m.cpu.dev.intReq &&& ~~~BitVec.twoPow 32 IntId.tti.bit } := rfl
    rw [hcleared, hcsr, hint]

/-- A step of an emptying drive ends the command or moves on in the buffer. -/
theorem rxStep_empty {s : Cpu} (h : s.dev.rx.state = .empty) :
    (rxStep s).dev.rx.state = .idle ∨
      (rxStep s).dev.rx.state = .empty ∧ (rxStep s).dev.rx.bptr = s.dev.rx.bptr + 1 := by
  by_cases hlast : rxNumby ≤ s.dev.rx.bptr
  · have hstep : rxStep s = rxDone s 0 (some 0) := by
      simp only [rxStep, h]
      exact if_pos hlast
    rw [hstep]
    exact .inl (rxDone_ended s 0 _).state
  · have hstep : rxStep s = { s with
        dev.rx.rxdb := s.dev.rx.buf (s.dev.rx.bptr.setWidth 7)
        dev.rx.bptr := s.dev.rx.bptr + 1
        dev.rx.rxcs := s.dev.rx.rxcs ||| rxcsTr } := by
      simp only [rxStep, h]
      exact if_neg hlast
    rw [hstep]
    exact .inr ⟨h, rfl⟩

/-- A byte offered to a drive that takes none moves nothing. -/
theorem rxWrite_kept {s : Cpu} (h : s.dev.rx.state = .idle ∨ s.dev.rx.state = .empty)
    (value : Word) : (rxWrite s 0o177172 value).dev.rx.state = s.dev.rx.state ∧
      (rxWrite s 0o177172 value).dev.rx.bptr = s.dev.rx.bptr := by
  unfold rxWrite
  rw [if_neg (by decide)]
  split
  · have hempty : s.dev.rx.state = .empty := h.resolve_left ‹_ ∧ _›.1
    rw [if_neg (not_not.2 hempty)]
    exact ⟨rfl, rfl⟩
  · exact ⟨rfl, rfl⟩

theorem rxdb_unread (hreg : byteReg pa = 0o177172) :
    ioWriteByte pa value m = ioStoreByte pa value m ↔
      ¬(m.cpu.dev.rx.state = .empty ∧ m.cpu.dev.rx.rxcs &&& rxcsTr ≠ 0) := by
  rw [unread_of_write (f := fun s => rxWrite s 0o177172 _) hreg (ioReadReg_rxdb m.cpu) fun s =>
    ioWriteReg_rxdb s _]
  by_cases h : m.cpu.dev.rx.state = .empty ∧ m.cpu.dev.rx.rxcs &&& rxcsTr ≠ 0
  · refine iff_of_false ?_ (not_not.2 h)
    have hread : (rxRead m.cpu 0o177172).2 =
        rxStep { m.cpu with dev.rx.rxcs := m.cpu.dev.rx.rxcs &&& ~~~rxcsTr } := by
      unfold rxRead
      rw [if_neg (by decide)]
      dsimp only
      rw [if_pos h]
    rw [hread]
    generalize hs : ({ m.cpu with dev.rx.rxcs := m.cpu.dev.rx.rxcs &&& ~~~rxcsTr } : Cpu) = s
    have hstate : s.dev.rx.state = .empty := by
      rw [← hs]
      exact h.1
    have hptr : s.dev.rx.bptr = m.cpu.dev.rx.bptr := by rw [← hs]
    intro heq
    have hstored := rxWrite_kept (.inr h.1) (mergeByte pa (rxRead m.cpu 0o177172).1 value)
    rw [← heq] at hstored
    obtain hidle | ⟨hempty, hnext⟩ := rxStep_empty hstate
    · have hkept := rxWrite_kept (.inl hidle) (mergeByte pa (rxRead m.cpu 0o177172).1 value)
      have hclash := hidle.symm.trans (hkept.1.symm.trans (hstored.1.trans h.1))
      exact absurd hclash (by decide)
    · have hkept := rxWrite_kept (.inr hempty) (mergeByte pa (rxRead m.cpu 0o177172).1 value)
      have hmoved := hnext.symm.trans (hkept.2.symm.trans hstored.2)
      rw [hptr] at hmoved
      exact absurd hmoved (by simp)
  · refine iff_of_true ?_ h
    have hread : (rxRead m.cpu 0o177172).2 = m.cpu := by
      unfold rxRead
      rw [if_neg (by decide)]
      dsimp only
      rw [if_neg h]
    rw [hread]

theorem mtrd_unread (hreg : byteReg pa = 0o172532) :
    ioWriteByte pa value m ≠ ioStoreByte pa value m := by
  rw [ne_eq, unread_of_write (f := id) hreg (ioReadReg_mtrd m.cpu) fun s => ioWriteReg_mtrd s _]
  intro h
  have hrdl : m.cpu.dev.tm.rdl ^^^ 0o100000 = m.cpu.dev.tm.rdl :=
    congrArg (fun s : Cpu => s.dev.tm.rdl) h
  have hzero : (0o100000 : Word) = 0 := (BitVec.xor_right_inj _).1 (hrdl.trans BitVec.xor_zero.symm)
  exact absurd hzero (by decide)

theorem rlcs_unread (hreg : byteReg pa = 0o174400) :
    ioWriteByte pa value m = ioStoreByte pa value m ↔
      RefreshLost m.cpu.dev.rl (mergeByte pa (rlcsRead m.cpu.dev.rl) value) := by
  rw [unread_of_write (f := fun s => rlWriteRlcs s _) hreg (ioReadReg_rlcs m.cpu) fun s =>
    ioWriteReg_rlcs s _, rlRead_rlcs]
  exact rlWriteRlcs_refreshed m.cpu _

/-- The read leaves no trace exactly when no register with an effect of its own tells. -/
theorem ioWriteByte_unread_iff (hp : ioReadReg m.cpu (byteReg pa) = some p) (value : Byte) :
    ioWriteByte pa value m = ioStoreByte pa value m ↔
      (byteReg pa = dl11Rbuf →
        m.cpu.dev.ttiCsr &&& dl11Done = 0 ∧ requests m.cpu.dev .tti = false) ∧
      (byteReg pa = 0o177172 →
        ¬(m.cpu.dev.rx.state = .empty ∧ m.cpu.dev.rx.rxcs &&& rxcsTr ≠ 0)) ∧
      byteReg pa ≠ 0o172532 ∧
      (byteReg pa = 0o174400 →
        RefreshLost m.cpu.dev.rl (mergeByte pa (rlcsRead m.cpu.dev.rl) value)) := by
  by_cases heffect : ReadEffect (byteReg pa)
  · simp only [ReadEffect, List.mem_cons, List.not_mem_nil, or_false] at heffect
    obtain hreg | hreg | hreg | hreg := heffect
    · rw [rbuf_unread hreg, hreg]
      simp
    · rw [rxdb_unread hreg, hreg]
      simp
    · exact iff_of_false (mtrd_unread hreg) fun h => h.2.2.1 hreg
    · rw [rlcs_unread hreg, hreg]
      simp
  · have hpure := ioReadReg_pure hp heffect
    refine iff_of_true ?_ ?_
    · rw [ioWriteByte_apply hp, ioStoreByte_apply hp, hpure]
    · simp only [ReadEffect, List.mem_cons, List.not_mem_nil, or_false, not_or] at heffect
      obtain ⟨hrbuf, hrxdb, hmtrd, hrlcs⟩ := heffect
      exact ⟨fun h => absurd h hrbuf, fun h => absurd h hrxdb, hmtrd, fun h => absurd h hrlcs⟩

theorem ioWriteByte_mute (hp : ioReadReg m.cpu (byteReg pa) = some p)
    (hreg : byteReg pa ≠ dl11Xbuf) : Mute m.cpu (final (ioWriteByte pa value m)).cpu := by
  rw [ioWriteByte_apply hp, ioWrite_apply]
  cases hw : ioWriteReg p.2 (byteReg pa) (mergeByte pa p.1 value) with
  | none => exact ioReadReg_mute hp
  | some t => exact (ioReadReg_mute hp).trans (ioWriteReg_mute hw hreg)

/-- Either byte of XBUF starts a transmission. -/
theorem xbuf_mute_iff (hreg : byteReg pa = dl11Xbuf) :
    Mute m.cpu (final (ioWriteByte pa value m)).cpu ↔ TransmitLost m.cpu := by
  have hp : ioReadReg m.cpu (byteReg pa) = some (m.cpu.dev.ttoBuf &&& 0o377, m.cpu) := by
    rw [hreg]
    exact ioReadReg_dl11 (by decide)
  have hw := ioWriteReg_dl11 (s := m.cpu) (a := dl11Xbuf) (by decide)
    (mergeByte pa (m.cpu.dev.ttoBuf &&& 0o377) value)
  rw [ioWriteByte_apply hp, ioWrite_apply, hreg, hw]
  unfold Mute transmitter TransmitLost
  show (m.cpu.dev.consoleOut.map _, true, m.cpu.acct.timeNs + dl11TxNs) = _ ↔ _
  rw [Prod.mk.injEq, Prod.mk.injEq]
  have hsink : m.cpu.dev.consoleOut.map
      (· ++ [(mergeByte pa (m.cpu.dev.ttoBuf &&& 0o377) value).setWidth 8]) =
        m.cpu.dev.consoleOut ↔ m.cpu.dev.consoleOut = none := by
    cases m.cpu.dev.consoleOut <;> simp
  exact and_congr hsink (and_congr eq_comm eq_comm)

/-- The high byte of RLCS leaves the ready bit of the controller as it was. -/
theorem mergeByte_done (hhigh : pa &&& 1 ≠ 0) (rl : Rl11) (value : Byte) :
    mergeByte pa (rlcsRead rl) value &&& rlcsDone = rl.rlcs &&& rlcsDone := by
  have hmerge : mergeByte pa (rlcsRead rl) value =
      (rlcsRead rl &&& (0o377 : Word)) ||| (value.setWidth 16 <<< 8) := if_pos hhigh
  have hlow : (rlcsRead rl &&& 0o377) &&& rlcsDone = rlcsRead rl &&& rlcsDone := by
    rw [BitVec.and_assoc]
    rfl
  have hshift : (value.setWidth 16 <<< 8 : Word) &&& rlcsDone = 0 :=
    (BitMask.and_twoPow_eq_zero (i := 7) (by decide)).2 (by simp)
  rw [hmerge, BitMask.or_and_eq _ hshift, hlow]
  exact BitMask.and_eq (rlcsRead_rest rl) (by decide)

theorem rlcs_uncommanded_iff (hreg : byteReg pa = 0o174400) (hhigh : pa &&& 1 ≠ 0) :
    (∀ word, (final (ioWriteByte pa value m)).events = m.events ++ [.ioWrite 0o174400 word] →
      NoCommand (0o174400, word)) ↔ m.cpu.dev.rl.rlcs &&& rlcsDone ≠ 0 := by
  have hp : ioReadReg m.cpu (byteReg pa) = some (rlRead m.cpu 0o174400) := by
    rw [hreg]
    exact ioReadReg_rlcs m.cpu
  have hevents : (final (ioWriteByte pa value m)).events =
      m.events ++ [.ioWrite 0o174400 (mergeByte pa (rlcsRead m.cpu.dev.rl) value)] := by
    rw [ioWriteByte_apply hp, ioWrite_apply, hreg, ioWriteReg_rlcs]
    rfl
  have hdone := mergeByte_done hhigh m.cpu.dev.rl value
  rw [hevents, ← hdone]
  constructor
  · intro h
    exact (h _ rfl).2 rfl
  · intro h word hword
    have hlast := List.append_cancel_left hword
    simp only [List.cons.injEq, Event.ioWrite.injEq, true_and, and_true] at hlast
    subst hlast
    exact ⟨rfl, fun _ => h⟩

theorem cpuStoreByte_apply {va : Word} (h : refError m.cpu va true m.cpu.mode true = 0)
    (hio : isIopage (refPhysical m.cpu va m.cpu.mode true) = true) (value : Byte) :
    cpuStoreByte va value m = ioStoreByte (refPhysical m.cpu va m.cpu.mode true) value
      { m with cpu := markRef va true m.cpu.mode true m.cpu } := by
  have hbind : cpuStoreByte va value m = (mmuRelocate va true m.cpu.mode true >>= fun pa =>
      if isIopage pa then ioStoreByte pa value
      else do
        checkNxm pa
        modifyCpu fun s => { s with mem := memWriteByte s.mem pa value } : M Unit) m := rfl
  have hm := mmuRelocate_apply va true m.cpu.mode true m
  rw [if_neg (not_not.2 h)] at hm
  rw [hbind, bind_ok hm, if_pos hio]

/-- The devices and the clock decide whether a byte write is only a write. -/
theorem byteSafe_congr {s t : Cpu} (hdev : t.dev = s.dev) (hacct : t.acct = s.acct)
    (pa : PhysAddr) (value : Byte) : ByteSafe t pa value ↔ ByteSafe s pa value := by
  have hlost : TransmitLost t ↔ TransmitLost s := by
    unfold TransmitLost
    rw [hdev, hacct]
  constructor <;> rintro ⟨hrbuf, hrxdb, hmtrd, hrlcs, hxbuf, hcommand⟩
  · rw [hdev] at hrbuf hrxdb hrlcs hcommand
    exact ⟨hrbuf, hrxdb, hmtrd, hrlcs, fun hr hp => hlost.1 (hxbuf hr hp), hcommand⟩
  · rw [← hdev] at hrbuf hrxdb hrlcs hcommand
    exact ⟨hrbuf, hrxdb, hmtrd, hrlcs, fun hr hp => hlost.2 (hxbuf hr hp), hcommand⟩

/-- A byte write of a register acts only as a write exactly in the safe states. -/
theorem writeByte_acts_iff {va : Word} (hok : refError m.cpu va true m.cpu.mode true = 0)
    (hio : isIopage (refPhysical m.cpu va m.cpu.mode true) = true)
    (hreg : ioReadReg m.cpu (byteReg (refPhysical m.cpu va m.cpu.mode true)) ≠ none) :
    ActsAsWrite va value (refPhysical m.cpu va m.cpu.mode true) m ↔
      ByteSafe m.cpu (refPhysical m.cpu va m.cpu.mode true) value := by
  have hrest := markRef_rest va true m.cpu.mode true m.cpu
  have hdev : (markRef va true m.cpu.mode true m.cpu).dev = m.cpu.dev := by
    rw [hrest]
  have hacct : (markRef va true m.cpu.mode true m.cpu).acct = m.cpu.acct := by
    rw [hrest]
  have hwrite : cpuWriteByte va value m = ioWriteByte (refPhysical m.cpu va m.cpu.mode true) value
      { m with cpu := markRef va true m.cpu.mode true m.cpu } := by
    rw [cpuWriteByte_apply, if_neg (not_not.2 hok), writeBytePhysical, if_pos hio]
  have hstore := cpuStoreByte_apply hok hio value
  have hmarked := mt (ioReadReg_none_congr (markRef_cfg va true m.cpu.mode true m.cpu) _).1 hreg
  obtain ⟨p, hp⟩ := Option.ne_none_iff_exists'.1 hmarked
  have hmute {t : Cpu} : Mute m.cpu t ↔ Mute (markRef va true m.cpu.mode true m.cpu) t := by
    unfold Mute transmitter
    rw [hdev]
  -- the mark on the page changes nothing that a register shows
  rw [← byteSafe_congr hdev hacct]
  generalize refPhysical m.cpu va m.cpu.mode true = pa at *
  generalize hm1 : ({ m with cpu := markRef va true m.cpu.mode true m.cpu } : Machine) = m1 at *
  have hcpu : markRef va true m.cpu.mode true m.cpu = m1.cpu := congrArg Machine.cpu hm1
  have hevents : m.events = m1.events := by rw [← hm1]
  rw [hcpu] at hp hmute ⊢
  have hunread := ioWriteByte_unread_iff hp value
  constructor
  · rintro ⟨hsame, hsilent, huncommanded⟩
    rw [hwrite] at hsame hsilent huncommanded
    obtain ⟨hrbuf, hrxdb, hmtrd, hrlcs⟩ := hunread.1 (hsame.trans hstore)
    refine ⟨hrbuf, hrxdb, hmtrd, hrlcs, fun hr hodd => ?_, fun hr hodd => ?_⟩
    · exact (xbuf_mute_iff hr).1 (hmute.1 (hsilent fun h => hodd h.2))
    · rw [hevents] at huncommanded
      exact (rlcs_uncommanded_iff hr hodd).1 (huncommanded hr hodd)
  · rintro ⟨hrbuf, hrxdb, hmtrd, hrlcs, hxbuf, hcommand⟩
    constructor
    · exact hwrite.trans ((hunread.2 ⟨hrbuf, hrxdb, hmtrd, hrlcs⟩).trans hstore.symm)
    · intro hn
      rw [hwrite, hmute]
      by_cases hr : byteReg pa = dl11Xbuf
      · exact (xbuf_mute_iff hr).2 (hxbuf hr fun heven => hn ⟨hr, heven⟩)
      · exact ioWriteByte_mute hp hr
    · intro hr hodd
      rw [hwrite, hevents]
      exact (rlcs_uncommanded_iff hr hodd).2 (hcommand hr hodd)

end

/-- The high byte of RLCS in a controller that is ready. -/
theorem rlcs_high_byte_acts :
    ActsAsWrite 0o174401 0o1 (refPhysical (cpuCreateModel .m1120) 0o174401 0 true)
      ⟨cpuCreateModel .m1120, []⟩ :=
  (writeByte_acts_iff (m := ⟨cpuCreateModel .m1120, []⟩) (by decide) (by decide)
    (by decide +kernel)).2
    ⟨fun h => absurd h (by decide), fun h => absurd h (by decide), by decide,
      fun _ => .inl (by decide), fun h => absurd h (by decide), fun _ _ => by decide⟩

/-- An 11/20 that has received a character and not read it. -/
def receivedMachine : Machine := ⟨consoleInput (cpuCreateModel .m1120) 0o101, []⟩

/-- A byte stored at RBUF takes the character away. -/
theorem rbuf_byte_takes_character :
    ¬∀ (va : Word) (value : Byte) (m : Machine), refError m.cpu va true m.cpu.mode true = 0 →
      isIopage (refPhysical m.cpu va m.cpu.mode true) = true →
      ioReadReg m.cpu (byteReg (refPhysical m.cpu va m.cpu.mode true)) ≠ none →
      ActsAsWrite va value (refPhysical m.cpu va m.cpu.mode true) m := by
  intro h
  have hacts := h 0o177562 0 receivedMachine (by decide) (by decide) (by decide +kernel)
  have hcsr := congrArg (fun r => (final r).cpu.dev.ttiCsr) hacts.unread
  have hwritten : (final (cpuWriteByte 0o177562 0 receivedMachine)).cpu.dev.ttiCsr = 0 := by
    decide +kernel
  have hstored : (final (cpuStoreByte 0o177562 0 receivedMachine)).cpu.dev.ttiCsr = dl11Done := by
    decide +kernel
  exact absurd (hwritten.symm.trans (hcsr.trans hstored)) (by decide)

end Pdp11
