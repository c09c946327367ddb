import Pdp11.ControllerFrames
import Pdp11.RunStores
import Pdp11.TapeCommands
import Pdp11.FloppyProtocol
import Pdp11.Schedule

namespace Pdp11

open FaultState

/-! What lies in a drive changes by the write commands of its controller, and by nothing else. -/

/-! ## Drives -/

/-- The drives that hold a medium. -/
inductive Drive
  | rk | rl | rp | rx | tm
  deriving DecidableEq

/-- The words of a disk, or the bytes of a floppy or of a tape. -/
abbrev Medium := DiskImage ⊕ ByteImage

namespace Drive

def medium : Drive → Cpu → Medium
  | rk, s => .inl s.dev.rk.disk
  | rl, s => .inl s.dev.rl.disk
  | rp, s => .inl s.dev.rp.disk
  | rx, s => .inr s.dev.rx.disk
  | tm, s => .inr s.dev.tm.tape

/-- Only the tape can be protected against writing. -/
def locked : Drive → Cpu → Bool
  | tm, s => s.dev.tm.wrp
  | _, _ => false

/-- A store to the control register that gives the drive a command to write. The TM11 looks at the
function when the command completes, so there any store of such a function counts. -/
def Writes : Drive → Word × Word → Prop
  | rk, w => w.1 = 0o177404 ∧ w.2 &&& rkcsGo ≠ 0 ∧ (w.2 &&& rkcsFunc) >>> 1 = rkFuncWrite
  | rl, w => w.1 = 0o174400 ∧ w.2 &&& rlcsDone = 0 ∧ (w.2 &&& rlcsFunc) >>> 1 = rlFuncWrite
  | rp, w => rpRegSel w.1 = some (.rh 0) ∧ w.2 &&& cs1Go ≠ 0 ∧ rpGetFnc w.2 = rpFncWrite
  | rx, w => w.1 = 0o177170 ∧ w.2 &&& rxcsInit = 0 ∧ w.2 &&& rxcsGo ≠ 0 ∧
      ((w.2 >>> 1) &&& 7 = rxFuncWrite ∨ (w.2 >>> 1) &&& 7 = rxFuncWrdel)
  | tm, w => w.1 = 0o172522 ∧ w.2 &&& mtcInit = 0 ∧ TmWrites (tmGetFnc w.2)

instance : (d : Drive) → (w : Word × Word) → Decidable (d.Writes w)
  | rk, _ => inferInstanceAs (Decidable (_ ∧ _ ∧ _))
  | rl, _ => inferInstanceAs (Decidable (_ ∧ _ ∧ _))
  | rp, _ => inferInstanceAs (Decidable (_ ∧ _ ∧ _))
  | rx, _ => inferInstanceAs (Decidable (_ ∧ _ ∧ _ ∧ _))
  | tm, _ => inferInstanceAs (Decidable (_ ∧ _ ∧ _))

/-- The floppy waits for an address of a sector it will write, or the tape is about to be
written. -/
def Pending : Drive → Cpu → Prop
  | rx, s => s.dev.rx.state ∈ [RxState.rwds, .rwdt, .rwxfr] ∧ rxFunc s.dev.rx ≠ rxFuncRead
  | tm, s => s.dev.tm.busy = true ∧ TmWrites (tmGetFnc s.dev.tm.cmd)
  | _, _ => False

instance : (d : Drive) → (s : Cpu) → Decidable (d.Pending s)
  | rk, _ => inferInstanceAs (Decidable False)
  | rl, _ => inferInstanceAs (Decidable False)
  | rp, _ => inferInstanceAs (Decidable False)
  | rx, _ => inferInstanceAs (Decidable (_ ∧ _))
  | tm, _ => inferInstanceAs (Decidable (_ ∧ _))

/-- The operations that put another medium in the drive. -/
def Attaches : Drive → BusOp → Prop
  | rk, .rkAttach _ _ => True
  | rl, .rlAttach _ _ => True
  | rp, .rpAttach _ _ => True
  | rx, .rxAttach _ _ => True
  | tm, .tmAttach _ _ _ => True
  | _, _ => False

/-- What must not change: the medium, and whether it is protected. -/
def held (d : Drive) (s : Cpu) : Medium × Bool := (d.medium s, d.locked s)

/-- A protected tape is safe from the command under way. -/
def Safe (d : Drive) (s : Cpu) : Prop := d.locked s = true ∨ ¬d.Pending s

end Drive

open Drive

section
variable {d : Drive} {s t : Cpu}

theorem held_frame (d : Drive) : FrameView d.held := by
  cases d <;> exact ⟨fun _ _ => rfl, fun _ _ => rfl⟩

theorem held_rk (d : Drive) : RkView d.held (d ≠ .rk) := by
  refine ⟨held_frame d, fun s rk h => ?_⟩
  cases d with
  | rk => exact congrArg (fun i => ((.inl i : Medium), false)) (h.resolve_left fun hne => hne rfl)
  | _ => rfl

theorem held_rl (d : Drive) : RlView d.held (d ≠ .rl) := by
  refine ⟨held_frame d, fun s rl h => ?_⟩
  cases d with
  | rl => exact congrArg (fun i => ((.inl i : Medium), false)) (h.resolve_left fun hne => hne rfl)
  | _ => rfl

theorem held_rp (d : Drive) : RpView d.held (d ≠ .rp) := by
  refine ⟨held_frame d, fun s rp h => ?_⟩
  cases d with
  | rp => exact congrArg (fun i => ((.inl i : Medium), false)) (h.resolve_left fun hne => hne rfl)
  | _ => rfl

theorem held_tm (d : Drive) : TmView d.held (d ≠ .tm) := by
  refine ⟨held_frame d, fun s tm h => ?_⟩
  cases d with
  | tm =>
    exact congrArg (fun p : ByteImage × Bool => ((.inr p.1 : Medium), p.2))
      (h.resolve_left fun hne => hne rfl)
  | _ => rfl

theorem held_rx (h : d ≠ .rx) : RxView d.held := by
  refine ⟨held_frame d, fun s rx => ?_⟩
  cases d with
  | rx => exact absurd rfl h
  | _ => rfl

/-! ## The tape and the floppy on their own -/

/-- A write command is awaited after a store to MTC of such a function only. -/
theorem tmWrite_safe (a value : Word) (hw : Drive.tm.locked s = true ∨ ¬Drive.tm.Writes (a, value))
    (hs : Drive.tm.Safe s) : Drive.tm.Safe (tmWrite s a value) := by
  have hlocked : Drive.tm.locked (tmWrite s a value) = Drive.tm.locked s :=
    congrArg Prod.snd (tmWrite_unseen (held_tm .tm) (.refl s) a value)
  by_cases hl : Drive.tm.locked s = true
  · exact .inl (hlocked.trans hl)
  refine .inr ?_
  have hpending := hs.resolve_left hl
  have hmtc (ha : a = 0o172522) : ¬Drive.tm.Pending (tmWriteMtc s value) := by
    rintro ⟨hbusy, hfunc⟩
    by_cases hinit : value &&& mtcInit = 0
    · have hvalue : ¬TmWrites (tmGetFnc value) := fun h => hw.resolve_left hl ⟨ha, hinit, h⟩
      -- MTC is loaded, and the command starts if the unit is ready and GO is set
      obtain ⟨intReq, heq⟩ := tmWriteMtc_eq (s := s) hinit
      rw [heq] at hbusy hfunc
      dsimp only at hbusy hfunc
      split at hfunc
      · rw [if_pos ‹_›] at hbusy
        unfold tmGo at hbusy hfunc
        dsimp only at hbusy hfunc
        split at hfunc
        · -- refused: no tape, or a write to a protected one
          rw [if_pos ‹_›, tmSetDone_busy] at hbusy
          cases hbusy
        · have hload : TmWrites (tmGetFnc (((s.dev.tm.cmd &&& ~~~mtcRw) ||| (value &&& mtcRw)) &&&
              ~~~mtcDone)) := hfunc
          rw [tmGetFnc_clearDone, tmGetFnc_load] at hload
          exact hvalue hload
      · -- a command under way takes the new function with it
        rw [tmGetFnc_load] at hfunc
        exact hvalue hfunc
    · unfold tmWriteMtc at hbusy
      rw [if_pos hinit] at hbusy
      cases hbusy
  have hite {c : Prop} [Decidable c] {t u : Cpu} (ht : c → ¬Drive.tm.Pending t)
      (hu : ¬Drive.tm.Pending u) : ¬Drive.tm.Pending (if c then t else u) := by
    split
    · exact ht ‹_›
    · exact hu
  exact hite hmtc <| hite (fun _ => hpending) <| hite (fun _ => hpending) <|
    hite (fun _ => hpending) hpending

theorem tmRead_safe (a : Word) (hs : Drive.tm.Safe s) : Drive.tm.Safe (tmRead s a).2 := by
  unfold tmRead
  dsimp only
  split_ifs <;> exact hs

/-- A command that has completed is not under way. -/
theorem tmPoll_safe (hs : Drive.tm.Safe s) : Drive.tm.Safe (tmPoll s) := by
  unfold tmPoll
  split
  · exact hs
  refine .inr fun hpending => ?_
  have hbusy := hpending.1
  unfold tmExecute at hbusy
  dsimp only at hbusy
  split at hbusy <;>
    · rw [tmSetDone_busy] at hbusy
      cases hbusy

/-- The function of the RX11 lies in three bits of RXCS. -/
theorem rxFunc_congr {rx rx' : Rx11} (h : rx'.rxcs &&& rxcsFunc = rx.rxcs &&& rxcsFunc) :
    rxFunc rx' = rxFunc rx := by
  have hfield (c : Word) : (c >>> 1) &&& (7 : Word) = (c &&& rxcsFunc) >>> 1 := by
    rw [BitVec.ushiftRight_and_distrib]
    rfl
  unfold rxFunc
  rw [hfield, hfield, h]

theorem rxTransfer_spared (h : rxFunc s.dev.rx = rxFuncRead) :
    (rxTransfer s).dev.rx.state = .idle ∧ (rxTransfer s).dev.rx.disk = s.dev.rx.disk := by
  have hended (u : Cpu) (code : Byte) (hu : u.dev.rx.disk = s.dev.rx.disk) :
      (rxDone u 0 (some code)).dev.rx.state = .idle ∧
        (rxDone u 0 (some code)).dev.rx.disk = s.dev.rx.disk :=
    ⟨(rxDone_ended u 0 (some code)).state, (rxDone_ended u 0 (some code)).disk.trans hu⟩
  have hwrdel : ¬rxFunc s.dev.rx = rxFuncWrdel := by
    rw [h]
    decide
  unfold rxTransfer
  dsimp only
  rw [if_neg hwrdel, if_pos h]
  split_ifs <;> exact hended _ _ rfl

/-- What a step of the RX11 keeps when no write is awaited. -/
def RxSpared (s t : Cpu) : Prop := t.dev.rx.disk = s.dev.rx.disk ∧ ¬Drive.rx.Pending t

theorem RxSpared.of_state (hdisk : t.dev.rx.disk = s.dev.rx.disk)
    (hstate : t.dev.rx.state ∉ [RxState.rwds, .rwdt, .rwxfr]) : RxSpared s t :=
  ⟨hdisk, fun hp => hstate hp.1⟩

theorem RxSpared.of_idle (hdisk : t.dev.rx.disk = s.dev.rx.disk) (hstate : t.dev.rx.state = .idle) :
    RxSpared s t := .of_state hdisk (by rw [hstate]; decide)

theorem RxSpared.of_func (hdisk : t.dev.rx.disk = s.dev.rx.disk)
    (hfunc : t.dev.rx.rxcs &&& rxcsFunc = s.dev.rx.rxcs &&& rxcsFunc)
    (hstate : t.dev.rx.state ∈ [RxState.rwds, .rwdt, .rwxfr] →
      s.dev.rx.state ∈ [RxState.rwds, .rwdt, .rwxfr]) (hs : ¬Drive.rx.Pending s) :
    RxSpared s t := by
  refine ⟨hdisk, fun hp => hs ⟨hstate hp.1, ?_⟩⟩
  rw [← rxFunc_congr hfunc]
  exact hp.2

theorem rxStep_spared (hs : ¬Drive.rx.Pending s) : RxSpared s (rxStep s) := by
  have hdone (u : Cpu) (hu : u.dev.rx.disk = s.dev.rx.disk) (flags : Byte) (code : Option Byte) :
      RxSpared s (rxDone u flags code) :=
    .of_idle ((rxDone_ended u flags code).disk.trans hu) (rxDone_ended u flags code).state
  -- the sector command under way can only be a read
  have hread (hstate : s.dev.rx.state ∈ [RxState.rwds, .rwdt, .rwxfr]) :
      rxFunc s.dev.rx = rxFuncRead := not_not.1 fun hne => hs ⟨hstate, hne⟩
  have htr : (s.dev.rx.rxcs ||| rxcsTr) &&& rxcsFunc = s.dev.rx.rxcs &&& rxcsFunc :=
    BitMask.or_and_eq _ (by decide)
  have hmoves {c : Prop} [Decidable c] {t u : Cpu} (ht : RxSpared s t) (hu : RxSpared s u) :
      RxSpared s (if c then t else u) := by
    split
    · exact ht
    · exact hu
  cases hstate : s.dev.rx.state <;> simp only [rxStep, hstate]
  case idle => exact .of_idle rfl hstate
  case rwds => exact .of_func rfl htr (fun _ => by rw [hstate]; decide) hs
  case rwdt =>
    obtain ⟨hidle, hdisk⟩ := rxTransfer_spared (s := { s with
      dev.rx.track := s.dev.rx.rxdb
      dev.rx.state := .rwxfr }) (hread (by rw [hstate]; decide))
    exact .of_idle hdisk hidle
  case rwxfr =>
    obtain ⟨hidle, hdisk⟩ := rxTransfer_spared (hread (by rw [hstate]; decide))
    exact .of_idle hdisk hidle
  case fill => exact hmoves (.of_state rfl (show RxState.fill ∉ _ by decide)) (hdone _ (by rfl) _ _)
  case empty =>
    exact hmoves (hdone _ (by rfl) _ _) (.of_state rfl (show RxState.empty ∉ _ by decide))
  case cmddone => exact hmoves (hdone _ (by rfl) _ _) (hdone _ (by rfl) _ _)

theorem RxSpared.after {u : Cpu} (h : RxSpared u t) (hdisk : u.dev.rx.disk = s.dev.rx.disk) :
    RxSpared s t := ⟨h.1.trans hdisk, h.2⟩

/-- A step in a state that is none of a sector command's. -/
theorem rxStep_other {u : Cpu} (hdisk : u.dev.rx.disk = s.dev.rx.disk)
    (hstate : u.dev.rx.state ∉ [RxState.rwds, .rwdt, .rwxfr]) : RxSpared s (rxStep u) :=
  (rxStep_spared fun hp => hstate hp.1).after hdisk

theorem rxGo_spared {value : Word} (hw : ¬((value >>> 1) &&& 7 = rxFuncWrite ∨
    (value >>> 1) &&& 7 = rxFuncWrdel)) : RxSpared s (rxGo s value) := by
  have hfunc (rx : Rx11) (hcs : rx.rxcs &&& rxcsFunc = value &&& rxcsFunc) :
      rxFunc rx = (value >>> 1) &&& 7 :=
    show rxFunc rx = rxFunc { rx with rxcs := value } from rxFunc_congr hcs
  have hload : value &&& (rxcsIe ||| rxcsDrv ||| rxcsFunc) &&& rxcsFunc = value &&& rxcsFunc := by
    rw [BitVec.and_assoc]
    rfl
  unfold rxGo
  dsimp only
  rw [hfunc _ hload]
  split_ifs with hfill hempty hsector
  · exact .of_state rfl (show RxState.fill ∉ _ by decide)
  · exact rxStep_other (by rfl) (show RxState.empty ∉ _ by decide)
  · refine ⟨rfl, fun hp => hp.2 ?_⟩
    refine Eq.trans ?_ (hsector.resolve_right hw)
    have htr : ((value &&& (rxcsIe ||| rxcsDrv ||| rxcsFunc)) ||| rxcsTr) &&& rxcsFunc =
        value &&& rxcsFunc :=
      (BitMask.or_and_eq _ (by decide)).trans hload
    exact hfunc _ htr
  · exact rxStep_other (by rfl) (show RxState.cmddone ∉ _ by decide)

theorem rxWrite_spared (a value : Word) (hw : ¬Drive.rx.Writes (a, value))
    (hs : ¬Drive.rx.Pending s) : RxSpared s (rxWrite s a value) := by
  have hsame (rxcs : Word) (rxdb : Byte) (h : rxcs &&& rxcsFunc = s.dev.rx.rxcs &&& rxcsFunc) :
      RxSpared s { s with
        dev.rx.rxcs := rxcs
        dev.rx.rxdb := rxdb } := .of_func rfl h id hs
  have hite {c : Prop} [Decidable c] {t u : Cpu} (ht : c → RxSpared s t) (hu : ¬c → RxSpared s u) :
      RxSpared s (if c then t else u) := by
    split
    · exact ht ‹_›
    · exact hu ‹_›
  refine hite (fun ha => ?_) fun _ => hite (fun _ => hite (fun _ => ?_) fun _ => ?_) fun _ => ?_
  · -- RXCS: INIT, GO, or the interrupt enable alone
    refine hite (fun _ => .of_idle rfl rfl) fun hinit =>
      hite (fun hgo => rxGo_spared ?_) fun _ => ?_
    · exact fun hfunc => hw ⟨ha, not_not.1 hinit, hgo.1, hfunc⟩
    · obtain ⟨req, heq⟩ := request_ite s .rx (value &&& rxcsIe = 0)
        (s.dev.rx.rxcs &&& (rxcsDone ||| rxcsIe) = rxcsDone)
      rw [heq]
      exact .of_func rfl (BitMask.load_and_eq _ _ (by decide)) id hs
  · -- a byte of the protocol
    have hbyte := hsame (s.dev.rx.rxcs &&& ~~~rxcsTr) (value.setWidth 8)
      (BitMask.and_not_and_eq _ (by decide))
    exact (rxStep_spared hbyte.2).after rfl
  · exact hsame s.dev.rx.rxcs _ rfl
  · exact ⟨rfl, hs⟩

theorem rxRead_spared (a : Word) (hs : ¬Drive.rx.Pending s) : RxSpared s (rxRead s a).2 := by
  unfold rxRead
  dsimp only
  split_ifs
  · exact ⟨rfl, hs⟩
  · have hbyte : RxSpared s { s with dev.rx.rxcs := s.dev.rx.rxcs &&& ~~~rxcsTr } :=
      .of_func rfl (BitMask.and_not_and_eq _ (by decide)) id hs
    exact (rxStep_spared hbyte.2).after rfl
  · exact ⟨rfl, hs⟩

/-! ## Register accesses and completions -/

/-- The medium stays, and no write command comes to be under way. -/
structure Spared (d : Drive) (s t : Cpu) : Prop where
  held : d.held t = d.held s
  safe : d.Safe t

theorem Spared.trans {u : Cpu} (h : Spared d s t) (h' : Spared d t u) : Spared d s u :=
  ⟨h'.held.trans h.held, h'.safe⟩

theorem Spared.locked (h : Spared d s t) : d.locked t = d.locked s := congrArg Prod.snd h.held

theorem safe_congr (hrx : d = .rx → t.dev.rx = s.dev.rx) (htm : d = .tm → t.dev.tm = s.dev.tm)
    (hs : d.Safe s) : d.Safe t := by
  cases d with
  | rx =>
    refine .inr fun hp => hs.resolve_left Bool.false_ne_true ?_
    obtain ⟨hstate, hfunc⟩ := hp
    rw [hrx rfl] at hstate hfunc
    exact ⟨hstate, hfunc⟩
  | tm =>
    refine hs.imp (fun hl => (congrArg Tm11.wrp (htm rfl)).trans hl) fun hn hp => hn ?_
    obtain ⟨hbusy, hfunc⟩ := hp
    rw [htm rfl] at hbusy hfunc
    exact ⟨hbusy, hfunc⟩
  | _ => exact .inr id

/-- The controllers of the drives. -/
def controllers (s : Cpu) : Rk11 × Rl11 × Rp11 × Rx11 × Tm11 :=
  (s.dev.rk, s.dev.rl, s.dev.rp, s.dev.rx, s.dev.tm)

theorem spared_of_controllers (h : controllers t = controllers s) (hs : d.Safe s) :
    Spared d s t := by
  simp only [controllers, Prod.mk.injEq] at h
  obtain ⟨hrk, hrl, hrp, hrx, htm⟩ := h
  refine ⟨?_, safe_congr (fun _ => hrx) (fun _ => htm) hs⟩
  unfold held
  cases d with
  | rk => exact congrArg (fun rk : Rk11 => ((.inl rk.disk : Medium), false)) hrk
  | rl => exact congrArg (fun rl : Rl11 => ((.inl rl.disk : Medium), false)) hrl
  | rp => exact congrArg (fun rp : Rp11 => ((.inl rp.disk : Medium), false)) hrp
  | rx => exact congrArg (fun rx : Rx11 => ((.inr rx.disk : Medium), false)) hrx
  | tm => exact congrArg (fun tm : Tm11 => ((.inr tm.tape : Medium), tm.wrp)) htm

/-- The registers in which a write command can be under way. -/
def writers (s : Cpu) : Rx11 × Tm11 := (s.dev.rx, s.dev.tm)

theorem writers_frame : FrameView writers := ⟨fun _ _ => rfl, fun _ _ => rfl⟩

theorem spared_of_writers (hheld : Unseen d.held s t) (h : Unseen writers s t) (hs : d.Safe s) :
    Spared d s t :=
  ⟨hheld, safe_congr (fun _ => congrArg Prod.fst h) (fun _ => congrArg Prod.snd h) hs⟩

theorem writers_rk : RkView writers True := ⟨writers_frame, fun _ _ _ => rfl⟩

theorem writers_rl : RlView writers True := ⟨writers_frame, fun _ _ _ => rfl⟩

theorem writers_rp : RpView writers True := ⟨writers_frame, fun _ _ _ => rfl⟩

theorem floppy_view : TmView (fun s => s.dev.rx) True :=
  ⟨⟨fun _ _ => rfl, fun _ _ => rfl⟩, fun _ _ _ => rfl⟩

theorem tape_view : RxView fun s => s.dev.tm := ⟨⟨fun _ _ => rfl, fun _ _ => rfl⟩, fun _ _ => rfl⟩

/-- The drive is another, or the store is no write command of it. -/
theorem ne_of_command {e : Drive} {w : Word × Word} (he : e.locked s = false)
    (hw : d.locked s = true ∨ ¬d.Writes w) (hcommand : e.Writes w) : d ≠ e := by
  rintro rfl
  exact hw.elim (fun hl => absurd (he.symm.trans hl) (by decide)) fun hn => hn hcommand

theorem regWrite_spared {a value : Word} (hw : d.locked s = true ∨ ¬d.Writes (a, value))
    (ht : RegWrite s a value t) (hs : d.Safe s) : Spared d s t := by
  have hr {β : Type} {v : Cpu → β} : Unseen v s s := .refl s
  cases ht with
  | processor t hdev _ => exact spared_of_controllers (by unfold controllers; rw [hdev]) hs
  | clk _ =>
    refine spared_of_controllers ?_ hs
    unfold clkWrite
    dsimp only
    split_ifs <;> rfl
  | console =>
    refine spared_of_controllers ?_ hs
    unfold consoleWrite dl11CsrInt
    split_ifs <;> rfl
  | rk =>
    exact spared_of_writers (rkWrite_unseen (held_rk d) hr a value fun ha hgo hfunc =>
      ne_of_command rfl hw ⟨ha, hgo, hfunc⟩)
      (rkWrite_unseen writers_rk hr a value fun _ _ _ => trivial) hs
  | rl =>
    exact spared_of_writers (rlWrite_unseen (held_rl d) hr a value fun ha hgo hfunc =>
      ne_of_command rfl hw ⟨ha, hgo, hfunc⟩)
      (rlWrite_unseen writers_rl hr a value fun _ _ _ => trivial) hs
  | rp =>
    exact spared_of_writers (rpWrite_unseen (held_rp d) hr a value fun ha hgo hfunc =>
      ne_of_command rfl hw ⟨ha, hgo, hfunc⟩)
      (rpWrite_unseen writers_rp hr a value fun _ _ _ => trivial) hs
  | tm =>
    refine ⟨tmWrite_unseen (held_tm d) hr a value, ?_⟩
    by_cases hd : d = .tm
    · subst hd
      exact tmWrite_safe a value hw hs
    · have hrx := tmWrite_unseen floppy_view (.refl s) a value
      exact safe_congr (fun _ => hrx) (fun htm => absurd htm hd) hs
  | rx =>
    by_cases hd : d = .rx
    · subst hd
      obtain ⟨hdisk, hpending⟩ := rxWrite_spared a value (hw.resolve_left Bool.false_ne_true)
        (hs.resolve_left Bool.false_ne_true)
      exact ⟨congrArg (fun i => ((.inr i : Medium), false)) hdisk, .inr hpending⟩
    · have htm := rxWrite_unseen tape_view (.refl s) a value
      refine ⟨rxWrite_unseen (held_rx hd) hr a value, ?_⟩
      exact safe_congr (fun hrx => absurd hrx hd) (fun _ => htm) hs

theorem regRead_spared {a : Word} (ht : RegRead s a t) (hs : d.Safe s) : Spared d s t := by
  have hr {β : Type} {v : Cpu → β} : Unseen v s s := .refl s
  cases ht with
  | none => exact spared_of_controllers rfl hs
  | console =>
    refine spared_of_controllers ?_ hs
    unfold consoleRead
    split_ifs <;> rfl
  | rl =>
    exact spared_of_writers (rlRead_unseen (held_rl d) hr a) (rlRead_unseen writers_rl hr a) hs
  | tm =>
    refine ⟨tmRead_unseen (held_tm d) hr a, ?_⟩
    by_cases hd : d = .tm
    · subst hd
      exact tmRead_safe a hs
    · have hrx := tmRead_unseen floppy_view (.refl s) a
      exact safe_congr (fun _ => hrx) (fun htm => absurd htm hd) hs
  | rx =>
    by_cases hd : d = .rx
    · subst hd
      obtain ⟨hdisk, hpending⟩ := rxRead_spared a (hs.resolve_left Bool.false_ne_true)
      exact ⟨congrArg (fun i => ((.inr i : Medium), false)) hdisk, .inr hpending⟩
    · have htm := rxRead_unseen tape_view (.refl s) a
      refine ⟨rxRead_unseen (held_rx hd) hr a, ?_⟩
      exact safe_congr (fun hrx => absurd hrx hd) (fun _ => htm) hs

theorem rkPoll_spared (hs : d.Safe s) : Spared d s (rkPoll s) :=
  spared_of_writers (rkPoll_unseen (held_rk d) (.refl s)) (rkPoll_unseen writers_rk (.refl s)) hs

theorem rlPoll_spared (hs : d.Safe s) : Spared d s (rlPoll s) :=
  spared_of_writers (rlPoll_unseen (held_rl d) (.refl s)) (rlPoll_unseen writers_rl (.refl s)) hs

theorem rpPoll_spared (hs : d.Safe s) : Spared d s (rpPoll s) :=
  spared_of_writers (rpPoll_unseen (held_rp d) (.refl s)) (rpPoll_unseen writers_rp (.refl s)) hs

theorem tmPoll_spared (hs : d.Safe s) : Spared d s (tmPoll s) := by
  refine ⟨tmPoll_unseen (held_tm d) (.refl s) fun hbusy hwrp hfunc => ?_, ?_⟩
  · -- the command under way writes, so the tape is another drive's
    rintro rfl
    exact hs.elim (fun hl => absurd (hwrp.symm.trans hl) (by decide)) fun hn => hn ⟨hbusy, hfunc⟩
  · by_cases hd : d = .tm
    · subst hd
      exact tmPoll_safe hs
    · have hrx := tmPoll_unseen floppy_view (.refl s) fun _ _ _ => trivial
      exact safe_congr (fun _ => hrx) (fun htm => absurd htm hd) hs

theorem serviceDueEvents_spared (hs : d.Safe s) : Spared d s (serviceDueEvents s) := by
  have hite {c : Prop} [Decidable c] {t u : Cpu} (hu : Spared d s u) (ht : Spared d u t) :
      Spared d s (if c then t else u) := by
    split
    · exact hu.trans ht
    · exact hu
  have hstation : Spared d s (serviceStation s) := by
    refine spared_of_controllers ?_ hs
    unfold serviceStation serviceClock clkTick consoleTxPoll
    dsimp only
    split_ifs <;> rfl
  unfold serviceDueEvents
  extract_lets t1 t2 t3 t4 t5
  have h2 : Spared d s t2 := hstation
  have h3 : Spared d s t3 := hite h2 (rkPoll_spared h2.safe)
  have h4 : Spared d s t4 := hite h3 (rpPoll_spared h3.safe)
  have h5 : Spared d s t5 := hite h4 (tmPoll_spared h4.safe)
  exact hite h5 (rlPoll_spared h5.safe)

theorem busInit_spared (hs : d.Safe s) : Spared d s (busInit s) := by
  cases d with
  | rx => exact ⟨rfl, hs⟩
  | tm => exact ⟨rfl, .inr fun hp => nomatch hp.1⟩
  | _ => exact ⟨rfl, .inr id⟩

theorem cpuReset_spared (d : Drive) (s : Cpu) : Spared d s (cpuReset s) := by
  cases d with
  | rx => exact ⟨rfl, .inr fun hp => absurd hp.1 (show RxState.idle ∉ _ by decide)⟩
  | tm => exact ⟨rfl, .inr fun hp => nomatch hp.1⟩
  | _ => exact ⟨rfl, .inr id⟩

/-! ## Runs -/

/-- A part of a call whose stores are no write commands spares the medium. -/
def Spares (d : Drive) (m m' : Machine) : Prop :=
  ∃ es, m'.events = m.events ++ es ∧
    ((∀ w ∈ writesOf es, d.locked m.cpu = true ∨ ¬d.Writes w) → d.Safe m.cpu →
      Spared d m.cpu m'.cpu)

theorem spares_devices (d : Drive) : DeviceRelation (Spares d) where
  trans m m' m'' := by
    rintro ⟨es, he, h⟩ ⟨fs, hf, h'⟩
    refine ⟨es ++ fs, by rw [hf, he, List.append_assoc], fun hw hs => ?_⟩
    rw [writesOf_append] at hw
    have hfirst := h (fun w hmem => hw w (List.mem_append_left _ hmem)) hs
    refine hfirst.trans (h' (fun w hmem => ?_) hfirst.safe)
    rw [hfirst.locked]
    exact hw w (List.mem_append_right _ hmem)
  same m m' hdev hes := by
    obtain ⟨es, he⟩ := hes
    exact ⟨es, he, fun _ hs => spared_of_controllers (by unfold controllers; rw [hdev]) hs⟩
  read m a p hp :=
    ⟨[], (List.append_nil _).symm, fun _ hs => regRead_spared (ioReadReg_regRead hp) hs⟩
  write m a value t ht :=
    ⟨[.ioWrite a value], rfl, fun hw hs =>
      regWrite_spared (hw (a, value) (List.mem_singleton_self _)) (ioWriteReg_regWrite ht) hs⟩

/-- A call of the step. -/
theorem cpuStep_spared (hs : d.Safe s)
    (hw : ∀ w ∈ writesOf (cpuStep s).events, d.locked s = true ∨ ¬d.Writes w) :
    Spared d s (cpuStep s).cpu := by
  have hmodify {f : Cpu → Cpu} (hf : ∀ s, d.Safe s → Spared d s (f s)) :
      Respects (Spares d) (modifyCpu f) :=
    fun m => ⟨[], (List.append_nil _).symm, fun _ hs => hf m.cpu hs⟩
  have hack (p : Pdp11.Pending) : Respects (Spares d) (modifyCpu (acknowledge p)) := by
    refine hmodify fun s hs => spared_of_controllers ?_ hs
    cases p <;> rfl
  have hservice (m : Machine) (acct : Accounting) :
      Spares d m { m with cpu := serviceDueEvents { m.cpu with acct := acct } } := by
    refine ⟨[], (List.append_nil _).symm, fun _ hs => ?_⟩
    have hacct : Spared d m.cpu { m.cpu with acct := acct } := spared_of_controllers rfl hs
    exact hacct.trans (serviceDueEvents_spared hacct.safe)
  obtain ⟨es, he, h⟩ :=
    (spares_devices d).programs.cpuStep (hmodify fun _ => busInit_spared) hack hservice s
  rw [List.nil_append] at he
  exact h (he ▸ hw) hs

theorem BusOp.spared {op : BusOp} (hattach : ¬d.Attaches op) (hs : d.Safe s)
    (hw : ∀ w ∈ op.stores s, d.locked s = true ∨ ¬d.Writes w) : Spared d s (op.apply s) := by
  have hsame {t : Cpu} (h : controllers t = controllers s) : Spared d s t :=
    spared_of_controllers h hs
  have htick : controllers (clkTick s) = controllers s := by
    unfold clkTick
    dsimp only
    split_ifs <;> rfl
  have hinput (ch : Byte) : controllers (consoleInput s ch) = controllers s := by
    unfold consoleInput
    dsimp only
    split_ifs <;> rfl
  have hpoll : controllers (consoleTxPoll s) = controllers s := by
    unfold consoleTxPoll
    dsimp only
    split_ifs <;> rfl
  cases op with
  | step => exact cpuStep_spared hs hw
  | reset => exact cpuReset_spared d s
  | init => exact busInit_spared hs
  | read a =>
    show Spared d s (((ioReadReg s a).map Prod.snd).getD s)
    cases hp : ioReadReg s a with
    | none => exact hsame rfl
    | some p => exact regRead_spared (ioReadReg_regRead hp) hs
  | write a value =>
    show Spared d s ((ioWriteReg s a value).getD s)
    cases ht : ioWriteReg s a value with
    | none => exact hsame rfl
    | some t =>
      exact regWrite_spared (hw (a, value) (List.mem_singleton_self _)) (ioWriteReg_regWrite ht) hs
  | tick => exact hsame htick
  | input ch => exact hsame (hinput ch)
  | txPoll => exact hsame hpoll
  | rkPoll => exact rkPoll_spared hs
  | rpPoll => exact rpPoll_spared hs
  | tmPoll => exact tmPoll_spared hs
  | rlPoll => exact rlPoll_spared hs
  | acknowledge e => exact hsame rfl
  | load r mem => exact hsame rfl
  | setHalted halted => exact hsame rfl
  | rkAttach disk words => cases d <;> first | exact absurd trivial hattach | exact ⟨rfl, hs⟩
  | rpAttach disk words => cases d <;> first | exact absurd trivial hattach | exact ⟨rfl, hs⟩
  | tmAttach tape len wrp => cases d <;> first | exact absurd trivial hattach | exact ⟨rfl, hs⟩
  | rlAttach disk words => cases d <;> first | exact absurd trivial hattach | exact ⟨rfl, hs⟩
  | rxAttach disk bytes => cases d <;> first | exact absurd trivial hattach | exact ⟨rfl, hs⟩

/-- Over any run in which nothing is attached to a drive and no store is a write command of its
controller, or the tape in it is protected, the medium does not change. -/
theorem medium_kept (hs : d.Safe s) {ops : List BusOp} (hattach : ∀ op ∈ ops, ¬d.Attaches op)
    (hstores : d.locked s = true ∨ ∀ w ∈ runStores s ops, ¬d.Writes w) :
    d.medium (runOps s ops) = d.medium s ∧ d.Safe (runOps s ops) := by
  have hcalm : ∀ w ∈ runStores s ops, d.locked s = true ∨ ¬d.Writes w :=
    fun w hw => hstores.imp_right fun h => h w hw
  have hrun : Spared d s (runOps s ops) := by
    refine runOps_keeps (fun op t hop hw h => h.trans (BusOp.spared hop h.safe fun w hmem => ?_))
      hattach hcalm ⟨rfl, hs⟩
    rw [h.locked]
    exact hw w hmem
  exact ⟨congrArg Prod.fst hrun.held, hrun.safe⟩

/-- A disk that is read keeps its words. -/
theorem disk_read_kept :
    let s := rkAttach cpuCreate (some fun i => i.setWidth 16) 4096
    let ops : List BusOp :=
      [.write 0o177406 0o177770, .write 0o177404 0o5, .rkPoll, .setHalted true, .step]
    Drive.rk.medium (runOps s ops) = Drive.rk.medium s := by
  intro s ops
  refine (medium_kept (d := .rk) (.inr id) (fun op hop => ?_) (.inr fun w hw => ?_)).1
  · simp only [ops, List.mem_cons, List.not_mem_nil, or_false] at hop
    rcases hop with rfl | rfl | rfl | rfl | rfl <;> exact id
  · have hstores : runStores s ops = [(0o177406, 0o177770), (0o177404, 0o5)] := rfl
    rw [hstores, List.mem_cons, List.mem_singleton] at hw
    rcases hw with rfl | rfl <;> decide

end

end Pdp11
