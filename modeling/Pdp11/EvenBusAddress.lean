import Pdp11.BusOps
import Pdp11.ControllerFrames
import Pdp11.DiskChains
import Pdp11.UnitEffects

namespace Pdp11

/-! Bit 0 of RKBA is never set: what a chained transfer of the RK11 asks of RKBA always holds. -/

section
variable {s t : Cpu}

theorem rkbaImp_even (x : Word) : (x &&& rkbaImp).toNat % 2 = 0 := by
  rw [rkbaImp_toNat]
  omega

/-- No command sets it. -/
theorem rkGo_even (h : s.dev.rk.rkba.toNat % 2 = 0) : (rkGo s).dev.rk.rkba.toNat % 2 = 0 := by
  have herror (t : Cpu) (err : Word) : (rkSetError t err).dev.rk.rkba = t.dev.rk.rkba := by
    obtain ⟨cs, er, -, heq⟩ := rkSetError_eq (s := t) err
    rw [heq]
  have hfinish (t : Cpu) : (rkFinish t).dev.rk.rkba = t.dev.rk.rkba := by
    unfold rkFinish
    dsimp only
    split <;> rfl
  have htransfer (t : Cpu) (func : Word) : (rkTransfer t func).dev.rk.rkba.toNat % 2 = 0 := by
    unfold rkTransfer rkAdvance
    exact rkbaImp_even _
  unfold rkGo
  extract_lets func _ _ s0 s1 sect cyl func' wc s2
  have h1 : s1.dev.rk.rkba.toNat % 2 = 0 := h
  split
  · rfl
  split
  · rwa [hfinish, herror]
  split
  · rwa [hfinish]
  split
  · rwa [hfinish, herror]
  split
  · rwa [hfinish, herror]
  show s2.dev.rk.rkba.toNat % 2 = 0
  have hs2 : s2 = if func' = rkFuncRead ∨ func' = rkFuncWrite ∨ func' = rkFuncWchk then
      rkTransfer s1 func' else s1 := rfl
  rw [hs2]
  split
  · exact htransfer s1 func'
  · exact h1

/-- No write of a register sets it. -/
theorem rkWrite_even {a value : Word} (h : s.dev.rk.rkba.toNat % 2 = 0) :
    (rkWrite s a value).dev.rk.rkba.toNat % 2 = 0 := by
  unfold rkWrite
  split
  · dsimp only
    obtain ⟨req, hreq⟩ := request_ite { s with dev.rk.rkcs := s.dev.rk.rkcs &&& rkcsReal } .rk
      (value &&& rkcsIe = 0) ((s.dev.rk.rkcs &&& rkcsReal) &&& (rkcsDone ||| rkcsIe) = rkcsDone)
    dsimp only at hreq
    rw [hreq]
    split
    · exact rkGo_even h
    · exact h
  split
  · exact h
  split
  · exact rkbaImp_even value
  split
  · split <;> exact h
  · exact h

/-- The registers of the RK11. -/
def rkUnit (s : Cpu) : Rk11 := s.dev.rk

theorem rkUnit_frame : FrameView rkUnit := ⟨fun _ _ => rfl, fun _ _ => rfl⟩

theorem rkUnit_rl : RlView rkUnit True := ⟨rkUnit_frame, fun _ _ _ => rfl⟩

theorem rkUnit_rp : RpView rkUnit True := ⟨rkUnit_frame, fun _ _ _ => rfl⟩

theorem rkUnit_tm : TmView rkUnit True := ⟨rkUnit_frame, fun _ _ _ => rfl⟩

theorem rkUnit_rx : RxView rkUnit := ⟨rkUnit_frame, fun _ _ => rfl⟩

def RkbaEven (s : Cpu) : Prop := s.dev.rk.rkba.toNat % 2 = 0

theorem RkbaEven.unseen (h : RkbaEven s) (hu : Unseen rkUnit s t) : RkbaEven t := by
  have hrk : t.dev.rk = s.dev.rk := hu
  unfold RkbaEven
  rw [hrk]
  exact h

theorem RkbaEven.dev (h : RkbaEven s) (hdev : t.dev = s.dev) : RkbaEven t :=
  h.unseen (congrArg Devices.rk hdev)

theorem RkbaEven.rkPoll (h : RkbaEven s) : RkbaEven (rkPoll s) := by
  unfold Pdp11.rkPoll rkFinish
  dsimp only
  split_ifs <;> exact h

theorem RkbaEven.service (h : RkbaEven s) : RkbaEven (serviceDueEvents s) := by
  have hite {c : Prop} [Decidable c] {t u : Cpu} (hu : RkbaEven u) (ht : RkbaEven u → RkbaEven t) :
      RkbaEven (if c then t else u) := by
    split
    · exact ht hu
    · exact hu
  have hstation : RkbaEven (serviceStation s) := by
    refine h.unseen ?_
    unfold serviceStation serviceClock clkTick consoleTxPoll
    dsimp only
    split_ifs <;> rfl
  unfold serviceDueEvents
  extract_lets t1 t2 t3 t4 t5
  have h2 : RkbaEven t2 := hstation
  have h3 : RkbaEven t3 := hite h2 RkbaEven.rkPoll
  have h4 : RkbaEven t4 := hite h3 fun h => h.unseen (rpPoll_unseen rkUnit_rp (.refl _))
  have h5 : RkbaEven t5 :=
    hite h4 fun h => h.unseen (tmPoll_unseen rkUnit_tm (.refl _) fun _ _ _ => trivial)
  exact hite h5 fun h => h.unseen (rlPoll_unseen rkUnit_rl (.refl _))

theorem RkbaEven.regRead {a : Word} (h : RkbaEven s) (ht : RegRead s a t) : RkbaEven t := by
  cases ht with
  | none => exact h
  | console =>
    refine h.unseen ?_
    unfold consoleRead
    split_ifs <;> rfl
  | rl => exact h.unseen (rlRead_unseen rkUnit_rl (.refl s) a)
  | tm => exact h.unseen (tmRead_unseen rkUnit_tm (.refl s) a)
  | rx => exact h.unseen (rxRead_unseen rkUnit_rx (.refl s) a)

theorem RkbaEven.regWrite {a value : Word} (h : RkbaEven s) (ht : RegWrite s a value t) :
    RkbaEven t := by
  cases ht with
  | processor t hdev _ =>
    refine h.unseen ?_
    show t.dev.rk = s.dev.rk
    rw [hdev]
  | clk _ =>
    refine h.unseen ?_
    unfold clkWrite
    dsimp only
    split_ifs <;> rfl
  | console =>
    refine h.unseen ?_
    unfold consoleWrite dl11CsrInt
    split_ifs <;> rfl
  | rk => exact rkWrite_even h
  | rl => exact h.unseen (rlWrite_unseen rkUnit_rl (.refl s) a value fun _ _ _ => trivial)
  | rp => exact h.unseen (rpWrite_unseen rkUnit_rp (.refl s) a value fun _ _ _ => trivial)
  | tm => exact h.unseen (tmWrite_unseen rkUnit_tm (.refl s) a value)
  | rx => exact h.unseen (rxWrite_unseen rkUnit_rx (.refl s) a value)

theorem rkbaEven_relation : DeviceRelation fun m m' => RkbaEven m.cpu → RkbaEven m'.cpu where
  trans _ _ _ h h' hm := h' (h hm)
  same _ _ hdev _ hm := hm.dev hdev
  read _ _ _ hp hm := hm.regRead (ioReadReg_regRead hp)
  write _ _ _ _ ht hm := hm.regWrite (ioWriteReg_regWrite ht)

theorem BusOp.rkbaEven (op : BusOp) (h : RkbaEven s) : RkbaEven (op.apply s) := by
  have hR := rkbaEven_relation
  cases op with
  | step =>
    refine hR.programs.cpuStep (fun m hm => hm) (fun p m hm => ?_) (fun m acct hm => ?_) s h
    · refine hm.unseen ?_
      cases p <;> rfl
    · have hacct : RkbaEven { m.cpu with acct := acct } := hm
      exact hacct.service
  | reset => exact Nat.zero_mod 2
  | init => exact h
  | read a =>
    show RkbaEven (((ioReadReg s a).map Prod.snd).getD s)
    cases hp : ioReadReg s a with
    | none => exact h
    | some p => exact hR.read ⟨s, []⟩ a p hp h
  | write a value =>
    show RkbaEven ((ioWriteReg s a value).getD s)
    cases ht : ioWriteReg s a value with
    | none => exact h
    | some t => exact hR.write ⟨s, []⟩ a value t ht h
  | tick =>
    refine h.unseen ?_
    show Unseen rkUnit s (clkTick s)
    unfold clkTick
    dsimp only
    split_ifs <;> rfl
  | input ch =>
    refine h.unseen ?_
    show Unseen rkUnit s (consoleInput s ch)
    unfold consoleInput
    dsimp only
    split_ifs <;> rfl
  | txPoll =>
    refine h.unseen ?_
    show Unseen rkUnit s (consoleTxPoll s)
    unfold consoleTxPoll
    dsimp only
    split_ifs <;> rfl
  | rkPoll => exact h.rkPoll
  | rpPoll => exact h.unseen (rpPoll_unseen rkUnit_rp (.refl s))
  | tmPoll => exact h.unseen (tmPoll_unseen rkUnit_tm (.refl s) fun _ _ _ => trivial)
  | rlPoll => exact h.unseen (rlPoll_unseen rkUnit_rl (.refl s))
  | _ => exact h

/-- In every state that is reached RKBA is even: `RkReady.even` asks nothing of a program. -/
theorem reached_rkbaEven {model : Model} (h : Reached model s) : RkbaEven s :=
  h.invariant rfl fun op _ hs => op.rkbaEven hs

end

end Pdp11
