import Pdp11.DmaStores
import Pdp11.Lib.BlockTransfer

namespace Pdp11

open Stores

/-! What a READ or a WRITE of a disk controller moves, and what its registers show afterwards. -/

/-! ## Controllers -/

/-- The controllers of disks that move blocks of words. -/
inductive DiskId
  | rk | rl | rp
  deriving DecidableEq

namespace DiskId

/-- Decode and start the command in the control register. -/
def go : DiskId → Cpu → Cpu
  | rk, s => rkGo s
  | rl, s => rlGo s
  | rp, s => rpGo s

def image : DiskId → Cpu → DiskImage
  | rk, s => s.dev.rk.disk
  | rl, s => s.dev.rl.disk
  | rp, s => s.dev.rp.disk

/-- The size of the image in words. -/
def imageWords : DiskId → Cpu → BitVec 32
  | rk, s => s.dev.rk.diskWords
  | rl, s => s.dev.rl.diskWords
  | rp, s => s.dev.rp.diskWords

/-- The word count register: RKWC, RLMP or RPWC. -/
def count : DiskId → Cpu → Word
  | rk, s => s.dev.rk.rkwc
  | rl, s => s.dev.rl.rlmp
  | rp, s => s.dev.rp.wc

/-- The address a transfer begins at, as the controller puts it together. -/
def busAddress : DiskId → Cpu → BitVec 32
  | rk, s => ((s.dev.rk.rkcs &&& rkcsMex).setWidth 32 <<< 12) ||| s.dev.rk.rkba.setWidth 32
  | rl, s => ((s.dev.rl.rlcs &&& rlcsMex).setWidth 32 <<< 12) ||| s.dev.rl.rlba.setWidth 32
  | rp, s => ((s.dev.rp.bae.setWidth 32 &&& 0o77) <<< 16) ||| s.dev.rp.ba.setWidth 32

/-- The linear disk word of the disk address. -/
def startWord : DiskId → Cpu → BitVec 32
  | rk, s => (rkGetTrack s.dev.rk.rkda * rkNumsc + rkGetSect s.dev.rk.rkda) * rkNumwd
  | rl, s => (rlGetTrack s.dev.rl.rlda * rlNumsc + rlGetSect s.dev.rl.rlda) * rlNumwd
  | rp, s => ((rpGetCy s.dev.rp.dc * rpSurf + rpGetSf s.dev.rp.da) * rpSect +
      rpGetSc s.dev.rp.da) * rpNumwd

/-- The words asked for, on the RL11 cut to the end of the track. -/
def asked : DiskId → Cpu → BitVec 32
  | rk, s => wordCount s.dev.rk.rkwc
  | rl, s =>
    let maxwc := (rlNumsc - rlGetSect s.dev.rl.rlda) * rlNumwd
    if maxwc < wordCount s.dev.rl.rlmp then maxwc else wordCount s.dev.rl.rlmp
  | rp, s => wordCount s.dev.rp.wc

/-- The signed count of the loop, after the controller has trimmed it to the image. -/
def trimmed (c : DiskId) (s : Cpu) : BitVec 32 :=
  let da := c.startWord s
  let wc := c.asked s
  match c with
  | rk => if s.dev.rk.diskWords < da + wc then s.dev.rk.diskWords - da else wc
  | rl =>
    if s.dev.rl.diskWords < da + wc then
      (if da < s.dev.rl.diskWords then s.dev.rl.diskWords - da else 0)
    else wc
  | rp =>
    if s.dev.rp.diskWords ≤ da then 0
    else if s.dev.rp.diskWords < da + wc then s.dev.rp.diskWords - da
    else wc

/-- The bit that holds the bus address, RKCS<INH> or RPCS2<UAI>. -/
def Inhibited : DiskId → Cpu → Prop
  | rk, s => s.dev.rk.rkcs &&& rkcsInh ≠ 0
  | rl, _ => False
  | rp, s => s.dev.rp.cs2 &&& cs2Uai ≠ 0

/-- The physical word the `i`-th word of a transfer is exchanged with. -/
def physical : DiskId → Cpu → ℕ → BitVec 21
  | rk, s, i => memIndex (unibusMap s (rk.busAddress s + BitVec.ofNat 32 (i * 2)))
  | rl, s, i => memIndex (unibusMap s (rl.busAddress s + BitVec.ofNat 32 (i * 2)))
  | rp, s, i => memIndex (rpAddress s.dev.rp (rp.busAddress s) i &&& 0o3777777)

/-- The disk word of the `i`-th word. -/
def block (c : DiskId) (s : Cpu) (i : ℕ) : BitVec 32 := c.startWord s + BitVec.ofNat 32 i

/-- The command in the control register is a READ or a WRITE. -/
def Asks : DiskId → TransferDirection → Cpu → Prop
  | rk, .toMemory, s => (s.dev.rk.rkcs &&& rkcsFunc) >>> 1 = rkFuncRead
  | rk, .toDisk, s => (s.dev.rk.rkcs &&& rkcsFunc) >>> 1 = rkFuncWrite
  | rl, .toMemory, s => (s.dev.rl.rlcs &&& rlcsFunc) >>> 1 = rlFuncRead ∨
      (s.dev.rl.rlcs &&& rlcsFunc) >>> 1 = rlFuncRnohdr
  | rl, .toDisk, s => (s.dev.rl.rlcs &&& rlcsFunc) >>> 1 = rlFuncWrite
  | rp, .toMemory, s => rpGetFnc s.dev.rp.cs1 = rpFncRead
  | rp, .toDisk, s => rpGetFnc s.dev.rp.cs1 = rpFncWrite

/-- The disk address passes the checks of the controller; only the RK11 has any. -/
def Checks : DiskId → Cpu → Prop
  | rk, s => s.dev.rk.rkda &&& rkdaDrive = 0 ∧ rkGetSect s.dev.rk.rkda < rkNumsc ∧
      rkGetCyl s.dev.rk.rkda < rkNumcy
  | rl, _ => True
  | rp, _ => True

instance : (c : DiskId) → (s : Cpu) → Decidable (c.Inhibited s)
  | rk, s => inferInstanceAs (Decidable (s.dev.rk.rkcs &&& rkcsInh ≠ 0))
  | rl, _ => inferInstanceAs (Decidable False)
  | rp, s => inferInstanceAs (Decidable (s.dev.rp.cs2 &&& cs2Uai ≠ 0))

instance : (c : DiskId) → (dir : TransferDirection) → (s : Cpu) → Decidable (c.Asks dir s)
  | rk, .toMemory, _ => inferInstanceAs (Decidable (_ = _))
  | rk, .toDisk, _ => inferInstanceAs (Decidable (_ = _))
  | rl, .toMemory, _ => inferInstanceAs (Decidable (_ = _ ∨ _ = _))
  | rl, .toDisk, _ => inferInstanceAs (Decidable (_ = _))
  | rp, .toMemory, _ => inferInstanceAs (Decidable (_ = _))
  | rp, .toDisk, _ => inferInstanceAs (Decidable (_ = _))

instance : (c : DiskId) → (s : Cpu) → Decidable (c.Checks s)
  | rk, _ => inferInstanceAs (Decidable (_ = _ ∧ _ < _ ∧ _ < _))
  | rl, _ => inferInstanceAs (Decidable True)
  | rp, _ => inferInstanceAs (Decidable True)

/-- A READ or a WRITE of an attached disk that passes the checks. -/
structure Transfers (c : DiskId) (dir : TransferDirection) (s : Cpu) : Prop where
  asks : c.Asks dir s
  attached : (c.image s).isSome
  checks : c.Checks s

/-- The memory and the disk. -/
def stores (c : DiskId) (s : Cpu) : Stores (BitVec 21) (BitVec 32) Word :=
  { mem := s.mem, disk := (c.image s).getD fun _ => 0 }

/-- The machine with other words in memory and on the disk. -/
def withStores : DiskId → Cpu → Stores (BitVec 21) (BitVec 32) Word → Cpu
  | rk, s, st => { s with mem := st.mem, dev.rk.disk := some st.disk }
  | rl, s, st => { s with mem := st.mem, dev.rl.disk := some st.disk }
  | rp, s, st => { s with mem := st.mem, dev.rp.disk := some st.disk }

end DiskId

open DiskId

section
variable {c : DiskId} {dir : TransferDirection} {s : Cpu}

theorem withStores_stores (h : (c.image s).isSome) : c.withStores s (c.stores s) = s := by
  have hdisk : some ((c.image s).getD fun _ => 0) = c.image s := by
    obtain ⟨d, hd⟩ := Option.isSome_iff_exists.1 h
    rw [hd]
    rfl
  cases c with
  | rk => exact congrArg (fun d => { s with dev.rk.disk := d }) hdisk
  | rl => exact congrArg (fun d => { s with dev.rl.disk := d }) hdisk
  | rp => exact congrArg (fun d => { s with dev.rp.disk := d }) hdisk

@[simp] theorem stores_withStores (st : Stores (BitVec 21) (BitVec 32) Word) :
    c.stores (c.withStores s st) = st := by
  cases c <;> rfl

theorem withStores_mem (c : DiskId) (s : Cpu) (st : Stores (BitVec 21) (BitVec 32) Word) :
    (c.withStores s st).mem = st.mem := by
  cases c <;> rfl

theorem withStores_route (c : DiskId) (s : Cpu) (st : Stores (BitVec 21) (BitVec 32) Word) :
    SameRoute s (c.withStores s st) := by
  cases c <;> exact ⟨rfl, rfl, rfl⟩

/-! ## The RK11 -/

def rkFunction : TransferDirection → Word
  | .toMemory => rkFuncRead
  | .toDisk => rkFuncWrite

theorem rkTransferWord_exchange (ma da : BitVec 32) (st : Stores (BitVec 21) (BitVec 32) Word)
    (i : ℕ) : rkTransferWord (rkFunction dir) ma da (rk.withStores s st) i =
      rk.withStores s (exchangeWord dir (memIndex (unibusMap s (ma + BitVec.ofNat 32 (i * 2))))
        (da + BitVec.ofNat 32 i) st) := by
  unfold rkTransferWord
  cases dir with
  | toMemory =>
    dsimp only
    rw [if_pos (show rkFunction .toMemory = rkFuncRead from rfl)]
    rfl
  | toDisk =>
    have hread : rkFunction .toDisk ≠ rkFuncRead := by decide
    dsimp only
    rw [if_neg hread, if_pos (show rkFunction .toDisk = rkFuncWrite from rfl)]
    rfl

/-- The RK11 with the error of an overrun. -/
def rkOverrun (s : Cpu) : Cpu :=
  if s.dev.rk.diskWords < rk.startWord s + rk.asked s then rkSetError s rkerOvr else s

/-- An error leaves its mark in RKER and at the top of RKCS. -/
theorem rkSetError_eq (err : Word) : ∃ cs er, cs &&& 0o037777 = 0 ∧ rkSetError s err =
    { s with
      dev.rk.rkcs := s.dev.rk.rkcs ||| cs
      dev.rk.rker := er } := by
  unfold rkSetError
  dsimp only
  split
  · refine ⟨rkcsErr ||| rkcsHerr, s.dev.rk.rker ||| err, by decide, ?_⟩
    rw [BitVec.or_assoc]
  · exact ⟨rkcsErr, s.dev.rk.rker ||| err, by decide, rfl⟩

theorem rkOverrun_eq (s : Cpu) : ∃ cs er, cs &&& 0o037777 = 0 ∧ rkOverrun s =
    { s with
      dev.rk.rkcs := s.dev.rk.rkcs ||| cs
      dev.rk.rker := er } := by
  unfold rkOverrun
  split
  · exact rkSetError_eq rkerOvr
  · have hcs : s.dev.rk.rkcs ||| 0 = s.dev.rk.rkcs := BitVec.or_zero
    refine ⟨0, s.dev.rk.rker, by decide, ?_⟩
    rw [hcs]

/-- The command is being done. -/
def rkStarted (s : Cpu) : Cpu :=
  clrInt { s with dev.rk.rkcs := s.dev.rk.rkcs &&& ~~~rkcsScp &&& ~~~rkcsDone } .rk

theorem rkTransfer_exchange (h : s.dev.rk.disk.isSome) : rkTransfer s (rkFunction dir) =
    rkAdvance (rk.busAddress s) (rk.startWord s) (rk.trimmed s) (rk.withStores (rkOverrun s)
      (exchange dir (rk.physical s) (rk.block s) (loopCount (rk.trimmed s)) (rk.stores s))) := by
  obtain ⟨cs, er, -, hover⟩ := rkOverrun_eq s
  have hroute : SameRoute s (rkOverrun s) := by
    rw [hover]
    exact ⟨rfl, rfl, rfl⟩
  have hself : rk.withStores (rkOverrun s) (rk.stores s) = rkOverrun s := by
    rw [hover]
    exact withStores_stores (c := .rk) (s := { s with
      dev.rk.rkcs := s.dev.rk.rkcs ||| cs
      dev.rk.rker := er }) h
  have hfold := foldl_exchange dir (rk.physical s) (rk.block s) (loopCount (rk.trimmed s))
    (rk.stores s) (fun _ => rk.withStores (rkOverrun s))
    (rkTransferWord (rkFunction dir) (rk.busAddress s) (rk.startWord s)) fun st i => by
      rw [rkTransferWord_exchange, hroute.unibusMap]
      rfl
  rw [← hfold, hself]
  rfl

/-- The completion is held for the words asked for. -/
def rkHeld (s t : Cpu) : Cpu :=
  { t with
    dev.rk.busy := true
    dev.rk.doneNs := t.acct.timeNs + rkBaseNs +
      ((if 0 < (rk.asked s).toInt then rk.asked s else 0) * rkWordNs).setWidth 64 }

theorem rkGo_transfer (h : rk.Transfers dir s) :
    rkGo s = rkHeld s (rkTransfer (rkStarted s) (rkFunction dir)) := by
  have hfunc : (s.dev.rk.rkcs &&& rkcsFunc) >>> 1 = rkFunction dir := by
    cases dir <;> exact h.asks
  obtain ⟨hdrive, hsect, hcyl⟩ := h.checks
  have hattached : ¬((rkStarted s).dev.rk.disk.isNone ∨ (rkStarted s).dev.rk.rkda &&& rkdaDrive ≠ 0) := by
    have hsome : s.dev.rk.disk.isNone = false := Option.isNone_eq_false_iff.2 h.attached
    rintro (hnone | hda)
    · exact absurd (hnone.symm.trans hsome) (by decide)
    · exact hda hdrive
  have hreset : rkFunction dir ≠ rkFuncCreset := by cases dir <;> decide
  have hlock : rkFunction dir ≠ rkFuncWlk := by cases dir <;> decide
  have hseek : rkFunction dir ≠ rkFuncDreset := by cases dir <;> decide
  have hmoves : rkFunction dir = rkFuncRead ∨ rkFunction dir = rkFuncWrite ∨
      rkFunction dir = rkFuncWchk := by cases dir <;> decide
  have hsect' : ¬rkNumsc ≤ rkGetSect s.dev.rk.rkda := BitVec.not_le.2 hsect
  have hcyl' : ¬rkNumcy ≤ rkGetCyl s.dev.rk.rkda := BitVec.not_le.2 hcyl
  unfold rkGo
  rw [hfunc]
  extract_lets func0 _ _ _ s1 sect cyl func wc t
  have hattached' : ¬(s1.dev.rk.disk.isNone ∨ s1.dev.rk.rkda &&& rkdaDrive ≠ 0) := hattached
  have hlock' : ¬func0 = rkFuncWlk := hlock
  have hfunc' : func = rkFunction dir := if_neg hseek
  have ht : t = rkTransfer (rkStarted s) (rkFunction dir) := by
    rw [← hfunc']
    exact if_pos (hfunc' ▸ hmoves)
  have hsect0 : sect = rkGetSect s.dev.rk.rkda := if_neg hseek
  have hcyl0 : cyl = rkGetCyl s.dev.rk.rkda := if_neg hseek
  rw [if_neg hreset, if_neg hattached', if_neg hlock', hsect0, if_neg hsect', hcyl0, if_neg hcyl', ← ht]
  clear_value t
  rfl

theorem rkStarted_busAddress (s : Cpu) : rk.busAddress (rkStarted s) = rk.busAddress s := by
  have hmex : (rkStarted s).dev.rk.rkcs &&& rkcsMex = s.dev.rk.rkcs &&& rkcsMex :=
    (BitMask.and_not_and_eq _ (by decide)).trans (BitMask.and_not_and_eq _ (by decide))
  unfold busAddress
  dsimp only
  rw [hmex]
  rfl

/-- The words a transfer leaves in memory and on the disk. -/
def DiskId.exchanged (c : DiskId) (dir : TransferDirection) (s : Cpu) :
    Stores (BitVec 21) (BitVec 32) Word :=
  exchange dir (c.physical s) (c.block s) (loopCount (c.trimmed s)) (c.stores s)

/-- The bus address an RK11 transfer ends at. -/
def rkEndAddress (s : Cpu) : BitVec 32 :=
  if s.dev.rk.rkcs &&& rkcsInh = 0 then rk.busAddress s + rk.trimmed s * 2 else rk.busAddress s

/-- The sectors an RK11 transfer ends at, counted from the start of the disk. -/
def rkEndSector (s : Cpu) : BitVec 32 :=
  (rk.startWord s + rk.trimmed s + (rkNumwd - 1)) / rkNumwd

theorem rkHeld_mem (ma da wc : BitVec 32) (s t : Cpu) :
    (rkHeld s (rkAdvance ma da wc t)).mem = t.mem := rfl

theorem rkHeld_route (ma da wc : BitVec 32) (s t : Cpu) :
    SameRoute t (rkHeld s (rkAdvance ma da wc t)) := ⟨rfl, rfl, rfl⟩

/-- All that a READ or a WRITE does to the registers of the RK11, to memory and to the disk. -/
theorem rkGo_after (h : rk.Transfers dir s) : ∃ cs er, cs &&& 0o037777 = 0 ∧
    (rkGo s).mem = (rk.exchanged dir s).mem ∧ SameRoute s (rkGo s) ∧
    (rkGo s).dev.rk =
      { rkcs := ((s.dev.rk.rkcs &&& ~~~rkcsScp &&& ~~~rkcsDone) ||| cs) &&& ~~~rkcsMex |||
          ((rkEndAddress s >>> 12).setWidth 16 &&& rkcsMex)
        rker := er
        rkwc := s.dev.rk.rkwc + (rk.trimmed s).setWidth 16
        rkba := (rkEndAddress s).setWidth 16 &&& rkbaImp
        rkda := (s.dev.rk.rkda &&& rkdaDrive) ||| ((rkEndSector s / rkNumsc) <<< 4).setWidth 16 |||
          (rkEndSector s % rkNumsc).setWidth 16
        rkds := s.dev.rk.rkds
        disk := some (rk.exchanged dir s).disk
        diskWords := s.dev.rk.diskWords
        busy := true
        doneNs := s.acct.timeNs + rkBaseNs +
          ((if 0 < (rk.asked s).toInt then rk.asked s else 0) * rkWordNs).setWidth 64 } := by
  obtain ⟨cs, er, hcs, hover⟩ := rkOverrun_eq (rkStarted s)
  -- an error leaves INH, which decides whether the address moves
  have hinh : ((s.dev.rk.rkcs &&& ~~~rkcsScp &&& ~~~rkcsDone) ||| cs) &&& rkcsInh =
      s.dev.rk.rkcs &&& rkcsInh := by
    rw [BitMask.or_and_eq _ (BitMask.and_eq_zero_of_part hcs (by decide)),
      BitMask.and_not_and_eq _ (by decide), BitMask.and_not_and_eq _ (by decide)]
  have hphysical : rk.physical (rkStarted s) = rk.physical s := by
    funext i
    unfold physical
    dsimp only
    rw [rkStarted_busAddress]
    rfl
  have hst : exchange dir (rk.physical (rkStarted s)) (rk.block (rkStarted s))
      (loopCount (rk.trimmed (rkStarted s))) (rk.stores (rkStarted s)) = rk.exchanged dir s := by
    rw [hphysical]
    rfl
  have hma : (if ((s.dev.rk.rkcs &&& ~~~rkcsScp &&& ~~~rkcsDone) ||| cs) &&& rkcsInh = 0 then
      rk.busAddress s + rk.trimmed s * 2 else rk.busAddress s) = rkEndAddress s := by
    rw [hinh]
    rfl
  rw [rkGo_transfer h, rkTransfer_exchange (s := rkStarted s) h.attached, hst, hover,
    rkStarted_busAddress]
  generalize rk.exchanged dir s = st
  have hmem := withStores_mem rk { rkStarted s with
    dev.rk.rkcs := (rkStarted s).dev.rk.rkcs ||| cs
    dev.rk.rker := er } st
  have hroute := (show SameRoute s { rkStarted s with
    dev.rk.rkcs := (rkStarted s).dev.rk.rkcs ||| cs
    dev.rk.rker := er } from ⟨rfl, rfl, rfl⟩).trans (withStores_route rk _ st)
  refine ⟨cs, er, hcs, (rkHeld_mem _ _ _ _ _).trans hmem,
    hroute.trans (rkHeld_route _ _ _ _ _), ?_⟩
  rw [← hma]
  rfl

/-! ## The RL11 -/

/-- The functions of the RL11 that transfer in one direction. -/
def RlFunction : TransferDirection → Word → Prop
  | .toMemory, func => func = rlFuncRead ∨ func = rlFuncRnohdr
  | .toDisk, func => func = rlFuncWrite

theorem rlTransferWord_exchange {func : Word} (hfunc : RlFunction dir func) (ma da : BitVec 32)
    (st : Stores (BitVec 21) (BitVec 32) Word) (status : Word) (i : ℕ) :
    rlTransferWord func ma da (rl.withStores s st, status) i =
      (rl.withStores s (exchangeWord dir (memIndex (unibusMap s (ma + BitVec.ofNat 32 (i * 2))))
        (da + BitVec.ofNat 32 i) st), status) := by
  unfold rlTransferWord
  cases dir with
  | toMemory =>
    have hread : func = rlFuncRead ∨ func = rlFuncRnohdr := hfunc
    dsimp only
    rw [if_pos hread]
    rfl
  | toDisk =>
    have hwrite : func = rlFuncWrite := hfunc
    have hread : ¬(func = rlFuncRead ∨ func = rlFuncRnohdr) := by
      rw [hwrite]
      decide
    dsimp only
    rw [if_neg hread, if_pos hwrite]
    rfl

/-- The error status a transfer of the RL11 begins with. -/
def rlStatusStart (s : Cpu) : Word :=
  if s.dev.rl.diskWords < rl.startWord s + rl.asked s then rlcsErr ||| rlcsIncmp else 0

/-- The command is being done. -/
def rlStarted (s : Cpu) : Cpu :=
  clrInt { s with dev.rl.rlcs := s.dev.rl.rlcs &&& ~~~rlcsDone } .rl

theorem rlTransfer_exchange {func : Word} (hfunc : RlFunction dir func)
    (h : s.dev.rl.disk.isSome) : rlTransfer s func =
      rlAdvance s.dev.rl (rl.busAddress s) (rl.trimmed s)
        (rl.withStores s (rl.exchanged dir s), rlStatusStart s) := by
  have hfold := foldl_exchange dir (rl.physical s) (rl.block s) (loopCount (rl.trimmed s))
    (rl.stores s)
    (fun _ st => (rl.withStores s st, rlStatusStart s))
    (rlTransferWord func (rl.busAddress s) (rl.startWord s)) fun st i =>
      rlTransferWord_exchange hfunc _ _ st _ i
  rw [withStores_stores (c := .rl) h] at hfold
  rw [exchanged, ← hfold]
  rfl

/-- A function of the RL11 that goes through the disk. -/
def RlMoves (func : Word) : Prop :=
  func = rlFuncRead ∨ func = rlFuncRnohdr ∨ func = rlFuncWrite ∨ func = rlFuncWchk

instance (func : Word) : Decidable (RlMoves func) := inferInstanceAs (Decidable (_ ∨ _ ∨ _ ∨ _))

theorem rlGo_moves (hattached : s.dev.rl.disk.isSome)
    (hfunc : RlMoves ((s.dev.rl.rlcs &&& rlcsFunc) >>> 1)) :
    rlGo s = rlStart (rlTransfer (rlStarted s) ((s.dev.rl.rlcs &&& rlcsFunc) >>> 1)) := by
  have hattached' : ¬(rlStarted s).dev.rl.disk.isNone = true := by
    have hsome : s.dev.rl.disk.isNone = false := Option.isNone_eq_false_iff.2 hattached
    exact fun hnone => absurd (hnone.symm.trans hsome) (by decide)
  unfold rlGo
  generalize (s.dev.rl.rlcs &&& rlcsFunc) >>> 1 = func at hfunc ⊢
  have hother : func ≠ rlFuncNop ∧ func ≠ rlFuncGsta ∧ func ≠ rlFuncSeek ∧ func ≠ rlFuncRhdr := by
    rcases hfunc with rfl | rfl | rfl | rfl <;> decide
  obtain ⟨hnop, hgsta, hseek, hrhdr⟩ := hother
  dsimp only
  rw [if_neg hnop, if_neg hgsta, if_neg hseek, if_neg hrhdr]
  exact if_neg hattached'

theorem RlFunction.moves {func : Word} (h : RlFunction dir func) : RlMoves func := by
  cases dir with
  | toMemory => exact h.imp_right .inl
  | toDisk => exact .inr (.inr (.inl h))

theorem rlStarted_busAddress (s : Cpu) : rl.busAddress (rlStarted s) = rl.busAddress s := by
  have hmex : (rlStarted s).dev.rl.rlcs &&& rlcsMex = s.dev.rl.rlcs &&& rlcsMex :=
    BitMask.and_not_and_eq _ (by decide)
  unfold busAddress
  dsimp only
  rw [hmex]
  rfl

/-- The error status a transfer of the RL11 ends with. -/
def rlStatusEnd (s : Cpu) : Word :=
  if s.dev.rl.rlmp + (rl.trimmed s).setWidth 16 ≠ 0 then rlStatusStart s ||| rlcsErr ||| rlcsIncmp
  else rlStatusStart s

theorem rlStatusEnd_mex (s : Cpu) : rlStatusEnd s &&& ~~~rlcsDone &&& rlcsMex = 0 := by
  unfold rlStatusEnd rlStatusStart
  split_ifs <;> decide

theorem rlStart_advance_mem (r : Rl11) (ma wc : BitVec 32) (t : Cpu) (status : Word) :
    (rlStart (rlAdvance r ma wc (t, status))).mem = t.mem := rfl

theorem rlStart_advance_route (r : Rl11) (ma wc : BitVec 32) (t : Cpu) (status : Word) :
    SameRoute t (rlStart (rlAdvance r ma wc (t, status))) := ⟨rfl, rfl, rfl⟩

/-- All that a READ or a WRITE does to the registers of the RL11, to memory and to the disk. -/
theorem rlGo_after (h : rl.Transfers dir s) :
    (rlGo s).mem = (rl.exchanged dir s).mem ∧ SameRoute s (rlGo s) ∧
    (rlGo s).dev.rl =
      { rlcs := ((s.dev.rl.rlcs &&& ~~~rlcsDone &&& ~~~rlcsMex) |||
          ((((rl.busAddress s + rl.trimmed s * 2) >>> 16) &&& 3) <<< 4).setWidth 16) |||
          (rlStatusEnd s &&& ~~~rlcsDone)
        rlba := (rl.busAddress s + rl.trimmed s * 2).setWidth 16
        rlda := s.dev.rl.rlda + ((rl.trimmed s + (rlNumwd - 1)).sdiv rlNumwd).setWidth 16
        rlmp := s.dev.rl.rlmp + (rl.trimmed s).setWidth 16
        rlbae := s.dev.rl.rlbae
        trk := s.dev.rl.rlda + ((rl.trimmed s + (rlNumwd - 1)).sdiv rlNumwd).setWidth 16
        disk := some (rl.exchanged dir s).disk
        diskWords := s.dev.rl.diskWords
        busy := true
        doneNs := s.acct.timeNs + rlBaseNs +
          ((if 0 < (wordCount (s.dev.rl.rlmp + (rl.trimmed s).setWidth 16)).toInt then
            wordCount (s.dev.rl.rlmp + (rl.trimmed s).setWidth 16) else 0) *
              rlWordNs).setWidth 64 } := by
  have hfunc : RlFunction dir ((s.dev.rl.rlcs &&& rlcsFunc) >>> 1) := by
    cases dir <;> exact h.asks
  have hphysical : rl.physical (rlStarted s) = rl.physical s := by
    funext i
    unfold physical
    dsimp only
    rw [rlStarted_busAddress]
    rfl
  have hst : rl.exchanged dir (rlStarted s) = rl.exchanged dir s := by
    unfold exchanged
    rw [hphysical]
    rfl
  have htrimmed : rl.trimmed (rlStarted s) = rl.trimmed s := rfl
  have hstatus : rlStatusStart (rlStarted s) = rlStatusStart s := rfl
  rw [rlGo_moves h.attached hfunc.moves, rlTransfer_exchange (s := rlStarted s) hfunc h.attached, hst,
    rlStarted_busAddress, htrimmed, hstatus]
  unfold rlStatusEnd
  generalize rl.exchanged dir s = st, rl.trimmed s = wc, rlStatusStart s = status,
    rl.busAddress s = ma
  have hroute := (show SameRoute s (rlStarted s) from ⟨rfl, rfl, rfl⟩).trans
    (withStores_route rl (rlStarted s) st)
  exact ⟨(rlStart_advance_mem _ _ _ _ _).trans (withStores_mem rl _ st),
    hroute.trans (rlStart_advance_route _ _ _ _ _), rfl⟩

/-! ## The RP04 -/

def rpFunction : TransferDirection → Word
  | .toMemory => rpFncRead
  | .toDisk => rpFncWrite

theorem rpTransferWord_exchange (ma da : BitVec 32) (st : Stores (BitVec 21) (BitVec 32) Word)
    (i : ℕ) : rpTransferWord (rpFunction dir) da (rp.withStores s st, rpAddress s.dev.rp ma i) i =
      (rp.withStores s (exchangeWord dir (memIndex (rpAddress s.dev.rp ma i &&& 0o3777777))
        (da + BitVec.ofNat 32 i) st), rpAddress s.dev.rp ma (i + 1)) := by
  rw [rpAddress_succ]
  unfold rpTransferWord
  cases dir with
  | toMemory =>
    dsimp only
    rw [if_pos (show rpFunction .toMemory = rpFncRead from rfl)]
    rfl
  | toDisk =>
    have hread : rpFunction .toDisk ≠ rpFncRead := by decide
    dsimp only
    rw [if_neg hread, if_pos (show rpFunction .toDisk = rpFncWrite from rfl)]
    rfl

/-- The command is being done. -/
def rpStarted (s : Cpu) : Cpu :=
  clrInt { s with dev.rp.cs1 := s.dev.rp.cs1 &&& ~~~cs1Done } .rp

/-- The bus address an RP04 transfer ends at. -/
def rpEndAddress (s : Cpu) : BitVec 32 :=
  rpAddress s.dev.rp (rp.busAddress s) (loopCount (rp.trimmed s))

/-- The sectors an RP04 transfer ends at, counted from the start of the disk. -/
def rpEndSector (s : Cpu) : BitVec 32 :=
  rp.startWord s / rpNumwd + (rp.trimmed s + rpNumwd - 1) / rpNumwd

/-- The RP04 after a transfer that leaves these words in memory and on the disk. -/
def rpMoved (s : Cpu) (st : Stores (BitVec 21) (BitVec 32) Word) : Cpu :=
  { rp.withStores s st with
    dev.rp.wc := s.dev.rp.wc + (rp.trimmed s).setWidth 16
    dev.rp.ba := (rpEndAddress s).setWidth 16
    dev.rp.bae := (rpEndAddress s >>> 16).setWidth 16 &&& 0o77
    dev.rp.da := (((rpEndSector s / rpSect % rpSurf) <<< 8) ||| (rpEndSector s % rpSect)).setWidth 16
    dev.rp.dc := (rpEndSector s / rpSect / rpSurf).setWidth 16
    dev.rp.cc := (rpEndSector s / rpSect / rpSurf).setWidth 16 }

theorem rpTransfer_exchange (h : s.dev.rp.disk.isSome) :
    rpTransfer s (rpFunction dir) = rpMoved s (rp.exchanged dir s) := by
  have hfold := foldl_exchange dir (rp.physical s) (rp.block s) (loopCount (rp.trimmed s))
    (rp.stores s)
    (fun i st => (rp.withStores s st, rpAddress s.dev.rp (rp.busAddress s) i))
    (rpTransferWord (rpFunction dir) (rp.startWord s)) fun st i => rpTransferWord_exchange _ _ st i
  have hzero : rpAddress s.dev.rp (rp.busAddress s) 0 = rp.busAddress s := by
    unfold rpAddress
    split
    · exact BitVec.add_zero _
    · rfl
  rw [withStores_stores (c := .rp) h, hzero] at hfold
  unfold rpTransfer
  extract_lets r ma da wc wc' blk sc sf cy
  have hloop : (List.range (loopCount wc')).foldl (rpTransferWord (rpFunction dir) da) (s, ma) =
      (rp.withStores s (rp.exchanged dir s), rpEndAddress s) := hfold
  rw [hloop]
  rfl

/-- The completion is held for the words asked for. -/
def rpHeld (s t : Cpu) : Cpu :=
  { t with
    dev.rp.busy := true
    dev.rp.doneNs := t.acct.timeNs + rpBaseNs +
      ((if 0 < (rp.asked s).toInt then rp.asked s else 0) * rpWordNs).setWidth 64 }

theorem rpGo_transfer (h : rp.Transfers dir s) :
    rpGo s = rpHeld s (rpMoved (rpStarted s) (rp.exchanged dir s)) := by
  have hfunc : rpGetFnc s.dev.rp.cs1 = rpFunction dir := by
    cases dir <;> exact h.asks
  have htransfer : rpTransfer (rpStarted s) (rpFunction dir) =
      rpMoved (rpStarted s) (rp.exchanged dir s) :=
    rpTransfer_exchange (s := rpStarted s) h.attached
  have hother : rpFunction dir ≠ rpFncDclr ∧
      ¬(rpFunction dir = rpFncPreset ∨ rpFunction dir = rpFncPack) ∧
      rpFunction dir ≠ rpFncSearch := by cases dir <;> decide
  have hmoves : rpFunction dir = rpFncRead ∨ rpFunction dir = rpFncWrite ∨
      rpFunction dir = rpFncWchk := by cases dir <;> decide
  have hnocheck : rpFunction dir ≠ rpFncWchk := by cases dir <;> decide
  obtain ⟨hdclr, hpack, hsearch⟩ := hother
  unfold rpGo
  rw [hfunc]
  extract_lets func _ _ _ s1 _ _ wc t
  have ht : t = rpMoved (rpStarted s) (rp.exchanged dir s) := by
    rw [← htransfer]
    exact if_pos hnocheck
  have hdclr' : ¬func = rpFncDclr := hdclr
  have hpack' : ¬(func = rpFncPreset ∨ func = rpFncPack) := hpack
  have hsearch' : ¬func = rpFncSearch := hsearch
  have hmoves' : func = rpFncRead ∨ func = rpFncWrite ∨ func = rpFncWchk := hmoves
  rw [if_neg hdclr', if_neg hpack', if_neg hsearch', if_pos hmoves', ← ht]
  clear_value t
  rfl

/-- All that a READ or a WRITE does to the registers of the RP04, to memory and to the disk. -/
theorem rpGo_after (h : rp.Transfers dir s) :
    (rpGo s).mem = (rp.exchanged dir s).mem ∧ SameRoute s (rpGo s) ∧
    (rpGo s).dev.rp =
      { s.dev.rp with
        cs1 := s.dev.rp.cs1 &&& ~~~cs1Done
        wc := s.dev.rp.wc + (rp.trimmed s).setWidth 16
        ba := (rpEndAddress s).setWidth 16
        bae := (rpEndAddress s >>> 16).setWidth 16 &&& 0o77
        da := (((rpEndSector s / rpSect % rpSurf) <<< 8) ||| (rpEndSector s % rpSect)).setWidth 16
        dc := (rpEndSector s / rpSect / rpSurf).setWidth 16
        cc := (rpEndSector s / rpSect / rpSurf).setWidth 16
        disk := some (rp.exchanged dir s).disk
        busy := true
        doneNs := s.acct.timeNs + rpBaseNs +
          ((if 0 < (rp.asked s).toInt then rp.asked s else 0) * rpWordNs).setWidth 64 } := by
  have hsector : rpEndSector (rpStarted s) = rpEndSector s := rfl
  have haddress : rpEndAddress (rpStarted s) = rpEndAddress s := rfl
  have htrimmed : rp.trimmed (rpStarted s) = rp.trimmed s := rfl
  rw [rpGo_transfer h]
  unfold rpMoved
  rw [hsector, haddress, htrimmed]
  generalize rp.exchanged dir s = st
  exact ⟨rfl, ⟨rfl, rfl, rfl⟩, rfl⟩

end

end Pdp11
