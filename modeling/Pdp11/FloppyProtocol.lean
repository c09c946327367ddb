import Pdp11.Step
import Pdp11.Lib.BitMask
import Pdp11.Lib.Checked
import Pdp11.Lib.CellStore
import Pdp11.Lib.GuardedRun

namespace Pdp11

open Checked GuardedRun

/-! The handshake of the RX11 with its program, and every access of its buffers checked. -/

/-! ## Checked accesses -/

/-- The bytes of an RX01 image. -/
abbrev rxSize : BitVec 32 := 77 * 26 * 128

/-- A byte of the sector buffer. -/
def rxBufByte (rx : Rx11) (i : Byte) : Option Byte :=
  if i < rxNumby then some (rx.buf (i.setWidth 7)) else none

/-- A store into the sector buffer. -/
def rxBufStore (rx : Rx11) (i b : Byte) : Option Rx11 :=
  if i < rxNumby then some { rx with buf := Function.update rx.buf (i.setWidth 7) b } else none

/-- A byte of the image. -/
def rxDiskByte (rx : Rx11) (i : BitVec 32) : Option Byte :=
  if i < rxSize then some (rx.disk.read i) else none

/-- A store into the image. -/
def rxDiskStore (rx : Rx11) (i : BitVec 32) (b : Byte) : Option Rx11 :=
  if i < rxSize then some { rx with disk := rx.disk.write i b } else none

/-- The loop of a sector read, checked. -/
def rxLoadChecked (rx : Rx11) (da : BitVec 32) : Option Rx11 :=
  (List.range 128).foldlM (fun rx i => do
    let b ← rxDiskByte rx (da + BitVec.ofNat 32 i)
    rxBufStore rx (BitVec.ofNat 8 i) b) rx

/-- The loop of a sector write, checked. -/
def rxSaveChecked (rx : Rx11) (da : BitVec 32) : Option Rx11 :=
  (List.range 128).foldlM (fun rx i => do
    let b ← rxBufByte rx (BitVec.ofNat 8 i)
    rxDiskStore rx (da + BitVec.ofNat 32 i) b) rx

/-- `rxTransfer`, checked. -/
def rxTransferChecked (s : Cpu) : Option Cpu :=
  let rx := s.dev.rx
  if rx.disk.isNone then pure (rxDone s 0 (some 0o110))
  else if rxNumtr ≤ rx.track then pure (rxDone s 0 (some 0o040))
  else
    let s := { s with dev.rx.curTrack := rx.track }
    if rx.sector = 0 ∨ rxNumsc < rx.sector then pure (rxDone s 0 (some 0o070))
    else
      let da := rxSectorAddr rx.track rx.sector
      let s := if rxFunc rx = rxFuncWrdel then { s with dev.rx.rxes := rx.rxes ||| rxesDd } else s
      if rxFunc rx = rxFuncRead then do
        let rx ← rxLoadChecked s.dev.rx da
        pure (rxDone { s with dev.rx := rx } 0 (some 0))
      else do
        let rx ← rxSaveChecked s.dev.rx da
        pure (rxDone { s with dev.rx := rx } 0 (some 0))

/-- `rxStep`, checked. -/
def rxStepChecked (s : Cpu) : Option Cpu :=
  let rx := s.dev.rx
  match rx.state with
  | .empty =>
    if rxNumby ≤ rx.bptr then pure (rxDone s 0 (some 0))
    else do
      let b ← rxBufByte rx rx.bptr
      pure { s with
        dev.rx.rxdb := b
        dev.rx.bptr := rx.bptr + 1
        dev.rx.rxcs := rx.rxcs ||| rxcsTr }
  | .fill => do
    let rx' ← rxBufStore rx rx.bptr rx.rxdb
    let s := { s with dev.rx := { rx' with bptr := rx.bptr + 1 } }
    if rx.bptr + 1 < rxNumby then pure { s with dev.rx.rxcs := rx.rxcs ||| rxcsTr }
    else pure (rxDone s 0 (some 0))
  | .rwdt =>
    rxTransferChecked { s with
      dev.rx.track := rx.rxdb
      dev.rx.state := .rwxfr }
  | .rwxfr => rxTransferChecked s
  | .rwds | .cmddone | .idle => pure (rxStep s)

/-- `rxRead`, checked. -/
def rxReadChecked (s : Cpu) (addr : Word) : Option (Word × Cpu) :=
  if addr = 0o177170 then pure (rxRead s addr)
  else if s.dev.rx.state = .empty ∧ s.dev.rx.rxcs &&& rxcsTr ≠ 0 then do
    let t ← rxStepChecked { s with dev.rx.rxcs := s.dev.rx.rxcs &&& ~~~rxcsTr }
    pure (s.dev.rx.rxdb.setWidth 16, t)
  else pure (rxRead s addr)

/-- `rxGo`, checked: the launch of EMPTY loads the first byte. -/
def rxGoChecked (s : Cpu) (value : Word) : Option Cpu :=
  let s' := { s with
    dev.rx.rxcs := value &&& (rxcsIe ||| rxcsDrv ||| rxcsFunc)
    dev.rx.bptr := 0 }
  if rxFunc s'.dev.rx = rxFuncEmpty then rxStepChecked { s' with dev.rx.state := .empty }
  else pure (rxGo s value)

/-- `rxWrite`, checked. -/
def rxWriteChecked (s : Cpu) (addr value : Word) : Option Cpu :=
  if addr = 0o177170 then
    if value &&& rxcsInit = 0 ∧ value &&& rxcsGo ≠ 0 ∧ s.dev.rx.state = .idle then
      rxGoChecked s value
    else pure (rxWrite s addr value)
  else if (s.dev.rx.state ≠ .idle ∧ s.dev.rx.rxcs &&& rxcsTr ≠ 0) ∧ s.dev.rx.state ≠ .empty then
    rxStepChecked { s with
      dev.rx.rxdb := value.setWidth 8
      dev.rx.rxcs := s.dev.rx.rxcs &&& ~~~rxcsTr }
  else pure (rxWrite s addr value)

/-! ## Sector transfers -/

theorem rxBufByte_checks (rx : Rx11) (i : Byte) :
    Checks (rxBufByte rx i) (i < rxNumby) (rx.buf (i.setWidth 7)) :=
  .of (fun h => if_pos h) fun h => if_neg h

theorem rxBufStore_checks (rx : Rx11) (i b : Byte) : Checks (rxBufStore rx i b) (i < rxNumby)
    { rx with buf := Function.update rx.buf (i.setWidth 7) b } :=
  .of (fun h => if_pos h) fun h => if_neg h

theorem rxDiskByte_checks (rx : Rx11) (i : BitVec 32) :
    Checks (rxDiskByte rx i) (i < rxSize) (rx.disk.read i) :=
  .of (fun h => if_pos h) fun h => if_neg h

theorem rxDiskStore_checks (rx : Rx11) (i : BitVec 32) (b : Byte) :
    Checks (rxDiskStore rx i b) (i < rxSize) { rx with disk := rx.disk.write i b } :=
  .of (fun h => if_pos h) fun h => if_neg h

/-- The sector buffer as a store of bytes. -/
abbrev sectorStore : CellStore (BitVec 7 → Byte) (BitVec 7) Byte := .ofFun (BitVec 7) Byte

theorem bufferIndex (i : ℕ) : (BitVec.ofNat 8 i).setWidth 7 = BitVec.ofNat 7 i := by
  apply BitVec.eq_of_toNat_eq
  rw [BitVec.toNat_setWidth, BitVec.toNat_ofNat, BitVec.toNat_ofNat]
  omega

/-- A loop over the whole sector buffer fills it. -/
theorem foldl_buffer {n : ℕ} (hn : n = 2 ^ 7) (val : ℕ → Byte) (buf : BitVec 7 → Byte) :
    (List.range n).foldl (fun buf i => Function.update buf (BitVec.ofNat 7 i) (val i)) buf =
      fun i => val i.toNat := by
  have hinj (i j : ℕ) (hi : i < n) (hj : j < n) (h : BitVec.ofNat 7 i = BitVec.ofNat 7 j) :
      i = j := by
    have hval := congrArg BitVec.toNat h
    rw [BitVec.toNat_ofNat, BitVec.toNat_ofNat] at hval
    omega
  have hlaid := CellStore.Laid.foldl (c := sectorStore) n val hinj buf
  funext i
  have hi : i.toNat < n := by
    rw [hn]
    exact i.isLt
  have hcell := hlaid.laid i.toNat (by simpa using hi)
  rw [List.getElem?_map, List.getElem?_range hi, BitVec.ofNat_toNat, BitVec.setWidth_eq] at hcell
  exact (Option.some.inj hcell).symm

/-- Offsets of a sector that ends within the image. -/
theorem sector_inside {da : BitVec 32} (hda : da.toNat + 128 ≤ rxSize.toNat) {i : ℕ}
    (hi : i ∈ List.range 128) : da + BitVec.ofNat 32 i < rxSize ∧ BitVec.ofNat 8 i < rxNumby := by
  have hlt := List.mem_range.1 hi
  have hsize : rxSize.toNat = 256256 := rfl
  have hnumby : rxNumby.toNat = 128 := rfl
  constructor
  · rw [BitVec.lt_def, BitVec.toNat_add, BitVec.toNat_ofNat]
    omega
  · rw [BitVec.lt_def, BitVec.toNat_ofNat]
    omega

/-- The sector buffer of a controller filled by a loop. -/
theorem foldl_load {n : ℕ} (hn : n = 2 ^ 7) (rx : Rx11) (da : BitVec 32) :
    (List.range n).foldl (fun rx i => { rx with
      buf := Function.update rx.buf ((BitVec.ofNat 8 i).setWidth 7)
        (rx.disk.read (da + BitVec.ofNat 32 i)) }) rx =
      { rx with buf := fun i => rx.disk.read (da + i.setWidth 32) } := by
  let withBuf (buf : BitVec 7 → Byte) : Rx11 := { rx with buf := buf }
  have hloop : (List.range n).foldl (fun rx i => { rx with
      buf := Function.update rx.buf ((BitVec.ofNat 8 i).setWidth 7)
        (rx.disk.read (da + BitVec.ofNat 32 i)) }) (withBuf rx.buf) =
      withBuf ((List.range n).foldl (fun buf i => Function.update buf (BitVec.ofNat 7 i)
        (rx.disk.read (da + BitVec.ofNat 32 i))) rx.buf) := by
    apply List.foldl_hom withBuf
    intro buf i
    rw [bufferIndex]
  rw [foldl_buffer hn] at hloop
  have hindex : (fun i : BitVec 7 => rx.disk.read (da + BitVec.ofNat 32 i.toNat)) =
      fun i => rx.disk.read (da + i.setWidth 32) := by
    funext i
    rw [BitVec.ofNat_toNat]
  rw [hindex] at hloop
  exact hloop

/-- The image of a controller written by a loop. -/
theorem foldl_save (n : ℕ) (rx : Rx11) (da : BitVec 32) :
    (List.range n).foldl (fun rx i => { rx with
      disk := rx.disk.write (da + BitVec.ofNat 32 i) (rx.buf ((BitVec.ofNat 8 i).setWidth 7)) }) rx =
      { rx with
        disk := (List.range n).foldl (fun d i =>
          d.write (da + BitVec.ofNat 32 i) (rx.buf (BitVec.ofNat 7 i))) rx.disk } := by
  let withDisk (disk : ByteImage) : Rx11 := { rx with disk := disk }
  apply List.foldl_hom withDisk
  intro disk i
  rw [bufferIndex]

theorem rxLoadChecked_eq (rx : Rx11) {da : BitVec 32} (hda : da.toNat + 128 ≤ rxSize.toNat) :
    rxLoadChecked rx da = some { rx with buf := fun i => rx.disk.read (da + i.setWidth 32) } := by
  have hloop := checks_foldlM (I := fun _ : Rx11 => True)
    (f := fun (rx : Rx11) i => do
      let b ← rxDiskByte rx (da + BitVec.ofNat 32 i)
      rxBufStore rx (BitVec.ofNat 8 i) b)
    (fun r i _ => (rxDiskByte_checks r _).bind (rxBufStore_checks r _ _)) (fun _ _ h => h)
    (List.range 128) (s := rx) trivial
  rw [foldl_load (n := 128) rfl] at hloop
  exact hloop.eq_some fun i hi => sector_inside hda hi

theorem rxSaveChecked_eq (rx : Rx11) {da : BitVec 32} (hda : da.toNat + 128 ≤ rxSize.toNat) :
    rxSaveChecked rx da = some { rx with
      disk := (List.range 128).foldl (fun d i =>
        d.write (da + BitVec.ofNat 32 i) (rx.buf (BitVec.ofNat 7 i))) rx.disk } := by
  have hloop := checks_foldlM (I := fun _ : Rx11 => True)
    (f := fun (rx : Rx11) i => do
      let b ← rxBufByte rx (BitVec.ofNat 8 i)
      rxDiskStore rx (da + BitVec.ofNat 32 i) b)
    (fun r i _ => (rxBufByte_checks r _).bind (rxDiskStore_checks r _ _)) (fun _ _ h => h)
    (List.range 128) (s := rx) trivial
  rw [foldl_save] at hloop
  exact hloop.eq_some fun i hi => (sector_inside hda hi).symm

/-- A sector of the disk lies within the image. -/
theorem rxSectorAddr_toNat {track sector : Byte} (htrack : track < rxNumtr) (h0 : sector ≠ 0)
    (hsector : sector ≤ rxNumsc) : (rxSectorAddr track sector).toNat =
      (track.toNat * 26 + (sector.toNat - 1)) * 128 := by
  have ht : track.toNat < 77 := BitVec.lt_def.1 htrack
  have hs : sector.toNat ≤ 26 := BitVec.le_def.1 hsector
  have hpos : sector.toNat ≠ 0 := fun hz => h0 (BitVec.eq_of_toNat_eq hz)
  have hwide (b : Byte) : (b.setWidth 32 : BitVec 32).toNat = b.toNat := by
    have hb := b.isLt
    rw [BitVec.toNat_setWidth]
    omega
  have hsub : (sector.setWidth 32 - 1 : BitVec 32).toNat = sector.toNat - 1 := by
    have hw := hwide sector
    bv_omega
  have htimes : (track.setWidth 32 * 26 : BitVec 32).toNat = track.toNat * 26 := by
    have hlit : (26 : BitVec 32).toNat = 26 := rfl
    rw [BitVec.toNat_mul, hwide, hlit]
    omega
  have hlit : (128 : BitVec 32).toNat = 128 := rfl
  rw [rxSectorAddr, BitVec.toNat_mul, BitVec.toNat_add, hsub, htimes, hlit]
  omega

/-- Every access of a sector transfer lies inside the buffer and the image. -/
theorem rxTransferChecked_eq (s : Cpu) : rxTransferChecked s = some (rxTransfer s) := by
  unfold rxTransferChecked rxTransfer
  dsimp only
  by_cases hdisk : s.dev.rx.disk.isNone
  · rw [if_pos hdisk, if_pos hdisk]
    rfl
  rw [if_neg hdisk, if_neg hdisk]
  by_cases htrack : rxNumtr ≤ s.dev.rx.track
  · rw [if_pos htrack, if_pos htrack]
    rfl
  rw [if_neg htrack, if_neg htrack]
  by_cases hsector : s.dev.rx.sector = 0 ∨ rxNumsc < s.dev.rx.sector
  · rw [if_pos hsector, if_pos hsector]
    rfl
  rw [if_neg hsector, if_neg hsector]
  obtain ⟨h0, hle⟩ := not_or.1 hsector
  have ht : s.dev.rx.track < rxNumtr := BitVec.not_le.1 htrack
  have hs : s.dev.rx.sector ≤ rxNumsc := BitVec.not_lt.1 hle
  have hda : (rxSectorAddr s.dev.rx.track s.dev.rx.sector).toNat + 128 ≤ rxSize.toNat := by
    have ht' : s.dev.rx.track.toNat < 77 := BitVec.lt_def.1 ht
    have hs' : s.dev.rx.sector.toNat ≤ 26 := BitVec.le_def.1 hs
    have hsize : rxSize.toNat = 256256 := rfl
    rw [rxSectorAddr_toNat ht h0 hs]
    omega
  by_cases hread : rxFunc s.dev.rx = rxFuncRead
  · have hwrdel : ¬rxFunc s.dev.rx = rxFuncWrdel := by
      rw [hread]
      decide
    rw [if_pos hread, if_pos hread, if_neg hwrdel, rxLoadChecked_eq _ hda]
    rfl
  · rw [if_neg hread, if_neg hread, rxSaveChecked_eq _ hda]
    by_cases hwrdel : rxFunc s.dev.rx = rxFuncWrdel
    · rw [if_pos hwrdel]
      rfl
    · rw [if_neg hwrdel]
      rfl

/-! ## The handshake -/

/-- Idle, with DONE set and TR clear. -/
structure RxIdle (rx : Rx11) : Prop where
  state : rx.state = .idle
  done : rx.rxcs &&& rxcsDone ≠ 0
  tr : rx.rxcs &&& rxcsTr = 0

/-- Waiting for a byte, with TR set and DONE clear. -/
structure RxWaiting (rx : Rx11) : Prop where
  state : rx.state = .fill ∨ rx.state = .empty ∨ rx.state = .rwds ∨ rx.state = .rwdt
  done : rx.rxcs &&& rxcsDone = 0
  tr : rx.rxcs &&& rxcsTr ≠ 0

/-- Between two accesses the controller is idle or waits; and a FILL that waits has room. -/
structure RxHandshake (rx : Rx11) : Prop where
  steady : RxIdle rx ∨ RxWaiting rx
  room : rx.state = .fill → rx.bptr < rxNumby

/-- A command under way that has its byte. -/
structure RxServed (rx : Rx11) : Prop where
  state : rx.state ≠ .idle
  done : rx.rxcs &&& rxcsDone = 0
  tr : rx.rxcs &&& rxcsTr = 0
  room : rx.state = .fill → rx.bptr < rxNumby

/-- What the end of a command does to the controller. -/
structure RxEnded (rx rx' : Rx11) : Prop where
  state : rx'.state = .idle
  done : rx'.rxcs &&& rxcsDone ≠ 0
  tr : rx'.rxcs &&& rxcsTr = rx.rxcs &&& rxcsTr
  buf : rx'.buf = rx.buf
  disk : rx'.disk = rx.disk

theorem rxDone_ended (s : Cpu) (esrFlags : Byte) (newEcode : Option Byte) :
    RxEnded s.dev.rx (rxDone s esrFlags newEcode).dev.rx := by
  have hset : (s.dev.rx.rxcs ||| rxcsDone) &&& rxcsDone ≠ 0 := by
    rw [BitVec.and_comm, BitVec.and_or_distrib_left, BitVec.and_self]
    intro h
    have hbit := congrArg (fun x : Word => x.getLsbD 5) h
    simp at hbit
  have htr : (s.dev.rx.rxcs ||| rxcsDone) &&& rxcsTr = s.dev.rx.rxcs &&& rxcsTr :=
    BitMask.or_and_eq _ (by decide)
  have herr (m : Word) (hm : rxcsErr &&& m = 0) :
      (s.dev.rx.rxcs ||| rxcsDone ||| rxcsErr) &&& m = (s.dev.rx.rxcs ||| rxcsDone) &&& m :=
    BitMask.or_and_eq _ hm
  unfold rxDone
  dsimp only
  cases newEcode with
  | none => split_ifs <;> exact ⟨rfl, hset, htr, rfl, rfl⟩
  | some code =>
    dsimp only
    split_ifs
    all_goals first
      | exact ⟨rfl, hset, htr, rfl, rfl⟩
      | exact ⟨rfl, (herr rxcsDone (by decide)).symm ▸ hset, (herr rxcsTr (by decide)).trans htr,
          rfl, rfl⟩

theorem RxEnded.idle {rx rx' : Rx11} (h : RxEnded rx rx') (htr : rx.rxcs &&& rxcsTr = 0) :
    RxIdle rx' := ⟨h.state, h.done, h.tr.trans htr⟩

theorem RxIdle.handshake {rx : Rx11} (h : RxIdle rx) : RxHandshake rx := by
  refine ⟨.inl h, fun hfill => ?_⟩
  rw [h.state] at hfill
  cases hfill

/-- A transfer ends its command. -/
theorem rxTransfer_idle {s : Cpu} (h : s.dev.rx.rxcs &&& rxcsTr = 0) :
    RxIdle (rxTransfer s).dev.rx := by
  have hended (t : Cpu) (code : Byte) (ht : t.dev.rx.rxcs = s.dev.rx.rxcs) :
      RxIdle (rxDone t 0 (some code)).dev.rx := by
    refine (rxDone_ended t 0 (some code)).idle ?_
    rw [ht]
    exact h
  unfold rxTransfer
  dsimp only
  split_ifs <;> exact hended _ _ rfl

/-- A step of a command under way accesses the buffers inside their bounds. -/
theorem RxServed.checked {s : Cpu} (h : RxServed s.dev.rx) :
    rxStepChecked s = some (rxStep s) := by
  cases hstate : s.dev.rx.state with
  | idle => exact absurd hstate h.state
  | empty =>
    unfold rxStepChecked rxStep
    dsimp only
    rw [hstate]
    dsimp only
    by_cases hlast : rxNumby ≤ s.dev.rx.bptr
    · rw [if_pos hlast, if_pos hlast]
      rfl
    · rw [if_neg hlast, if_neg hlast,
        (rxBufByte_checks s.dev.rx s.dev.rx.bptr).eq_some (BitVec.not_le.1 hlast)]
      rfl
  | fill =>
    unfold rxStepChecked rxStep
    dsimp only
    rw [hstate]
    dsimp only
    rw [(rxBufStore_checks s.dev.rx s.dev.rx.bptr s.dev.rx.rxdb).eq_some (h.room hstate),
      Option.bind_eq_bind, Option.bind_some]
    by_cases hmore : s.dev.rx.bptr + 1 < rxNumby
    · rw [if_pos hmore, if_pos hmore, ← hstate]
      rfl
    · rw [if_neg hmore, if_neg hmore, ← hstate]
      rfl
  | rwds =>
    unfold rxStepChecked
    dsimp only
    rw [hstate]
    rfl
  | cmddone =>
    unfold rxStepChecked
    dsimp only
    rw [hstate]
    rfl
  | rwdt =>
    unfold rxStepChecked rxStep
    dsimp only
    rw [hstate]
    exact rxTransferChecked_eq _
  | rwxfr =>
    unfold rxStepChecked rxStep
    dsimp only
    rw [hstate]
    exact rxTransferChecked_eq _

theorem or_tr_ne (c : Word) : (c ||| rxcsTr) &&& rxcsTr ≠ 0 := by
  rw [BitVec.and_comm, BitVec.and_or_distrib_left, BitVec.and_self]
  intro h
  have hbit := congrArg (fun x : Word => x.getLsbD 7) h
  simp at hbit

/-- A step of a command under way asks for the next byte or ends the command. -/
theorem RxServed.step {s : Cpu} (h : RxServed s.dev.rx) : RxHandshake (rxStep s).dev.rx := by
  have hset : (s.dev.rx.rxcs ||| rxcsTr) &&& rxcsTr ≠ 0 := or_tr_ne _
  have hdone : (s.dev.rx.rxcs ||| rxcsTr) &&& rxcsDone = 0 :=
    (BitMask.or_and_eq _ (by decide)).trans h.done
  have hended (t : Cpu) (code : Option Byte) (ht : t.dev.rx.rxcs = s.dev.rx.rxcs) :
      RxHandshake (rxDone t 0 code).dev.rx := by
    refine ((rxDone_ended t 0 code).idle ?_).handshake
    rw [ht]
    exact h.tr
  unfold rxStep
  dsimp only
  cases hstate : s.dev.rx.state with
  | idle => exact absurd hstate h.state
  | empty =>
    dsimp only
    split
    · exact hended _ _ rfl
    · exact ⟨.inr ⟨.inr (.inl rfl), hdone, hset⟩, nofun⟩
  | fill =>
    dsimp only
    split
    · rename_i hmore
      exact ⟨.inr ⟨.inl rfl, hdone, hset⟩, fun _ => hmore⟩
    · exact hended _ _ rfl
  | rwds => exact ⟨.inr ⟨.inr (.inr (.inr rfl)), hdone, hset⟩, nofun⟩
  | rwdt =>
    apply RxIdle.handshake
    apply rxTransfer_idle
    exact h.tr
  | rwxfr =>
    apply RxIdle.handshake
    apply rxTransfer_idle
    exact h.tr
  | cmddone =>
    dsimp only
    split
    · exact hended _ _ rfl
    · exact hended _ _ rfl

/-! ## Accesses -/

/-- A byte given or taken: the command that waited has it. -/
theorem RxHandshake.served {rx rx' : Rx11} (h : RxHandshake rx) (hne : rx.state ≠ .idle)
    (hstate : rx'.state = rx.state) (hbptr : rx'.bptr = rx.bptr)
    (hcs : rx'.rxcs = rx.rxcs &&& ~~~rxcsTr) : RxServed rx' := by
  obtain hidle | hwaiting := h.steady
  · exact absurd hidle.state hne
  · refine ⟨?_, ?_, ?_, ?_⟩
    · rw [hstate]
      exact hne
    · rw [hcs, BitMask.and_not_and_eq _ (by decide)]
      exact hwaiting.done
    · rw [hcs, BitVec.and_assoc, BitVec.and_comm (~~~rxcsTr), BitVec.and_not_self]
      exact BitVec.and_zero
    · rw [hstate, hbptr]
      exact h.room

/-- A launch from the idle state, where it sets the state off. -/
theorem rxGo_served (s : Cpu) (value : Word) {state : RxState} (h : state ≠ .idle) :
    RxServed { s.dev.rx with
      rxcs := value &&& (rxcsIe ||| rxcsDrv ||| rxcsFunc)
      bptr := 0
      state := state } := by
  have hclear (m : Word) (hm : (rxcsIe ||| rxcsDrv ||| rxcsFunc) &&& m = 0) :
      value &&& (rxcsIe ||| rxcsDrv ||| rxcsFunc) &&& m = 0 := by
    rw [BitVec.and_assoc, hm]
    exact BitVec.and_zero
  exact ⟨h, hclear _ (by decide), hclear _ (by decide), fun _ => (by decide : (0 : Byte) < rxNumby)⟩

theorem rxGoChecked_eq (s : Cpu) (value : Word) : rxGoChecked s value = some (rxGo s value) := by
  have hempty : RxServed { s with
      dev.rx.rxcs := value &&& (rxcsIe ||| rxcsDrv ||| rxcsFunc)
      dev.rx.bptr := 0
      dev.rx.state := .empty }.dev.rx := rxGo_served s value (by decide)
  unfold rxGoChecked rxGo
  dsimp only
  split
  · rename_i hfunc
    rw [hfunc, if_neg (by decide)]
    exact hempty.checked
  · rfl

theorem rxGo_handshake (s : Cpu) (value : Word) : RxHandshake (rxGo s value).dev.rx := by
  have hwaits {state : RxState} (hstate : state = .fill ∨ state = .rwds) (rxes : Byte) :
      RxHandshake { s.dev.rx with
        rxcs := (value &&& (rxcsIe ||| rxcsDrv ||| rxcsFunc)) ||| rxcsTr
        bptr := 0
        rxes := rxes
        state := state } := by
    have hne : state ≠ .idle := by rcases hstate with rfl | rfl <;> decide
    have hserved := rxGo_served s value hne
    refine ⟨.inr ⟨?_, ?_, ?_⟩, fun _ => (by decide : (0 : Byte) < rxNumby)⟩
    · rcases hstate with rfl | rfl
      · exact .inl rfl
      · exact .inr (.inr (.inl rfl))
    · exact (BitMask.or_and_eq _ (by decide)).trans hserved.done
    · exact or_tr_ne _
  have hsteps {state : RxState} (hne : state ≠ .idle) : RxHandshake (rxStep { s with
      dev.rx.rxcs := value &&& (rxcsIe ||| rxcsDrv ||| rxcsFunc)
      dev.rx.bptr := 0
      dev.rx.state := state }).dev.rx := by
    apply RxServed.step
    exact rxGo_served s value hne
  unfold rxGo
  dsimp only
  split_ifs
  · exact hwaits (.inl rfl) _
  · exact hsteps (by decide)
  · exact hwaits (.inr rfl) _
  · exact hsteps (by decide)

theorem rxResetState_idle (s : Cpu) : RxIdle (rxResetState s).dev.rx :=
  ⟨rfl, (by decide : rxcsDone &&& rxcsDone ≠ 0), (by decide : rxcsDone &&& rxcsTr = 0)⟩

/-- A write of RXCS that launches nothing changes the enable bit alone. -/
theorem rxWriteRxcs_handshake {s : Cpu} (h : RxHandshake s.dev.rx) (value : Word) :
    RxHandshake (rxWriteRxcs s value).dev.rx := by
  have hcs (m : Word) (hm : rxcsRw &&& m = 0) :
      ((s.dev.rx.rxcs &&& ~~~rxcsRw) ||| (value &&& rxcsRw)) &&& m = s.dev.rx.rxcs &&& m :=
    BitMask.load_and_eq _ _ hm
  have hdone := hcs rxcsDone (by decide)
  have htr := hcs rxcsTr (by decide)
  have hload : RxHandshake { s.dev.rx with
      rxcs := (s.dev.rx.rxcs &&& ~~~rxcsRw) ||| (value &&& rxcsRw) } := by
    refine ⟨?_, h.room⟩
    obtain hidle | hwaiting := h.steady
    · exact .inl ⟨hidle.state, hdone ▸ hidle.done, htr.trans hidle.tr⟩
    · exact .inr ⟨hwaiting.state, hdone.trans hwaiting.done, htr ▸ hwaiting.tr⟩
  unfold rxWriteRxcs
  dsimp only
  split_ifs
  · exact (rxResetState_idle s).handshake
  · exact rxGo_handshake s value
  all_goals exact hload

theorem RxHandshake.write {s : Cpu} (h : RxHandshake s.dev.rx) (addr value : Word) :
    rxWriteChecked s addr value = some (rxWrite s addr value) ∧
      RxHandshake (rxWrite s addr value).dev.rx := by
  unfold rxWriteChecked
  by_cases ha : addr = 0o177170
  · have hwrite : rxWrite s addr value = rxWriteRxcs s value := if_pos ha
    rw [if_pos ha, hwrite]
    refine ⟨?_, rxWriteRxcs_handshake h value⟩
    by_cases hgo : value &&& rxcsInit = 0 ∧ value &&& rxcsGo ≠ 0 ∧ s.dev.rx.state = .idle
    · have hlaunch : rxWriteRxcs s value = rxGo s value := by
        unfold rxWriteRxcs
        rw [if_neg (not_not.2 hgo.1), if_pos hgo.2]
      rw [if_pos hgo, hlaunch]
      exact rxGoChecked_eq s value
    · rw [if_neg hgo]
      rfl
  rw [if_neg ha]
  have hdata : rxWrite s addr value =
      if s.dev.rx.state ≠ .idle ∧ s.dev.rx.rxcs &&& rxcsTr ≠ 0 then
        if s.dev.rx.state ≠ .empty then rxStep { s with
          dev.rx.rxdb := value.setWidth 8
          dev.rx.rxcs := s.dev.rx.rxcs &&& ~~~rxcsTr }
        else { s with dev.rx.rxdb := value.setWidth 8 }
      else s := if_neg ha
  by_cases hwaits : s.dev.rx.state ≠ .idle ∧ s.dev.rx.rxcs &&& rxcsTr ≠ 0
  · by_cases hempty : s.dev.rx.state ≠ .empty
    · have hserved : RxServed { s with
          dev.rx.rxdb := value.setWidth 8
          dev.rx.rxcs := s.dev.rx.rxcs &&& ~~~rxcsTr }.dev.rx := h.served hwaits.1 rfl rfl rfl
      rw [if_pos ⟨hwaits, hempty⟩, hdata, if_pos hwaits, if_pos hempty]
      exact ⟨hserved.checked, hserved.step⟩
    · rw [if_neg fun hand => hempty hand.2, hdata, if_pos hwaits, if_neg hempty]
      refine ⟨rfl, ?_, h.room⟩
      obtain hidle | hwaiting := h.steady
      · exact .inl ⟨hidle.state, hidle.done, hidle.tr⟩
      · exact .inr ⟨hwaiting.state, hwaiting.done, hwaiting.tr⟩
  · rw [if_neg fun hand => hwaits hand.1, hdata, if_neg hwaits]
    exact ⟨rfl, h⟩

theorem RxHandshake.read {s : Cpu} (h : RxHandshake s.dev.rx) (addr : Word) :
    rxReadChecked s addr = some (rxRead s addr) ∧ RxHandshake (rxRead s addr).2.dev.rx := by
  unfold rxReadChecked
  by_cases ha : addr = 0o177170
  · have hread : rxRead s addr = (s.dev.rx.rxcs &&& rxcsRout, s) := if_pos ha
    rw [if_pos ha, hread]
    exact ⟨rfl, h⟩
  rw [if_neg ha]
  have hdata : rxRead s addr =
      if s.dev.rx.state = .empty ∧ s.dev.rx.rxcs &&& rxcsTr ≠ 0 then
        (s.dev.rx.rxdb.setWidth 16,
          rxStep { s with dev.rx.rxcs := s.dev.rx.rxcs &&& ~~~rxcsTr })
      else (s.dev.rx.rxdb.setWidth 16, s) := if_neg ha
  by_cases hempty : s.dev.rx.state = .empty ∧ s.dev.rx.rxcs &&& rxcsTr ≠ 0
  · have hne : s.dev.rx.state ≠ .idle := by
      rw [hempty.1]
      decide
    have hserved : RxServed { s with dev.rx.rxcs := s.dev.rx.rxcs &&& ~~~rxcsTr }.dev.rx :=
      h.served hne rfl rfl rfl
    rw [if_pos hempty, hdata, if_pos hempty, hserved.checked]
    exact ⟨rfl, hserved.step⟩
  · rw [if_neg hempty, hdata, if_neg hempty]
    exact ⟨rfl, h⟩

/-! ## Runs of the controller -/

/-- What may happen to the floppy: an access of RXCS or RXDB, an image attached or detached, a reset
of the controller or of the machine, or anything that leaves the controller alone. -/
inductive RxOp
  | read (addr : Word)
  | write (addr value : Word)
  | attach (disk : ByteImage) (bytes : BitVec 32)
  | resetState
  | reset
  | elsewhere (t : Cpu)

def RxOp.apply (op : RxOp) (s : Cpu) : Cpu :=
  match op with
  | .read addr => (rxRead s addr).2
  | .write addr value => rxWrite s addr value
  | .attach disk bytes => rxAttach s disk bytes
  | .resetState => rxResetState s
  | .reset => cpuReset s
  | .elsewhere t => { t with dev.rx := s.dev.rx }

theorem cpuReset_rxIdle (s : Cpu) : RxIdle (cpuReset s).dev.rx := by
  refine ⟨rfl, ?_, ?_⟩
  · show (0o040 ||| (if s.dev.rx.disk.isSome then 0 else 0o100000 : Word)) &&& rxcsDone ≠ 0
    split <;> decide
  · show (0o040 ||| (if s.dev.rx.disk.isSome then 0 else 0o100000 : Word)) &&& rxcsTr = 0
    split <;> decide

theorem RxOp.handshake (op : RxOp) {s : Cpu} (h : RxHandshake s.dev.rx) :
    RxHandshake (op.apply s).dev.rx := by
  cases op with
  | read addr => exact (h.read addr).2
  | write addr value => exact (h.write addr value).2
  | attach disk bytes =>
    refine ⟨?_, h.room⟩
    obtain hidle | hwaiting := h.steady
    · exact .inl ⟨hidle.state, hidle.done, hidle.tr⟩
    · exact .inr ⟨hwaiting.state, hwaiting.done, hwaiting.tr⟩
  | resetState => exact (rxResetState_idle s).handshake
  | reset => exact (cpuReset_rxIdle s).handshake
  | elsewhere t => exact h

/-- From a reset on, whatever the program does: the controller is idle with DONE, or it waits with
TR, in exactly one of the two ways; and every access of a register makes its accesses of the sector
buffer and of the image inside their bounds. -/
theorem rx_handshake {s t : Cpu} (hs : (∃ u, s = rxResetState u) ∨ ∃ u, s = cpuReset u)
    (h : Run RxOp.apply (fun _ _ => True) s t) :
    (RxIdle t.dev.rx ∨ RxWaiting t.dev.rx) ∧
      (t.dev.rx.rxcs &&& rxcsDone ≠ 0 ↔ t.dev.rx.rxcs &&& rxcsTr = 0) ∧
      (∀ addr, rxReadChecked t addr = some (rxRead t addr)) ∧
      ∀ addr value, rxWriteChecked t addr value = some (rxWrite t addr value) := by
  have hstart : RxHandshake s.dev.rx := by
    rcases hs with ⟨u, rfl⟩ | ⟨u, rfl⟩
    · exact (rxResetState_idle u).handshake
    · exact (cpuReset_rxIdle u).handshake
  have ht : RxHandshake t.dev.rx :=
    h.invariant (I := fun u => RxHandshake u.dev.rx) (fun op _ _ hu => op.handshake hu) hstart
  refine ⟨ht.steady, ?_, fun addr => (ht.read addr).1, fun addr value => (ht.write addr value).1⟩
  obtain hidle | hwaiting := ht.steady
  · exact iff_of_true hidle.done hidle.tr
  · exact iff_of_false (not_not.2 hwaiting.done) hwaiting.tr

/-- A FILL launched after a reset, and its first byte. -/
theorem rx_filling :
    RxWaiting (rxWrite (rxWrite (cpuReset cpuCreate) 0o177170 1) 0o177172 0o252).dev.rx := by
  have hrun : Run RxOp.apply (fun _ _ => True) (cpuReset cpuCreate)
      (rxWrite (rxWrite (cpuReset cpuCreate) 0o177170 1) 0o177172 0o252) :=
    ((Run.refl _).snoc (RxOp.write 0o177170 1) trivial).snoc (RxOp.write 0o177172 0o252) trivial
  refine (rx_handshake (.inr ⟨_, rfl⟩) hrun).1.resolve_left fun hidle => ?_
  exact absurd hidle.state (by decide)

end Pdp11
