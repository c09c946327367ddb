import Pdp11.FloppyProtocol
import Mathlib.Logic.Relation
import Mathlib.Tactic.NormNum

namespace Pdp11

/-! A sector written through the buffer of the RX11, and read back. -/

/-! ## What a program does -/

/-- Any number of polls of RXCS, and anything that leaves the RX11 alone. -/
inductive Polls (s : Cpu) : Cpu → Prop
  | refl : Polls s s
  | poll {t : Cpu} : Polls s t → Polls s (rxRead t 0o177170).2
  | elsewhere {t : Cpu} (u : Cpu) : Polls s t → u.dev.rx = t.dev.rx → Polls s u

/-- Words given to RXDB in order, among polls. -/
inductive Gives : List Word → Cpu → Cpu → Prop
  | nil {s t : Cpu} : Polls s t → Gives [] s t
  | cons {w : Word} {ws : List Word} {s t u : Cpu} : Polls s t →
      Gives ws (rxWrite t 0o177172 w) u → Gives (w :: ws) s u

/-- Words taken from RXDB in order, among polls. -/
inductive Takes : List Word → Cpu → Cpu → Prop
  | nil {s t : Cpu} : Polls s t → Takes [] s t
  | cons {vs : List Word} {s t u : Cpu} : Polls s t → Takes vs (rxRead t 0o177172).2 u →
      Takes ((rxRead t 0o177172).1 :: vs) s u

/-- A value of RXCS that launches a function. -/
structure Launches (func value : Word) : Prop where
  go : value &&& rxcsGo ≠ 0
  init : value &&& rxcsInit = 0
  func : (value >>> 1) &&& 7 = func

/-- FILL, with its 128 bytes. -/
def Fills (ws : List Word) (s t : Cpu) : Prop :=
  ∃ u value, Polls s u ∧ Launches rxFuncFill value ∧ ws.length = 128 ∧
    Gives ws (rxWrite u 0o177170 value) t

/-- A function that transfers a sector, with its sector and its track. -/
def Transfers (func : Word) (sector track : Byte) (s t : Cpu) : Prop :=
  ∃ u value w w', Polls s u ∧ Launches func value ∧ w.setWidth 8 &&& 0o177 = sector ∧
    w'.setWidth 8 = track ∧ Gives [w, w'] (rxWrite u 0o177170 value) t

/-- EMPTY, with the 128 bytes taken. -/
def Empties (vs : List Word) (s t : Cpu) : Prop :=
  ∃ u value, Polls s u ∧ Launches rxFuncEmpty value ∧ vs.length = 128 ∧
    Takes vs (rxWrite u 0o177170 value) t

theorem Polls.rx {s t : Cpu} (h : Polls s t) : t.dev.rx = s.dev.rx := by
  induction h with
  | refl => rfl
  | poll _ ih => exact ih
  | elsewhere u _ hu ih => exact hu.trans ih

/-! ## Launches -/

theorem rxWrite_launches {s : Cpu} {func value : Word} (h : Launches func value)
    (hidle : s.dev.rx.state = .idle) : rxWrite s 0o177170 value = rxGo s value := by
  unfold rxWrite rxWriteRxcs
  rw [if_pos rfl, if_neg (not_not.2 h.init), if_pos ⟨h.go, hidle⟩]

/-- The function of a launch, as the controller loads it. -/
theorem Launches.loaded {func value : Word} (h : Launches func value) :
    ((value &&& (rxcsIe ||| rxcsDrv ||| rxcsFunc)) >>> 1) &&& (7 : Word) = func := by
  rw [BitVec.ushiftRight_and_distrib, BitVec.and_assoc, ← h.func]
  rfl

theorem Launches.rxFunc {func value : Word} (h : Launches func value) {rx : Rx11}
    (hcs : rx.rxcs = value &&& (rxcsIe ||| rxcsDrv ||| rxcsFunc)) : Pdp11.rxFunc rx = func := by
  rw [Pdp11.rxFunc, hcs]
  exact h.loaded

theorem rxFunc_or_tr (c : Word) : ((c ||| rxcsTr) >>> 1) &&& (7 : Word) = (c >>> 1) &&& 7 := by
  rw [BitVec.ushiftRight_or_distrib]
  exact BitMask.or_and_eq _ (by decide)

theorem rxFunc_clear_tr (c : Word) :
    ((c &&& ~~~rxcsTr) >>> 1) &&& (7 : Word) = (c >>> 1) &&& 7 := by
  rw [BitVec.ushiftRight_and_distrib, BitVec.and_assoc]
  rfl

theorem rxGo_fill {s : Cpu} {value : Word} (h : Launches rxFuncFill value) :
    (rxGo s value).dev.rx = { s.dev.rx with
      rxcs := (value &&& (rxcsIe ||| rxcsDrv ||| rxcsFunc)) ||| rxcsTr
      bptr := 0
      state := .fill } := by
  unfold rxGo
  dsimp only
  rw [h.rxFunc rfl, if_pos rfl]

theorem rxGo_empty {s : Cpu} {value : Word} (h : Launches rxFuncEmpty value) :
    (rxGo s value).dev.rx = { s.dev.rx with
      rxcs := (value &&& (rxcsIe ||| rxcsDrv ||| rxcsFunc)) ||| rxcsTr
      rxdb := s.dev.rx.buf 0
      bptr := 1
      state := .empty } := by
  unfold rxGo
  dsimp only
  rw [h.rxFunc rfl, if_neg (by decide), if_pos rfl]
  rfl

theorem rxGo_transfer {s : Cpu} {func value : Word} (h : Launches func value)
    (hfunc : func = rxFuncRead ∨ func = rxFuncWrite ∨ func = rxFuncWrdel) :
    (rxGo s value).dev.rx = { s.dev.rx with
      rxcs := (value &&& (rxcsIe ||| rxcsDrv ||| rxcsFunc)) ||| rxcsTr
      bptr := 0
      state := .rwds
      rxes := s.dev.rx.rxes &&& rxesId } := by
  have hfill : func ≠ rxFuncFill := by
    rcases hfunc with rfl | rfl | rfl <;> decide
  have hempty : func ≠ rxFuncEmpty := by
    rcases hfunc with rfl | rfl | rfl <;> decide
  unfold rxGo
  dsimp only
  rw [h.rxFunc rfl, if_neg hfill, if_neg hempty, if_pos hfunc]

/-! ## FILL -/

/-- A byte given to a command that waits for one. -/
theorem rxWrite_data {s : Cpu} (w : Word) (hidle : s.dev.rx.state ≠ .idle)
    (htr : s.dev.rx.rxcs &&& rxcsTr ≠ 0) (hempty : s.dev.rx.state ≠ .empty) :
    rxWrite s 0o177172 w = rxStep { s with
      dev.rx.rxdb := w.setWidth 8
      dev.rx.rxcs := s.dev.rx.rxcs &&& ~~~rxcsTr } := by
  unfold rxWrite
  dsimp only
  rw [if_neg (by decide), if_pos ⟨hidle, htr⟩, if_pos hempty]

/-- FILL waits for byte `k`, or is over. -/
def FillsAt (k : ℕ) (rx : Rx11) : Prop :=
  if k < 128 then rx.state = .fill ∧ rx.rxcs &&& rxcsTr ≠ 0 ∧ rx.bptr.toNat = k else RxIdle rx

theorem clear_tr (c : Word) : c &&& ~~~rxcsTr &&& rxcsTr = 0 := by
  rw [BitVec.and_assoc, BitVec.and_comm (~~~rxcsTr), BitVec.and_not_self]
  exact BitVec.and_zero

/-- FILL stores its byte and waits for the next. -/
theorem FillsAt.give {k : ℕ} {s : Cpu} (h : FillsAt k s.dev.rx) (hk : k < 128) (w : Word) :
    FillsAt (k + 1) (rxWrite s 0o177172 w).dev.rx ∧
      (rxWrite s 0o177172 w).dev.rx.disk = s.dev.rx.disk ∧
      (rxWrite s 0o177172 w).dev.rx.buf =
        Function.update s.dev.rx.buf (BitVec.ofNat 7 k) (w.setWidth 8) := by
  rw [FillsAt, if_pos hk] at h
  obtain ⟨hstate, htr, hbptr⟩ := h
  have hindex : s.dev.rx.bptr.setWidth 7 = BitVec.ofNat 7 k := by
    rw [← hbptr, BitVec.ofNat_toNat]
  have hnext : (s.dev.rx.bptr + 1).toNat = k + 1 := by bv_omega
  have hstep : rxWrite s 0o177172 w =
      if s.dev.rx.bptr + 1 < rxNumby then { s with
        dev.rx.rxdb := w.setWidth 8
        dev.rx.buf := Function.update s.dev.rx.buf (s.dev.rx.bptr.setWidth 7) (w.setWidth 8)
        dev.rx.bptr := s.dev.rx.bptr + 1
        dev.rx.rxcs := (s.dev.rx.rxcs &&& ~~~rxcsTr) ||| rxcsTr }
      else rxDone { s with
        dev.rx.rxdb := w.setWidth 8
        dev.rx.buf := Function.update s.dev.rx.buf (s.dev.rx.bptr.setWidth 7) (w.setWidth 8)
        dev.rx.bptr := s.dev.rx.bptr + 1
        dev.rx.rxcs := s.dev.rx.rxcs &&& ~~~rxcsTr } 0 (some 0) := by
    rw [rxWrite_data w (by rw [hstate]; decide) htr (by rw [hstate]; decide)]
    unfold rxStep
    dsimp only
    rw [hstate]
  rw [hstep, hindex, FillsAt]
  -- the last byte ends the command, and any other asks for the next
  by_cases hmore : k + 1 < 128
  · have hlt : s.dev.rx.bptr + 1 < rxNumby := by
      rw [BitVec.lt_def, hnext]
      exact hmore
    rw [if_pos hlt, if_pos hmore]
    exact ⟨⟨hstate, or_tr_ne _, hnext⟩, rfl, rfl⟩
  · have hge : ¬s.dev.rx.bptr + 1 < rxNumby := by
      rw [BitVec.lt_def, hnext]
      exact hmore
    rw [if_neg hge, if_neg hmore]
    have hended := rxDone_ended { s with
      dev.rx.rxdb := w.setWidth 8
      dev.rx.buf := Function.update s.dev.rx.buf (BitVec.ofNat 7 k) (w.setWidth 8)
      dev.rx.bptr := s.dev.rx.bptr + 1
      dev.rx.rxcs := s.dev.rx.rxcs &&& ~~~rxcsTr } 0 (some 0)
    exact ⟨hended.idle (clear_tr _), hended.disk, hended.buf⟩

/-- The bytes given to FILL from byte `k` on are laid into the sector buffer. -/
theorem FillsAt.gives {ws : List Word} {s t : Cpu} (h : Gives ws s t) {k : ℕ}
    (hs : FillsAt k s.dev.rx) (hk : k + ws.length = 128) :
    RxIdle t.dev.rx ∧ t.dev.rx.disk = s.dev.rx.disk ∧
      sectorStore.Laid (fun i => BitVec.ofNat 7 (k + i)) (ws.map (BitVec.setWidth 8))
        s.dev.rx.buf t.dev.rx.buf := by
  induction h generalizing k with
  | nil hpolls =>
    rw [hpolls.rx]
    have hover : ¬k < 128 := by
      rw [List.length_nil] at hk
      omega
    rw [FillsAt, if_neg hover] at hs
    exact ⟨hs, rfl, .nil⟩
  | @cons w ws s t u hpolls _ ih =>
    rw [List.length_cons] at hk
    rw [← hpolls.rx] at hs ⊢
    obtain ⟨hnext, hdisk, hbuf⟩ := hs.give (by omega) w
    obtain ⟨hidle, hdisk', hlaid⟩ := ih hnext (by omega)
    refine ⟨hidle, hdisk'.trans hdisk, ?_⟩
    have hfirst : sectorStore.Laid (fun i => BitVec.ofNat 7 (k + i)) [w.setWidth 8]
        t.dev.rx.buf (rxWrite t 0o177172 w).dev.rx.buf := by
      rw [hbuf]
      exact .singleton _
    refine hfirst.append (n := 1) rfl ?_ ?_
    · simpa only [Nat.add_assoc] using hlaid
    · intro i j hi hj heq
      rw [List.length_map] at hj
      have hval := congrArg BitVec.toNat heq
      rw [BitVec.toNat_ofNat, BitVec.toNat_ofNat] at hval
      omega

/-- FILL replaces the whole buffer, and leaves the disk alone. -/
theorem Fills.buffer {ws : List Word} {s t : Cpu} (h : Fills ws s t) (hs : RxIdle s.dev.rx) :
    RxIdle t.dev.rx ∧ t.dev.rx.disk = s.dev.rx.disk ∧ ∀ i, i < 128 →
      (ws.map (BitVec.setWidth 8))[i]? = some (t.dev.rx.buf (BitVec.ofNat 7 i)) := by
  obtain ⟨u, value, hpolls, hlaunch, hlen, hgives⟩ := h
  have hu : u.dev.rx.state = .idle := by
    rw [hpolls.rx]
    exact hs.state
  rw [rxWrite_launches hlaunch hu] at hgives
  have hstart : FillsAt 0 (rxGo u value).dev.rx := by
    rw [rxGo_fill hlaunch, FillsAt, if_pos (by decide)]
    exact ⟨rfl, or_tr_ne _, rfl⟩
  obtain ⟨hidle, hdisk, hlaid⟩ := hstart.gives hgives (by omega)
  refine ⟨hidle, ?_, fun i hi => ?_⟩
  · rw [hdisk, rxGo_fill hlaunch, ← hpolls.rx]
  · have hbyte := hlaid.laid i (by simpa [hlen] using hi)
    rw [Nat.zero_add] at hbyte
    exact hbyte

/-! ## EMPTY -/

/-- EMPTY offers byte `k`, or is over. -/
def EmptiesAt (k : ℕ) (rx : Rx11) : Prop :=
  if k < 128 then rx.state = .empty ∧ rx.rxcs &&& rxcsTr ≠ 0 ∧ rx.bptr.toNat = k + 1 ∧
    rx.rxdb = rx.buf (BitVec.ofNat 7 k) else RxIdle rx

/-- EMPTY hands out its byte and offers the next. -/
theorem EmptiesAt.take {k : ℕ} {s : Cpu} (h : EmptiesAt k s.dev.rx) (hk : k < 128) :
    (rxRead s 0o177172).1 = (s.dev.rx.buf (BitVec.ofNat 7 k)).setWidth 16 ∧
      EmptiesAt (k + 1) (rxRead s 0o177172).2.dev.rx ∧
      (rxRead s 0o177172).2.dev.rx.buf = s.dev.rx.buf := by
  rw [EmptiesAt, if_pos hk] at h
  obtain ⟨hstate, htr, hbptr, hrxdb⟩ := h
  have hindex : s.dev.rx.bptr.setWidth 7 = BitVec.ofNat 7 (k + 1) := by
    rw [← hbptr, BitVec.ofNat_toNat]
  have hread : rxRead s 0o177172 = (s.dev.rx.rxdb.setWidth 16,
      if rxNumby ≤ s.dev.rx.bptr then
        rxDone { s with dev.rx.rxcs := s.dev.rx.rxcs &&& ~~~rxcsTr } 0 (some 0)
      else { s with
        dev.rx.rxdb := s.dev.rx.buf (s.dev.rx.bptr.setWidth 7)
        dev.rx.bptr := s.dev.rx.bptr + 1
        dev.rx.rxcs := (s.dev.rx.rxcs &&& ~~~rxcsTr) ||| rxcsTr }) := by
    unfold rxRead
    dsimp only
    rw [if_neg (by decide), if_pos ⟨hstate, htr⟩]
    unfold rxStep
    dsimp only
    rw [hstate]
  rw [hread, hrxdb, hindex, EmptiesAt]
  refine ⟨rfl, ?_⟩
  by_cases hmore : k + 1 < 128
  · have hlt : ¬rxNumby ≤ s.dev.rx.bptr := by
      rw [BitVec.le_def, hbptr]
      exact Nat.not_le.2 hmore
    have hnext : (s.dev.rx.bptr + 1).toNat = k + 1 + 1 := by bv_omega
    rw [if_neg hlt, if_pos hmore]
    exact ⟨⟨hstate, or_tr_ne _, hnext, rfl⟩, rfl⟩
  · have hge : rxNumby ≤ s.dev.rx.bptr := by
      rw [BitVec.le_def, hbptr]
      exact Nat.not_lt.1 hmore
    have hended := rxDone_ended { s with dev.rx.rxcs := s.dev.rx.rxcs &&& ~~~rxcsTr } 0 (some 0)
    rw [if_pos hge, if_neg hmore]
    exact ⟨hended.idle (clear_tr _), hended.buf⟩

/-- The bytes taken from EMPTY from byte `k` on are those of the sector buffer. -/
theorem EmptiesAt.takes {vs : List Word} {s t : Cpu} (h : Takes vs s t) {k : ℕ}
    (hs : EmptiesAt k s.dev.rx) (hk : k + vs.length = 128) :
    RxIdle t.dev.rx ∧ ∀ i, i < vs.length →
      vs[i]? = some ((s.dev.rx.buf (BitVec.ofNat 7 (k + i))).setWidth 16) := by
  induction h generalizing k with
  | nil hpolls =>
    have hover : ¬k < 128 := by
      rw [List.length_nil] at hk
      omega
    rw [EmptiesAt, if_neg hover, ← hpolls.rx] at hs
    exact ⟨hs, nofun⟩
  | @cons vs s t u hpolls _ ih =>
    rw [List.length_cons] at hk
    rw [← hpolls.rx] at hs ⊢
    obtain ⟨hvalue, hnext, hbuf⟩ := hs.take (by omega)
    obtain ⟨hidle, hrest⟩ := ih hnext (by omega)
    refine ⟨hidle, fun i hi => ?_⟩
    cases i with
    | zero => rw [List.getElem?_cons_zero, hvalue, Nat.add_zero]
    | succ i =>
      rw [List.length_cons] at hi
      rw [List.getElem?_cons_succ, hrest i (by omega), hbuf, Nat.add_assoc, Nat.add_comm 1 i]

theorem Empties.buffer {vs : List Word} {s t : Cpu} (h : Empties vs s t) (hs : RxIdle s.dev.rx) :
    RxIdle t.dev.rx ∧ ∀ i, i < 128 →
      vs[i]? = some ((s.dev.rx.buf (BitVec.ofNat 7 i)).setWidth 16) := by
  obtain ⟨u, value, hpolls, hlaunch, hlen, htakes⟩ := h
  have hu : u.dev.rx.state = .idle := by
    rw [hpolls.rx]
    exact hs.state
  rw [rxWrite_launches hlaunch hu] at htakes
  have hstart : EmptiesAt 0 (rxGo u value).dev.rx := by
    rw [rxGo_empty hlaunch, EmptiesAt, if_pos (by decide)]
    exact ⟨rfl, or_tr_ne _, rfl, rfl⟩
  obtain ⟨hidle, hbytes⟩ := hstart.takes htakes (by omega)
  refine ⟨hidle, fun i hi => ?_⟩
  have hbyte := hbytes i (by omega)
  rw [rxGo_empty hlaunch, Nat.zero_add] at hbyte
  rw [← hpolls.rx]
  exact hbyte

/-! ## Sector transfers -/

/-- The disk after a sector is written from the buffer. -/
def rxSaved (disk : ByteImage) (da : BitVec 32) (buf : BitVec 7 → Byte) : ByteImage :=
  (List.range 128).foldl (fun d i => d.write (da + BitVec.ofNat 32 i) (buf (BitVec.ofNat 7 i))) disk

/-- The track and the sector are on the disk. -/
def RxOnDisk (track sector : Byte) : Prop := track < rxNumtr ∧ sector ≠ 0 ∧ sector ≤ rxNumsc

instance (track sector : Byte) : Decidable (RxOnDisk track sector) :=
  inferInstanceAs (Decidable (_ ∧ _ ∧ _))

/-- What a transfer leaves in the buffer and on the disk. -/
theorem rxTransfer_ended {s : Cpu} {func : Word} {track sector : Byte} {buf : BitVec 7 → Byte}
    {disk : ByteImage} (hfunc : rxFunc s.dev.rx = func) (htrack : s.dev.rx.track = track)
    (hsector : s.dev.rx.sector = sector) (hbuf : s.dev.rx.buf = buf) (hdisk : s.dev.rx.disk = disk)
    (hsome : disk.isSome) (htr : s.dev.rx.rxcs &&& rxcsTr = 0) :
    RxIdle (rxTransfer s).dev.rx ∧
      (rxTransfer s).dev.rx.buf = (if RxOnDisk track sector ∧ func = rxFuncRead then
          fun i => disk.read (rxSectorAddr track sector + i.setWidth 32)
        else buf) ∧
      (rxTransfer s).dev.rx.disk = if RxOnDisk track sector ∧ func ≠ rxFuncRead then
          rxSaved disk (rxSectorAddr track sector) buf
        else disk := by
  subst hfunc htrack hsector hbuf hdisk
  refine ⟨rxTransfer_idle htr, ?_⟩
  have hattached : ¬s.dev.rx.disk.isNone := by
    intro hnone
    rw [Option.isNone_iff_eq_none.1 hnone] at hsome
    cases hsome
  unfold rxTransfer rxSaved
  dsimp only
  rw [if_neg hattached]
  -- no such track, no such sector, then the transfer itself
  by_cases htrack : rxNumtr ≤ s.dev.rx.track
  · have hoff : ¬RxOnDisk s.dev.rx.track s.dev.rx.sector := fun hon =>
      absurd hon.1 (BitVec.not_lt.2 htrack)
    have hended := rxDone_ended s 0 (some 0o040)
    rw [if_pos htrack, if_neg fun hand => hoff hand.1, if_neg fun hand => hoff hand.1]
    exact ⟨hended.buf, hended.disk⟩
  rw [if_neg htrack]
  by_cases hsector : s.dev.rx.sector = 0 ∨ rxNumsc < s.dev.rx.sector
  · have hoff : ¬RxOnDisk s.dev.rx.track s.dev.rx.sector := by
      rintro ⟨-, h0, hle⟩
      rcases hsector with hz | hlt
      · exact h0 hz
      · exact absurd hle (BitVec.not_le.2 hlt)
    have hended := rxDone_ended { s with dev.rx.curTrack := s.dev.rx.track } 0 (some 0o070)
    rw [if_pos hsector, if_neg fun hand => hoff hand.1, if_neg fun hand => hoff hand.1]
    exact ⟨hended.buf, hended.disk⟩
  obtain ⟨h0, hle⟩ := not_or.1 hsector
  have hon : RxOnDisk s.dev.rx.track s.dev.rx.sector :=
    ⟨BitVec.not_le.1 htrack, h0, BitVec.not_lt.1 hle⟩
  rw [if_neg hsector]
  by_cases hread : rxFunc s.dev.rx = rxFuncRead
  · have hwrdel : ¬rxFunc s.dev.rx = rxFuncWrdel := by
      rw [hread]
      decide
    have hended := rxDone_ended { s with
      dev.rx.curTrack := s.dev.rx.track
      dev.rx.buf := fun i => s.dev.rx.disk.read
        (rxSectorAddr s.dev.rx.track s.dev.rx.sector + i.setWidth 32) } 0 (some 0)
    rw [if_neg hwrdel, if_pos hread, if_pos ⟨hon, hread⟩, if_neg fun hand => hand.2 hread]
    exact ⟨hended.buf, hended.disk⟩
  · have hended (rxes : Byte) (disk : ByteImage) := rxDone_ended { s with
      dev.rx.curTrack := s.dev.rx.track
      dev.rx.rxes := rxes
      dev.rx.disk := disk } 0 (some 0)
    have hbuf : ¬(RxOnDisk s.dev.rx.track s.dev.rx.sector ∧ rxFunc s.dev.rx = rxFuncRead) :=
      fun hand => hread hand.2
    by_cases hwrdel : rxFunc s.dev.rx = rxFuncWrdel
    · rw [if_pos hwrdel, if_neg hread, if_neg hbuf, if_pos ⟨hon, hread⟩]
      generalize (List.range 128).foldl _ _ = saved
      exact ⟨(hended _ saved).buf, (hended _ saved).disk⟩
    · rw [if_neg hwrdel, if_neg hread, if_neg hbuf, if_pos ⟨hon, hread⟩]
      generalize (List.range 128).foldl _ _ = saved
      exact ⟨(hended _ saved).buf, (hended _ saved).disk⟩

/-- A loop that stores bytes of the buffer into an attached image. -/
theorem foldl_image (n : ℕ) (hn : n < 2 ^ 32) (d : BitVec 32 → Byte) (da : BitVec 32)
    (buf : BitVec 7 → Byte) : ∃ d', (List.range n).foldl (fun d i =>
        ByteImage.write d (da + BitVec.ofNat 32 i) (buf (BitVec.ofNat 7 i))) (some d) = some d' ∧
      (CellStore.ofFun (BitVec 32) Byte).Laid (fun i => da + BitVec.ofNat 32 i)
        ((List.range n).map fun i => buf (BitVec.ofNat 7 i)) d d' := by
  refine ⟨_, ?_, CellStore.Laid.foldl n (fun i => buf (BitVec.ofNat 7 i)) ?_ d⟩
  · exact List.foldl_hom some fun _ _ => rfl
  · intro i j hi hj h
    exact CellStore.offset_inj (by omega) (by omega) h

/-- A saved sector holds the buffer, and the rest of the disk what it held. -/
theorem rxSaved_read {disk : ByteImage} (hdisk : disk.isSome) (da : BitVec 32)
    (buf : BitVec 7 → Byte) : (rxSaved disk da buf).isSome ∧
      (∀ i, i < 128 →
        (rxSaved disk da buf).read (da + BitVec.ofNat 32 i) = buf (BitVec.ofNat 7 i)) ∧
      ∀ a, (∀ i, i < 128 → a ≠ da + BitVec.ofNat 32 i) →
        (rxSaved disk da buf).read a = disk.read a := by
  obtain ⟨d, rfl⟩ := Option.isSome_iff_exists.1 hdisk
  obtain ⟨d', hsaved, hlaid⟩ := foldl_image 128 (by norm_num) d da buf
  rw [rxSaved, hsaved]
  refine ⟨rfl, fun i hi => ?_, fun a ha => ?_⟩
  · have hbyte := hlaid.laid i (by simpa using hi)
    rw [List.getElem?_map, List.getElem?_range hi] at hbyte
    exact (Option.some.inj hbyte).symm
  · exact hlaid.kept a fun i hi => ha i (by simpa using hi)

/-- The sector of a transfer command. -/
theorem rxWrite_sector {s : Cpu} (w : Word) (hstate : s.dev.rx.state = .rwds)
    (htr : s.dev.rx.rxcs &&& rxcsTr ≠ 0) :
    (rxWrite s 0o177172 w).dev.rx = { s.dev.rx with
      rxdb := w.setWidth 8
      sector := w.setWidth 8 &&& 0o177
      rxcs := (s.dev.rx.rxcs &&& ~~~rxcsTr) ||| rxcsTr
      state := .rwdt } := by
  rw [rxWrite_data w (by rw [hstate]; decide) htr (by rw [hstate]; decide)]
  unfold rxStep
  dsimp only
  rw [hstate]

/-- The track of a transfer command, which carries it out. -/
theorem rxWrite_track {s : Cpu} (w : Word) (hstate : s.dev.rx.state = .rwdt)
    (htr : s.dev.rx.rxcs &&& rxcsTr ≠ 0) :
    rxWrite s 0o177172 w = rxTransfer { s with
      dev.rx.rxdb := w.setWidth 8
      dev.rx.rxcs := s.dev.rx.rxcs &&& ~~~rxcsTr
      dev.rx.track := w.setWidth 8
      dev.rx.state := .rwxfr } := by
  rw [rxWrite_data w (by rw [hstate]; decide) htr (by rw [hstate]; decide)]
  unfold rxStep
  dsimp only
  rw [hstate]

/-- What a completed transfer command leaves in the buffer and on the disk. -/
theorem Transfers.ended {func : Word} {sector track : Byte} {s t : Cpu}
    (h : Transfers func sector track s t)
    (hfunc : func = rxFuncRead ∨ func = rxFuncWrite ∨ func = rxFuncWrdel)
    (hs : RxIdle s.dev.rx) (hdisk : s.dev.rx.disk.isSome) :
    RxIdle t.dev.rx ∧
      t.dev.rx.buf = (if RxOnDisk track sector ∧ func = rxFuncRead then
          fun i => s.dev.rx.disk.read (rxSectorAddr track sector + i.setWidth 32)
        else s.dev.rx.buf) ∧
      t.dev.rx.disk = if RxOnDisk track sector ∧ func ≠ rxFuncRead then
          rxSaved s.dev.rx.disk (rxSectorAddr track sector) s.dev.rx.buf
        else s.dev.rx.disk := by
  obtain ⟨u, value, w, w', hpolls, hlaunch, rfl, rfl, hgives⟩ := h
  have hu : u.dev.rx.state = .idle := by
    rw [hpolls.rx]
    exact hs.state
  rw [rxWrite_launches hlaunch hu] at hgives
  cases hgives with
  | @cons _ _ _ t1 _ hpolls1 hrest =>
    have ht1 := hpolls1.rx.trans (rxGo_transfer hlaunch hfunc)
    have hsector := rxWrite_sector (s := t1) w (by rw [ht1]) (by rw [ht1]; exact or_tr_ne _)
    cases hrest with
    | @cons _ _ _ t2 _ hpolls2 hrest =>
      have ht2 := hpolls2.rx.trans hsector
      rw [ht1, hpolls.rx] at ht2
      dsimp only at ht2
      have htrack := rxWrite_track (s := t2) w' (by rw [ht2]) (by rw [ht2]; exact or_tr_ne _)
      cases hrest with
      | nil hpolls3 =>
        rw [hpolls3.rx, htrack]
        have hbuf : t2.dev.rx.buf = s.dev.rx.buf := by rw [ht2]
        have hdisk' : t2.dev.rx.disk = s.dev.rx.disk := by rw [ht2]
        have hsector' : t2.dev.rx.sector = w.setWidth 8 &&& 0o177 := by rw [ht2]
        have hfunc' : ((t2.dev.rx.rxcs &&& ~~~rxcsTr) >>> 1) &&& 7 = func := by
          rw [ht2, rxFunc_clear_tr, rxFunc_or_tr, rxFunc_clear_tr, rxFunc_or_tr]
          exact hlaunch.loaded
        exact rxTransfer_ended hfunc' rfl hsector' hbuf hdisk' hdisk (clear_tr _)

/-! ## A sector that stays -/

section Sector

variable {track sector : Byte} {data : List Byte} {s t : Cpu}

/-- Two sectors of the disk share no byte. -/
theorem sector_disjoint {track' sector' : Byte} (h : RxOnDisk track sector)
    (h' : RxOnDisk track' sector') {i j : ℕ} (hi : i < 128) (hj : j < 128)
    (heq : rxSectorAddr track sector + BitVec.ofNat 32 i =
      rxSectorAddr track' sector' + BitVec.ofNat 32 j) : sector' = sector ∧ track' = track := by
  have haddr := rxSectorAddr_toNat h.1 h.2.1 h.2.2
  have haddr' := rxSectorAddr_toNat h'.1 h'.2.1 h'.2.2
  have ht : track.toNat < 77 := BitVec.lt_def.1 h.1
  have ht' : track'.toNat < 77 := BitVec.lt_def.1 h'.1
  have hs : sector.toNat ≤ 26 := BitVec.le_def.1 h.2.2
  have hs' : sector'.toNat ≤ 26 := BitVec.le_def.1 h'.2.2
  have hpos : sector.toNat ≠ 0 := fun hz => h.2.1 (BitVec.eq_of_toNat_eq hz)
  have hpos' : sector'.toNat ≠ 0 := fun hz => h'.2.1 (BitVec.eq_of_toNat_eq hz)
  have hval := congrArg BitVec.toNat heq
  rw [BitVec.toNat_add, BitVec.toNat_add, BitVec.toNat_ofNat, BitVec.toNat_ofNat, haddr,
    haddr'] at hval
  constructor
  · apply BitVec.eq_of_toNat_eq
    omega
  · apply BitVec.eq_of_toNat_eq
    omega

/-- An idle controller whose disk holds the data in a sector. -/
structure SectorHolds (track sector : Byte) (data : List Byte) (rx : Rx11) : Prop where
  idle : RxIdle rx
  attached : rx.disk.isSome
  bytes : ∀ i, i < 128 →
    data[i]? = some (rx.disk.read (rxSectorAddr track sector + BitVec.ofNat 32 i))

/-- A completed FILL, READ or WRITE that does not write the sector. -/
inductive LeavesSector (track sector : Byte) (s t : Cpu) : Prop
  | fill (ws : List Word) (h : Fills ws s t)
  | read (track' sector' : Byte) (h : Transfers rxFuncRead sector' track' s t)
  | write (func : Word) (track' sector' : Byte) (hfunc : func = rxFuncWrite ∨ func = rxFuncWrdel)
      (h : Transfers func sector' track' s t) (hother : ¬(sector' = sector ∧ track' = track))

theorem SectorHolds.leaves (hon : RxOnDisk track sector) (h : SectorHolds track sector data s.dev.rx)
    (hst : LeavesSector track sector s t) : SectorHolds track sector data t.dev.rx := by
  have hkept (hidle : RxIdle t.dev.rx) (hdisk : t.dev.rx.disk = s.dev.rx.disk) :
      SectorHolds track sector data t.dev.rx := by
    refine ⟨hidle, ?_, fun i hi => ?_⟩
    · rw [hdisk]
      exact h.attached
    · rw [hdisk]
      exact h.bytes i hi
  cases hst with
  | fill ws hfills =>
    obtain ⟨hidle, hdisk, -⟩ := hfills.buffer h.idle
    exact hkept hidle hdisk
  | read track' sector' hread =>
    obtain ⟨hidle, -, hdisk⟩ := hread.ended (.inl rfl) h.idle h.attached
    rw [if_neg fun hand => hand.2 rfl] at hdisk
    exact hkept hidle hdisk
  | write func track' sector' hfunc hwrite hother =>
    obtain ⟨hidle, -, hdisk⟩ := hwrite.ended (.inr hfunc) h.idle h.attached
    by_cases hon' : RxOnDisk track' sector'
    · have hnread : func ≠ rxFuncRead := by
        rcases hfunc with rfl | rfl <;> decide
      obtain ⟨hsome, -, hrest⟩ :=
        rxSaved_read h.attached (rxSectorAddr track' sector') s.dev.rx.buf
      rw [if_pos ⟨hon', hnread⟩] at hdisk
      refine ⟨hidle, ?_, fun i hi => ?_⟩
      · rw [hdisk]
        exact hsome
      · rw [hdisk, hrest _ fun j hj heq => hother (sector_disjoint hon hon' hi hj heq)]
        exact h.bytes i hi
    · rw [if_neg fun hand => hon' hand.1] at hdisk
      exact hkept hidle hdisk

theorem SectorHolds.leaves_run (hon : RxOnDisk track sector)
    (h : SectorHolds track sector data s.dev.rx)
    (hst : Relation.ReflTransGen (LeavesSector track sector) s t) :
    SectorHolds track sector data t.dev.rx := by
  induction hst with
  | refl => exact h
  | tail _ hlast ih => exact ih.leaves hon hlast

end Sector

/-- FILL and WRITE a sector, any completed commands that do not write it, READ it and EMPTY: the
bytes taken are those given, in order; every command ends idle with DONE; and the WRITE changes no
byte of the disk outside the sector. -/
theorem floppy_round_trip {s s₁ s₂ s₃ s₄ s₅ : Cpu} {ws vs : List Word} {track sector : Byte}
    (htrack : track.toNat ≤ 76) (hsector : 1 ≤ sector.toNat ∧ sector.toNat ≤ 26)
    (hidle : RxIdle s.dev.rx) (hdisk : s.dev.rx.disk.isSome) (hfill : Fills ws s s₁)
    (hwrite : Transfers rxFuncWrite sector track s₁ s₂)
    (hothers : Relation.ReflTransGen (LeavesSector track sector) s₂ s₃)
    (hread : Transfers rxFuncRead sector track s₃ s₄) (hempty : Empties vs s₄ s₅) :
    vs = ws.map (fun w => (w.setWidth 8).setWidth 16) ∧
      (RxIdle s₁.dev.rx ∧ RxIdle s₂.dev.rx ∧ RxIdle s₃.dev.rx ∧ RxIdle s₄.dev.rx ∧
        RxIdle s₅.dev.rx) ∧
      ∀ i : BitVec 32, i.toNat < (track.toNat * 26 + (sector.toNat - 1)) * 128 ∨
          (track.toNat * 26 + (sector.toNat - 1)) * 128 + 128 ≤ i.toNat →
        s₂.dev.rx.disk.read i = s₁.dev.rx.disk.read i := by
  have hon : RxOnDisk track sector := by
    refine ⟨BitVec.lt_def.2 (Nat.lt_succ_of_le htrack), ?_, BitVec.le_def.2 hsector.2⟩
    rintro rfl
    exact absurd hsector.1 (by decide)
  have haddr := rxSectorAddr_toNat hon.1 hon.2.1 hon.2.2
  -- the buffer after FILL, the sector after WRITE, and both again on the way back
  obtain ⟨hidle₁, hdisk₁, hbuf₁⟩ := hfill.buffer hidle
  have hsome₁ : s₁.dev.rx.disk.isSome := by
    rw [hdisk₁]
    exact hdisk
  obtain ⟨hidle₂, -, hdisk₂⟩ := hwrite.ended (.inr (.inl rfl)) hidle₁ hsome₁
  rw [if_pos ⟨hon, by decide⟩] at hdisk₂
  obtain ⟨hsome₂, hsaved, hrest⟩ :=
    rxSaved_read hsome₁ (rxSectorAddr track sector) s₁.dev.rx.buf
  have hholds₂ : SectorHolds track sector (ws.map (BitVec.setWidth 8)) s₂.dev.rx := by
    refine ⟨hidle₂, ?_, fun i hi => ?_⟩
    · rw [hdisk₂]
      exact hsome₂
    · rw [hdisk₂, hsaved i hi]
      exact hbuf₁ i hi
  have hholds₃ := hholds₂.leaves_run hon hothers
  obtain ⟨hidle₄, hbuf₄, -⟩ := hread.ended (.inl rfl) hholds₃.idle hholds₃.attached
  rw [if_pos ⟨hon, rfl⟩] at hbuf₄
  obtain ⟨hidle₅, htaken⟩ := hempty.buffer hidle₄
  refine ⟨?_, ⟨hidle₁, hidle₂, hholds₃.idle, hidle₄, hidle₅⟩, fun i hi => ?_⟩
  · obtain ⟨-, -, -, -, hlen, -⟩ := hfill
    obtain ⟨-, -, -, -, hlen', -⟩ := hempty
    apply List.ext_getElem?
    intro i
    by_cases hi : i < 128
    · have hbyte := hholds₃.bytes i hi
      have hindex : (BitVec.ofNat 7 i).setWidth 32 = BitVec.ofNat 32 i := by
        apply BitVec.eq_of_toNat_eq
        rw [BitVec.toNat_setWidth, BitVec.toNat_ofNat, BitVec.toNat_ofNat]
        omega
      rw [htaken i hi, hbuf₄]
      dsimp only
      rw [hindex]
      rw [List.getElem?_map, Option.map_eq_some_iff] at hbyte
      obtain ⟨w, hw, hlow⟩ := hbyte
      rw [List.getElem?_map, hw, Option.map_some, hlow]
    · rw [List.getElem?_eq_none (by omega), List.getElem?_eq_none (by simpa [hlen] using hi)]
  · rw [hdisk₂]
    apply hrest
    rintro k hk rfl
    rw [BitVec.toNat_add, BitVec.toNat_ofNat, haddr] at hi
    omega

/-- Words given one after the other. -/
def giveWords (ws : List Word) (s : Cpu) : Cpu := ws.foldl (fun s w => rxWrite s 0o177172 w) s

/-- Words taken one after the other. -/
def takeWords : ℕ → Cpu → List Word × Cpu
  | 0, s => ([], s)
  | n + 1, s =>
    let (vs, t) := takeWords n (rxRead s 0o177172).2
    ((rxRead s 0o177172).1 :: vs, t)

theorem giveWords_gives (ws : List Word) (s : Cpu) : Gives ws s (giveWords ws s) := by
  induction ws generalizing s with
  | nil => exact .nil .refl
  | cons w ws ih => exact .cons .refl (ih _)

theorem takeWords_takes (n : ℕ) (s : Cpu) :
    Takes (takeWords n s).1 s (takeWords n s).2 ∧ (takeWords n s).1.length = n := by
  induction n generalizing s with
  | zero => exact ⟨.nil .refl, rfl⟩
  | succ n ih =>
    obtain ⟨htakes, hlen⟩ := ih (rxRead s 0o177172).2
    refine ⟨.cons .refl htakes, ?_⟩
    show (takeWords n (rxRead s 0o177172).2).1.length + 1 = n + 1
    rw [hlen]

/-- Numbered bytes, written to the last sector and read back at once. -/
def numbered : List Word := (List.range 128).map (BitVec.ofNat 16)

def floppyFilled : Cpu :=
  giveWords numbered (rxWrite (rxAttach (rxResetState cpuCreate) (some fun _ => 0) 256256)
    0o177170 1)

def floppyWritten : Cpu := giveWords [26, 76] (rxWrite floppyFilled 0o177170 5)

def floppyRead : Cpu := giveWords [26, 76] (rxWrite floppyWritten 0o177170 7)

def floppyEmptied : List Word × Cpu := takeWords 128 (rxWrite floppyRead 0o177170 3)

theorem numbered_round_trip :
    floppyEmptied.1 = numbered.map fun w => (w.setWidth 8).setWidth 16 := by
  obtain ⟨htakes, hlen⟩ := takeWords_takes 128 (rxWrite floppyRead 0o177170 3)
  have hreset := rxResetState_idle cpuCreate
  have hstart : RxIdle (rxAttach (rxResetState cpuCreate) (some fun _ => 0) 256256).dev.rx :=
    ⟨hreset.state, hreset.done, hreset.tr⟩
  have hfill : Fills numbered (rxAttach (rxResetState cpuCreate) (some fun _ => 0) 256256)
      floppyFilled :=
    ⟨_, 1, .refl, ⟨by decide, by decide, by decide⟩, by simp [numbered], giveWords_gives _ _⟩
  have hwrite : Transfers rxFuncWrite 26 76 floppyFilled floppyWritten :=
    ⟨_, 5, 26, 76, .refl, ⟨by decide, by decide, by decide⟩, by decide, by decide,
      giveWords_gives _ _⟩
  have hread : Transfers rxFuncRead 26 76 floppyWritten floppyRead :=
    ⟨_, 7, 26, 76, .refl, ⟨by decide, by decide, by decide⟩, by decide, by decide,
      giveWords_gives _ _⟩
  exact (floppy_round_trip (by decide) (by decide) hstart rfl hfill hwrite .refl hread
    ⟨_, 3, .refl, ⟨by decide, by decide, by decide⟩, hlen, htakes⟩).1

end Pdp11
