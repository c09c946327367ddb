import Pdp11.TapeStatus
import Pdp11.TapeTransfer

namespace Pdp11

/-! The 18-bit memory address of the tape controller, and the carry between its two registers. -/

abbrev tmMtcma : Word := 0o172526

/-- The memory address as a program reads it: the field of MTC above the 16 bits of MTCMA. -/
def tmAddress (s : Cpu) : ℕ := (tmGetEma (mtc s)).toNat + (tmRead s tmMtcma).1.toNat

/-- The bytes that a READ or a WRITE moves: of a record no more than are asked for, and nothing at
a mark, past the end of the image or where a record does not fit. -/
def bytesMoved (tm : Tm11) : TapeOperation → ℕ
  | .read =>
    let rl := tapLenAt tm tm.pos
    if rl = 0 ∨ rl = 0xFFFFFFFF then 0 else min rl.toNat (tmByteCount tm).toNat
  | .write =>
    if tm.wrp ∨ tm.tapeLen < tapPast tm.pos (tmByteCount tm) then 0 else (tmByteCount tm).toNat
  | _ => 0

/-! ## The two registers -/

theorem tmGetEma_extract (c : Word) : tmGetEma c = (c.extractLsb' 4 2).setWidth 32 <<< 16 := by
  unfold tmGetEma mtcEma
  apply BitVec.eq_of_getLsbD_eq
  intro i hi
  interval_cases i <;> simp

theorem tmGetEma_toNat (c : Word) : (tmGetEma c).toNat = 2 ^ 16 * (c.extractLsb' 4 2).toNat := by
  have hlt := (c.extractLsb' 4 2).isLt
  rw [tmGetEma_extract, BitVec.toNat_shiftLeft, BitVec.toNat_setWidth, Nat.shiftLeft_eq]
  omega

/-- What MTC shows besides the command is not in the field. -/
theorem tmGetEma_mtc (s : Cpu) : tmGetEma (mtc s) = tmGetEma s.dev.tm.cmd := by
  have herr : mtcErr &&& mtcEma = 0 := by decide
  have hcmd : (s.dev.tm.cmd &&& ~~~mtcErr) &&& mtcEma = s.dev.tm.cmd &&& mtcEma :=
    BitMask.and_not_and_eq _ herr
  have hmtc : mtc s &&& mtcEma = s.dev.tm.cmd &&& mtcEma := by
    show (if _ then _ else _) &&& mtcEma = _
    split
    · exact (BitMask.or_and_eq _ herr).trans hcmd
    · exact hcmd
  unfold tmGetEma
  rw [hmtc]

/-- The address that the command starts from. -/
theorem busAddress_toNat (s : Cpu) :
    (tmGetEma s.dev.tm.cmd ||| s.dev.tm.ca.setWidth 32).toNat = tmAddress s := by
  have hca := s.dev.tm.ca.isLt
  have hread : (tmRead s tmMtcma).1 = s.dev.tm.ca := rfl
  have hwide : (s.dev.tm.ca.setWidth 32).toNat = s.dev.tm.ca.toNat := by
    rw [BitVec.toNat_setWidth]
    omega
  rw [tmAddress, tmGetEma_mtc, hread, BitVec.toNat_or, hwide, tmGetEma_toNat]
  exact (Nat.two_pow_add_eq_or_of_lt hca _).symm

/-! ## Transfers -/

/-- MTCMA takes the low 16 bits of an advanced address. -/
theorem ca_advance {s : Cpu} {xma n : BitVec 32} (hxma : xma.setWidth 16 = s.dev.tm.ca) :
    ((xma + n).setWidth 16 : Word) = s.dev.tm.ca + BitVec.ofNat 16 n.toNat := by
  rw [BitVec.setWidth_add _ _ (by omega), hxma, BitVec.ofNat_toNat]

theorem tmExecRead_ca {s : Cpu} {xma : BitVec 32} (hxma : xma.setWidth 16 = s.dev.tm.ca) :
    (tmExecRead s xma (tmByteCount s.dev.tm)).dev.tm.ca =
      s.dev.tm.ca + BitVec.ofNat 16 (bytesMoved s.dev.tm .read) := by
  unfold tmExecRead bytesMoved
  dsimp only
  by_cases hmark : tapLenAt s.dev.tm s.dev.tm.pos = 0
  · rw [if_pos hmark, if_pos (.inl hmark)]
    exact (BitVec.add_zero _).symm
  · by_cases hend : tapLenAt s.dev.tm s.dev.tm.pos = 0xFFFFFFFF
    · rw [if_neg hmark, if_pos hend, if_pos (.inr hend)]
      exact (BitVec.add_zero _).symm
    · rw [if_neg hmark, if_neg hend, if_neg (not_or.2 ⟨hmark, hend⟩)]
      by_cases hshort : tapLenAt s.dev.tm s.dev.tm.pos < tmByteCount s.dev.tm
      · rw [if_pos hshort, Nat.min_eq_left (Nat.le_of_lt hshort)]
        exact ca_advance hxma
      · rw [if_neg hshort, Nat.min_eq_right (Nat.le_of_not_lt hshort)]
        exact ca_advance hxma

theorem tmExecWrite_ca {s : Cpu} {xma : BitVec 32} (hxma : xma.setWidth 16 = s.dev.tm.ca) :
    (tmExecWrite s xma (tmByteCount s.dev.tm)).dev.tm.ca =
      s.dev.tm.ca + BitVec.ofNat 16 (bytesMoved s.dev.tm .write) := by
  unfold tmExecWrite bytesMoved
  dsimp only
  by_cases hrefused : s.dev.tm.wrp ∨
      s.dev.tm.tapeLen < tapPast s.dev.tm.pos (tmByteCount s.dev.tm)
  · rw [if_pos hrefused, if_pos hrefused]
    exact (BitVec.add_zero _).symm
  · rw [if_neg hrefused, if_neg hrefused]
    exact ca_advance hxma

theorem tmExecRead_cmd (s : Cpu) (xma cbc : BitVec 32) :
    (tmExecRead s xma cbc).dev.tm.cmd = s.dev.tm.cmd := by
  have hloop (l : List ℕ) (t : Cpu) : (l.foldl (fun t i =>
      tmMemWriteByte t ((xma + BitVec.ofNat 32 i) &&& 0o777777)
        (t.dev.tm.tape.read (s.dev.tm.pos + 4 + BitVec.ofNat 32 i))) t).dev = t.dev :=
    l.foldlRecOn (motive := fun u : Cpu => u.dev = t.dev) _ rfl fun _ hu _ _ => hu
  unfold tmExecRead
  dsimp only
  split
  · rfl
  split
  · rfl
  dsimp only
  rw [hloop]
  split <;> rfl

theorem tmExecWrite_cmd (s : Cpu) (xma cbc : BitVec 32) :
    (tmExecWrite s xma cbc).dev.tm.cmd = s.dev.tm.cmd := by
  have hloop (l : List ℕ) (t : Cpu) : (l.foldl (fun t i =>
      let b := tmMemReadByte t ((xma + BitVec.ofNat 32 i) &&& 0o777777)
      { t with dev.tm.tape := t.dev.tm.tape.write (s.dev.tm.pos + 4 + BitVec.ofNat 32 i) b })
      t).dev.tm.cmd = t.dev.tm.cmd :=
    l.foldlRecOn (motive := fun u : Cpu => u.dev.tm.cmd = t.dev.tm.cmd) _ rfl
      fun _ hu _ _ => hu
  unfold tmExecWrite
  dsimp only
  split
  · rfl
  split <;> exact hloop _ _

/-- A completed command keeps the address of what it executed. -/
theorem tmSetDone_address (s : Cpu) :
    tmAddress (tmSetDone s) = (tmGetEma s.dev.tm.cmd).toNat + s.dev.tm.ca.toNat := by
  have hdone : mtcDone &&& mtcEma = 0 := by decide
  have hread : (tmRead (tmSetDone s) tmMtcma).1 = (tmSetDone s).dev.tm.ca := rfl
  have hema : tmGetEma (s.dev.tm.cmd ||| mtcDone) = tmGetEma s.dev.tm.cmd := by
    unfold tmGetEma
    rw [BitMask.or_and_eq _ hdone]
  rw [tmAddress, tmGetEma_mtc, hread, tmSetDone_tm]
  dsimp only
  rw [hema]

/-- A transfer counts on in MTCMA, and leaves the field of MTC as it was. -/
theorem tmPoll_address {s : Cpu} {op : TapeOperation} (h : tmPollOperation s = some op)
    (hop : op = .read ∨ op = .write) :
    tmAddress (tmPoll s) = (tmGetEma s.dev.tm.cmd).toNat +
      (s.dev.tm.ca.toNat + bytesMoved s.dev.tm op) % 2 ^ 16 := by
  have hxma : (tmGetEma s.dev.tm.cmd ||| s.dev.tm.ca.setWidth 32).setWidth 16 = s.dev.tm.ca := by
    have hread : (tmRead s tmMtcma).1 = s.dev.tm.ca := rfl
    apply BitVec.eq_of_toNat_eq
    rw [BitVec.toNat_setWidth, busAddress_toNat, tmAddress, tmGetEma_toNat, hread]
    omega
  have hsum (k : ℕ) : (s.dev.tm.ca + BitVec.ofNat 16 k).toNat =
      (s.dev.tm.ca.toNat + k) % 2 ^ 16 := by
    rw [BitVec.toNat_add, BitVec.toNat_ofNat]
    omega
  rw [tmPoll_eq, h]
  dsimp only
  rcases hop with rfl | rfl
  · show tmAddress (tmExecute s tmFncRead) = _
    rw [tmExecute_read, tmSetDone_address, tmExecRead_cmd, tmExecRead_ca hxma, hsum]
  · show tmAddress (tmExecute s tmFncWrite) = _
    rw [tmExecute_write, tmSetDone_address, tmExecWrite_cmd, tmExecWrite_ca hxma, hsum]

theorem bytesMoved_lt (tm : Tm11) (op : TapeOperation) : bytesMoved tm op < 2 ^ 16 := by
  have hcount := tmByteCount_lt tm
  unfold bytesMoved
  dsimp only
  split
  · split
    · omega
    · exact Nat.lt_of_le_of_lt (Nat.min_le_right _ _) hcount
  · split <;> omega
  · omega

/-- After a READ or a WRITE the address has gone on by the bytes moved exactly when that does not
carry out of MTCMA. -/
theorem tape_address_carries_iff {s : Cpu} {op : TapeOperation} (h : tmPollOperation s = some op)
    (hop : op = .read ∨ op = .write) :
    tmAddress (tmPoll s) = (tmAddress s + bytesMoved s.dev.tm op) % 2 ^ 18 ↔
      (tmRead s tmMtcma).1.toNat + bytesMoved s.dev.tm op < 2 ^ 16 := by
  have hca := s.dev.tm.ca.isLt
  have hema := (s.dev.tm.cmd.extractLsb' 4 2).isLt
  have hmoved := bytesMoved_lt s.dev.tm op
  have hread : (tmRead s tmMtcma).1 = s.dev.tm.ca := rfl
  rw [tmPoll_address h hop, tmAddress, tmGetEma_mtc, hread, tmGetEma_toNat]
  omega

/-- Three bytes written from the last two of 64 KB on. -/
def crossingWrite : Cpu := commanded tapeMachine 3 0o177776 0o5

/-- The address starts again from the bottom of the 64 KB. -/
theorem tape_address_wraps : ¬∀ (s : Cpu) (op : TapeOperation), tmPollOperation s = some op →
    op = .read ∨ op = .write →
      tmAddress (tmPoll s) = (tmAddress s + bytesMoved s.dev.tm op) % 2 ^ 18 := by
  intro h
  have hwrong := h crossingWrite .write (by decide) (.inr rfl)
  have hstart : tmAddress crossingWrite = 0o177776 := by decide
  have hmoved : bytesMoved crossingWrite.dev.tm .write = 3 := by decide
  have hafter : tmAddress (tmPoll crossingWrite) = 1 := by decide
  rw [hstart, hmoved, hafter] at hwrong
  exact absurd hwrong (by decide)

/-- Within 64 KB it goes on. -/
theorem tape_address_inside : tmAddress (tmPoll tapeWriting) = 0o1003 := by
  have hstart : tmAddress tapeWriting = 0o1000 := by decide
  have hmoved : bytesMoved tapeWriting.dev.tm .write = 3 := by decide
  have hread : (tmRead tapeWriting tmMtcma).1.toNat = 0o1000 := by decide
  have hdue : tmPollOperation tapeWriting = some .write := by decide
  have hgoes := (tape_address_carries_iff hdue (.inr rfl)).2
  rw [hstart, hmoved, hread] at hgoes
  exact hgoes (by decide)

end Pdp11
