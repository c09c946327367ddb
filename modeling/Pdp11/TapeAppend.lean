import Pdp11.TapeSpacing

namespace Pdp11

open ByteSequence RecordTape

/-! The record that a WRITE puts on the tape, and the count that leaves two marks in its place. -/

/-- The count of a WRITE, from 1 to 65536. -/
def writeCount (tm : Tm11) : ℕ := 65536 - tm.bc.toNat

/-- The bytes that a WRITE is to take from memory. -/
def writeData (u : Cpu) : List Byte :=
  tapeData u (tmGetEma u.dev.tm.cmd ||| u.dev.tm.ca.setWidth 32) (writeCount u.dev.tm)

/-- What a WRITE promises that is due behind the items before: one record more with the tape
behind it, and nothing else changed up to there. -/
structure AppendsRecord (before : List Item) (u : Cpu) : Prop where
  record : ∃ r : Record, r.data = writeData u ∧
    ItemAt (.record r) (image before).length (tmPoll u).dev.tm ∧
    (tmPoll u).dev.tm.pos.toNat = (image (before ++ [.record r])).length
  kept : ∀ i : BitVec 32, i.toNat < (image before).length →
    (tmPoll u).dev.tm.tape.read i = u.dev.tm.tape.read i

/-- A WRITE that is due on an attached tape that is not protected, between the items before and
those after it, with room for its record. -/
structure WriteReady (before after : List Item) (u : Cpu) : Prop where
  op : tmPollOperation u = some .write
  attached : u.dev.tm.tape.isSome
  unlocked : u.dev.tm.wrp = false
  holds : HoldsTape (before ++ after) u.dev.tm
  pos : u.dev.tm.pos.toNat = (image before).length
  fits : (image before).length + (8 + 2 * ((writeCount u.dev.tm + 1) / 2)) ≤
    u.dev.tm.tapeLen.toNat

theorem byteCount_of_ne {tm : Tm11} (h : tm.bc ≠ 0) : (tmByteCount tm).toNat = writeCount tm := by
  have hlt := tm.bc.isLt
  have hne : tm.bc.toNat ≠ 0 := fun heq => h (BitVec.eq_of_toNat_eq heq)
  have hval : tmByteCount tm = BitVec.ofNat 32 (writeCount tm) := by
    unfold writeCount
    apply byteCount_toNat (by omega) (by omega)
    apply BitVec.eq_of_toNat_eq
    rw [BitVec.toNat_ofNat]
    omega
  rw [hval, BitVec.toNat_ofNat, writeCount]
  omega

/-- A record of no bytes is its header and its trailer. -/
theorem tmExecWrite_zero {s : Cpu} (xma : BitVec 32)
    (hroom : ¬(s.dev.tm.wrp ∨ s.dev.tm.tapeLen < tapPast s.dev.tm.pos 0)) :
    tmExecWrite s xma 0 = { s with
      dev.tm.tape := tapWriteLen (tapWriteLen s.dev.tm.tape s.dev.tm.pos 0)
        (tapeKey s.dev.tm.pos 4) 0
      dev.tm.ca := (xma + 0).setWidth 16
      dev.tm.bc := 0
      dev.tm.pos := tapeKey s.dev.tm.pos 4 + 4 } := by
  have hzero : (0 : BitVec 32).toNat < 2 ^ 16 := by decide
  have hbehind : s.dev.tm.pos + 4 + ((0 + 1) &&& ~~~1) = tapeKey s.dev.tm.pos 4 :=
    tapeKey_trailer s.dev.tm.pos hzero
  have hnone : List.range (0 : BitVec 32).toNat = [] := rfl
  unfold tmExecWrite
  dsimp only
  rw [if_neg hroom, hnone, if_neg (by decide), hbehind]
  rfl

namespace WriteReady

variable {before after : List Item} {u : Cpu}

theorem poll (h : WriteReady before after u) : tmPoll u = tmSetDone (tmExecWrite u
    (tmGetEma u.dev.tm.cmd ||| u.dev.tm.ca.setWidth 32) (tmByteCount u.dev.tm)) := by
  rw [tmPoll_eq, h.op]
  exact tmExecute_write u

/-- A count other than 0 goes into the record's header, and the record is complete. -/
theorem appends (h : WriteReady before after u) (hbc : u.dev.tm.bc ≠ 0) :
    AppendsRecord before u := by
  obtain ⟨d, hd⟩ := Option.isSome_iff_exists.1 h.attached
  have hcount := byteCount_of_ne hbc
  have hpos : 0 < (tmByteCount u.dev.tm).toNat := by
    rw [hcount]
    exact Nat.sub_pos_of_lt u.dev.tm.bc.isLt
  let xma : BitVec 32 := tmGetEma u.dev.tm.cmd ||| u.dev.tm.ca.setWidth 32
  let r := tapeRecord u xma (tmByteCount u.dev.tm).toNat hpos
  have hdata : r.data = writeData u := by
    show tapeData u xma _ = tapeData u xma _
    rw [hcount]
  have hsize : (Item.record r).size = 8 + 2 * ((writeCount u.dev.tm + 1) / 2) := by
    rw [Item.size_record, hdata, writeData, length_tapeData]
  have hfits : u.dev.tm.pos.toNat + (Item.record r).size ≤ u.dev.tm.tapeLen.toNat := by
    rw [h.pos, hsize]
    exact h.fits
  -- the write lays the whole record and stores nowhere else
  obtain ⟨d', hexec, hlaid⟩ :=
    tmExecWrite_laid xma _ hd h.unlocked hpos (tmByteCount_lt _) hfits
  have htm : (tmPoll u).dev.tm = { u.dev.tm with
      tape := some d'
      ca := (xma + tmByteCount u.dev.tm).setWidth 16
      bc := 0
      pos := tapPast u.dev.tm.pos (tmByteCount u.dev.tm)
      busy := false
      cmd := u.dev.tm.cmd ||| mtcDone } := by
    rw [h.poll, tmSetDone_tm, hexec]
  have hlen := u.dev.tm.tapeLen.isLt
  refine ⟨⟨r, hdata, ?_, ?_⟩, fun i hi => ?_⟩
  · rw [← h.pos]
    apply itemAt_of_laid hlaid
    · rw [htm]
    · rw [htm]
      exact hfits
  · have hpad : tapPadded (tmByteCount u.dev.tm) = 2 * ((writeCount u.dev.tm + 1) / 2) := by
      rw [← hcount]
      apply tapPadded_eq
      intro heq
      have hlt := tmByteCount_lt u.dev.tm
      rw [heq] at hlt
      exact absurd hlt (by decide)
    rw [htm]
    show (tapPast u.dev.tm.pos _).toNat = _
    rw [tapPast_toNat (by omega), hpad, image_snoc, hsize, h.pos, Nat.add_assoc]
  · rw [htm, hd]
    apply hlaid.kept
    intro k hk heq
    have hk' : k < (Item.record r).size := hk
    have hkey : (tapeKey u.dev.tm.pos k).toNat = u.dev.tm.pos.toNat + k :=
      toNat_add_lt (by omega)
    rw [heq, hkey, h.pos] at hi
    omega

/-- A count of 0 is worked with as no bytes at all: the header and the trailer of what was to be a
record of 65536 bytes are two marks. -/
theorem marks (h : WriteReady before after u) (hbc : u.dev.tm.bc = 0) :
    ItemAt .mark (image before).length (tmPoll u).dev.tm ∧
      ItemAt .mark ((image before).length + 4) (tmPoll u).dev.tm ∧
      (tmPoll u).dev.tm.pos.toNat = (image before).length + 8 := by
  obtain ⟨d, hd⟩ := Option.isSome_iff_exists.1 h.attached
  have hcount : tmByteCount u.dev.tm = 0 := by
    unfold tmByteCount
    rw [hbc]
    rfl
  have hbig : writeCount u.dev.tm = 65536 := by
    unfold writeCount
    rw [hbc]
    rfl
  have hfits := h.fits
  rw [hbig] at hfits
  have hlen := u.dev.tm.tapeLen.isLt
  have hpos := h.pos
  let xma : BitVec 32 := tmGetEma u.dev.tm.cmd ||| u.dev.tm.ca.setWidth 32
  have hpad : tapPadded 0 = 0 := rfl
  have hpast : (tapPast u.dev.tm.pos 0).toNat = u.dev.tm.pos.toNat + 8 := by
    rw [tapPast_toNat (by omega), hpad]
  have hroom : ¬(u.dev.tm.wrp = true ∨ u.dev.tm.tapeLen < tapPast u.dev.tm.pos 0) := by
    rintro (hprot | hover)
    · rw [h.unlocked] at hprot
      cases hprot
    · rw [BitVec.lt_def] at hover
      omega
  have hzero : (0 : BitVec 32).toNat < 2 ^ 16 := by decide
  -- a header and a trailer of length 0, with no byte between
  obtain ⟨d1, h1, hheader⟩ := tapWriteLen_laid d u.dev.tm.pos hzero
  obtain ⟨d2, h2, htrailer⟩ := tapWriteLen_laid d1 (tapeKey u.dev.tm.pos 4) hzero
  have hnext : (tapeKey u.dev.tm.pos 4 + 4).toNat = (image before).length + 8 := by
    rw [tapeKey]
    bv_omega
  have htm : (tmPoll u).dev.tm = { u.dev.tm with
      tape := some d2
      ca := (xma + 0).setWidth 16
      bc := 0
      pos := tapeKey u.dev.tm.pos 4 + 4
      busy := false
      cmd := u.dev.tm.cmd ||| mtcDone } := by
    rw [h.poll, tmSetDone_tm, hcount, tmExecWrite_zero xma hroom, hd, h1, h2]
  have hmarks := hheader.append (length_littleEndian 4 0) (by simpa only [tapeKey_add] using htrailer)
    (fun i j hi hj heq => by
      rw [length_littleEndian] at hj
      have hij := tapeKey_inj (by omega) (by omega) heq
      omega)
  refine ⟨?_, ?_, ?_⟩
  · rw [← hpos]
    have hfirst : tapeStoreBytes.Laid (tapeKey u.dev.tm.pos) Item.mark.bytes d2 d2 := by
      refine ⟨fun i hi => ?_, fun _ _ => rfl⟩
      have hi' : i < (littleEndian 4 (0 : BitVec 32)).length := hi
      rw [← hmarks.laid i (by rw [List.length_append]; omega), List.getElem?_append_left hi']
      rfl
    apply itemAt_of_laid hfirst
    · rw [htm]
    · rw [htm, Item.size_mark]
      show u.dev.tm.pos.toNat + 4 ≤ u.dev.tm.tapeLen.toNat
      omega
  · have hkey : (tapeKey u.dev.tm.pos 4).toNat = (image before).length + 4 := by
      rw [← hpos]
      exact toNat_add_lt (by omega)
    have hsecond : tapeStoreBytes.Laid (tapeKey (tapeKey u.dev.tm.pos 4)) Item.mark.bytes d1 d2 :=
      htrailer
    rw [← hkey]
    apply itemAt_of_laid hsecond
    · rw [htm]
    · rw [htm, Item.size_mark]
      show (tapeKey u.dev.tm.pos 4).toNat + 4 ≤ u.dev.tm.tapeLen.toNat
      omega
  · rw [htm]
    exact hnext

theorem not_appends (h : WriteReady before after u) (hbc : u.dev.tm.bc = 0) :
    ¬AppendsRecord before u := by
  rintro ⟨⟨r, hdata, -, hpos⟩, -⟩
  have hbig : writeCount u.dev.tm = 65536 := by
    unfold writeCount
    rw [hbc]
    rfl
  have hsize : (Item.record r).size = 65544 := by
    rw [Item.size_record, hdata, writeData, length_tapeData, hbig]
  have hmarks := (h.marks hbc).2.2
  rw [hpos, image_snoc, hsize] at hmarks
  omega

end WriteReady

/-- A WRITE that is due with room for its record appends it exactly when its count is not 0. -/
theorem tape_write_appends_iff {before after : List Item} {u : Cpu}
    (h : WriteReady before after u) : AppendsRecord before u ↔ u.dev.tm.bc ≠ 0 :=
  ⟨fun happends hbc => h.not_appends hbc happends, h.appends⟩

/-! ## Blank tapes -/

theorem image_marks (n : ℕ) : image (List.replicate n .mark) = List.replicate (4 * n) 0 := by
  induction n with
  | zero => rfl
  | succ n ih =>
    have hmark : Item.mark.bytes = List.replicate 4 0 := rfl
    have hlen : 4 * (n + 1) = 4 + 4 * n := by omega
    rw [List.replicate_succ, image_cons, ih, hmark, List.replicate_append_replicate, hlen]

theorem holdsTape_blank {tm : Tm11} {n : ℕ} (htape : tm.tape = some fun _ => 0)
    (hlen : tm.tapeLen.toNat = 4 * n) : HoldsTape (List.replicate n .mark) tm := by
  refine ⟨?_, fun i hi => ?_⟩
  · rw [image_marks, List.length_replicate, hlen]
  · rw [image_marks, List.length_replicate] at hi
    rw [image_marks, List.getElem?_replicate_of_lt hi, htape]
    rfl

/-- A WRITE of 65536 bytes on a tape with room for them. -/
def fullWrite : Cpu := commanded (tmAttach cpuCreate (some fun _ => 0) 65544 false) 65536 0o1000 0o5

theorem fullWrite_ready : WriteReady [] (List.replicate 16386 .mark) fullWrite where
  op := by decide
  attached := rfl
  unlocked := rfl
  holds := holdsTape_blank rfl rfl
  pos := rfl
  fits := by decide

/-- It leaves the tape eight bytes on. -/
theorem full_record_not_written : ¬∀ (before after : List Item) (u : Cpu),
    WriteReady before after u → AppendsRecord before u := by
  intro h
  exact fullWrite_ready.not_appends rfl (h _ _ _ fullWrite_ready)

/-- One of three bytes is written. -/
theorem three_bytes_appended : AppendsRecord [] tapeWriting := by
  have hready : WriteReady [] (List.replicate 256 .mark) tapeWriting :=
    { op := by decide
      attached := rfl
      unlocked := rfl
      holds := holdsTape_blank rfl rfl
      pos := rfl
      fits := by decide }
  exact (tape_write_appends_iff hready).2 (by decide)

end Pdp11
