import Pdp11.TapeRecords
import Mathlib.Logic.Relation
import Mathlib.Data.List.Induction

namespace Pdp11

open RecordTape

/-! The position of a tape that holds a well-formed image. -/

/-! ## Well-formed images -/

/-- The image of the items, as the tape buffer holds it; what lies beyond it is not known. -/
structure HoldsTape (items : List Item) (tm : Tm11) : Prop where
  len : tm.tapeLen.toNat = (image items).length
  bytes : ∀ i, i < (image items).length →
    (image items)[i]? = some (tm.tape.read (BitVec.ofNat 32 i))

variable {items before after : List Item} {item : Item} {tm : Tm11}

namespace HoldsTape

theorem lt (h : HoldsTape items tm) : (image items).length < 2 ^ 32 := by
  rw [← h.len]
  exact tm.tapeLen.isLt

/-- Each item stands where those before it end. -/
theorem itemAt (h : HoldsTape items tm) (hitems : items = before ++ item :: after) :
    ItemAt item (image before).length tm := by
  have hfits := (boundary_after hitems).le
  refine ⟨?_, fun i hi => ?_⟩
  · rw [h.len]
    exact hfits
  · rw [← image_getElem? hitems hi]
    exact h.bytes _ (by omega)

/-- At a boundary with an item after it a forward command moves past the item. -/
theorem ahead (h : HoldsTape items tm) (hitems : items = before ++ item :: after)
    (hpos : tm.pos.toNat = (image before).length) :
    (tapeAhead tm).toNat = (image before).length + item.size := (h.itemAt hitems).ahead hpos

/-- At a boundary with an item before it a SPACE REVERSE moves back over the item. -/
theorem behind (h : HoldsTape items tm) (hitems : items = before ++ item :: after)
    (hpos : tm.pos.toNat = (image before).length + item.size) :
    (tapeBehind tm).toNat = (image before).length := (h.itemAt hitems).behind hpos

/-- At the end of the image no length is read, if the 32 bits of the position do not overflow. -/
theorem ahead_end (h : HoldsTape items tm) (hend : (image items).length + 4 < 2 ^ 32)
    (hpos : tm.pos.toNat = (image items).length) : tapeAhead tm = tm.pos := by
  have hsum : (tm.pos + 4).toNat = tm.pos.toNat + 4 := toNat_add_lt (n := 4) (by omega)
  have hpast : tm.tapeLen < tm.pos + 4 := by
    rw [BitVec.lt_def, hsum, h.len]
    omega
  have hrl : tapLenAt tm tm.pos = 0xFFFFFFFF := if_pos hpast
  unfold tapeAhead
  dsimp only
  rw [hrl]
  rfl

theorem moved (h : HoldsTape items tm) {pos : BitVec 32} {tm' : Tm11} (hm : MovedTo pos tm tm') : HoldsTape items tm' := by
  refine ⟨?_, fun i hi => ?_⟩
  · rw [hm.tapeLen]
    exact h.len
  · rw [hm.tape]
    exact h.bytes i hi

end HoldsTape

/-! ## Completed commands -/

/-- The operations that move the tape and write nothing on it. -/
def TapeOperation.Motion (op : TapeOperation) : Prop :=
  op = .read ∨ op = .spaceForward ∨ op = .spaceReverse ∨ op = .rewind

/-- Where an operation leaves the tape. -/
def TapeOperation.destination (tm : Tm11) : TapeOperation → BitVec 32
  | .read | .spaceForward => tapeAhead tm
  | .spaceReverse => tapeBehind tm
  | .rewind => 0
  | .write | .mark => tm.pos

theorem MovedTo.trans {pos pos' : BitVec 32} {tm tm' tm'' : Tm11} (h : MovedTo pos tm tm')
    (h' : MovedTo pos' tm' tm'') : MovedTo pos' tm tm'' :=
  ⟨h'.tape.trans h.tape, h'.tapeLen.trans h.tapeLen, h'.pos⟩

theorem TapeOperation.Motion.perform {op : TapeOperation} (hop : op.Motion) (s : Cpu) :
    MovedTo (op.destination s.dev.tm) s.dev.tm (op.perform s).dev.tm := by
  have hdone {pos : BitVec 32} {t : Cpu} (h : MovedTo pos s.dev.tm t.dev.tm) :
      MovedTo pos s.dev.tm (tmSetDone t).dev.tm := by
    have hset := tmSetDone_position t
    rw [h.pos] at hset
    exact h.trans hset
  rcases hop with rfl | rfl | rfl | rfl
  · show MovedTo _ _ (tmExecute s tmFncRead).dev.tm
    rw [tmExecute_read]
    exact hdone (tmExecRead_position s _ _)
  · show MovedTo _ _ (tmExecute s tmFncSpacef).dev.tm
    rw [tmExecute_spacef]
    exact hdone (tmExecSpacef_position s)
  · show MovedTo _ _ (tmExecute s tmFncSpacer).dev.tm
    rw [tmExecute_spacer]
    exact hdone (tmExecSpacer_position s)
  · exact hdone ⟨rfl, rfl, rfl⟩

/-- A command that completes: its operation is due in a state that has the tape where it was, and
may differ in all else. -/
def Completed (op : TapeOperation) (s t : Cpu) : Prop :=
  ∃ u, MovedTo s.dev.tm.pos s.dev.tm u.dev.tm ∧ tmPollOperation u = some op ∧ t = tmPoll u

theorem destination_congr {pos : BitVec 32} {tm tm' : Tm11} (h : MovedTo pos tm tm')
    (hpos : pos = tm.pos) {op : TapeOperation} : op.destination tm' = op.destination tm := by
  obtain ⟨htape, hlen, hpos'⟩ := h
  rw [hpos] at hpos'
  have hlenAt (idx : BitVec 32) : tapLenAt tm' idx = tapLenAt tm idx := by
    rw [tapLenAt, tapLenAt, htape, hlen]
  cases op <;> simp only [TapeOperation.destination, tapeAhead, tapeBehind, hlenAt, hpos']

theorem Completed.moved {op : TapeOperation} {s t : Cpu} (h : Completed op s t) (hop : op.Motion) :
    MovedTo (op.destination s.dev.tm) s.dev.tm t.dev.tm := by
  obtain ⟨u, hu, hdue, rfl⟩ := h
  have hm := hop.perform u
  rw [destination_congr hu rfl] at hm
  rw [tmPoll_eq, hdue]
  exact hu.trans hm

/-- Any operation can complete. -/
theorem exists_completed (op : TapeOperation) (s : Cpu) (cmd : Word)
    (hcmd : tmOperation (tmGetFnc cmd) = op) : ∃ t, Completed op s t := by
  let u : Cpu := { s with
    dev.tm := { s.dev.tm with
      cmd := cmd
      busy := true
      doneNs := s.acct.timeNs } }
  have hdue : tmPollOperation u = some op := by
    have hlt : ¬s.acct.timeNs < s.acct.timeNs := BitVec.lt_irrefl _
    simp [tmPollOperation, u, hcmd]
  exact ⟨tmPoll u, u, ⟨rfl, rfl, rfl⟩, hdue, rfl⟩

/-- A READ, SPACE FORWARD, SPACE REVERSE, REWIND or UNLOAD completes. -/
def Motion (s t : Cpu) : Prop := ∃ op : TapeOperation, op.Motion ∧ Completed op s t

/-! ## Boundaries -/

/-- A tape that holds the items stands at a boundary between them. -/
structure OnBoundary (items : List Item) (tm : Tm11) : Prop where
  holds : HoldsTape items tm
  boundary : Boundary items tm.pos.toNat

theorem OnBoundary.destination (h : OnBoundary items tm)
    (hend : (image items).length + 4 < 2 ^ 32) {op : TapeOperation} (hop : op.Motion) :
    Boundary items (op.destination tm).toNat := by
  have hahead : Boundary items (tapeAhead tm).toNat := by
    by_cases hp : tm.pos.toNat < (image items).length
    · obtain ⟨before, item, after, hitems, hpos⟩ := h.boundary.item_after hp
      rw [h.holds.ahead hitems hpos]
      exact boundary_after hitems
    · have hpos : tm.pos.toNat = (image items).length := le_antisymm h.boundary.le (not_lt.1 hp)
      rw [h.holds.ahead_end hend hpos]
      exact h.boundary
  rcases hop with rfl | rfl | rfl | rfl
  · exact hahead
  · exact hahead
  · by_cases hp : tm.pos.toNat = 0
    · have hzero : tm.pos = 0 := BitVec.eq_of_toNat_eq hp
      have hstay : tapeBehind tm = tm.pos := if_pos hzero
      show Boundary items (tapeBehind tm).toNat
      rw [hstay]
      exact h.boundary
    · obtain ⟨before, item, after, hitems, hpos⟩ := h.boundary.item_before hp
      show Boundary items (tapeBehind tm).toNat
      rw [h.holds.behind hitems hpos]
      exact boundary_before hitems
  · exact boundary_zero items

theorem OnBoundary.motion {s t : Cpu} (h : OnBoundary items s.dev.tm)
    (hend : (image items).length + 4 < 2 ^ 32) (hst : Motion s t) : OnBoundary items t.dev.tm := by
  obtain ⟨op, hop, hcompleted⟩ := hst
  have hm := hcompleted.moved hop
  refine ⟨h.holds.moved hm, ?_⟩
  rw [hm.pos]
  exact h.destination hend hop

theorem OnBoundary.motions {s t : Cpu} (h : OnBoundary items s.dev.tm)
    (hend : (image items).length + 4 < 2 ^ 32) (hst : Relation.ReflTransGen Motion s t) :
    OnBoundary items t.dev.tm := by
  induction hst with
  | refl => exact h
  | tail _ hlast ih => exact ih.motion hend hlast

/-- Over an item and back. -/
theorem OnBoundary.forth_back {s t u : Cpu} (h : OnBoundary items s.dev.tm)
    (hp : s.dev.tm.pos < s.dev.tm.tapeLen) {op : TapeOperation}
    (hop : op = .read ∨ op = .spaceForward) (hst : Completed op s t)
    (htu : Completed .spaceReverse t u) : u.dev.tm.pos = s.dev.tm.pos := by
  have hlt : s.dev.tm.pos.toNat < (image items).length := by
    rw [← h.holds.len]
    exact BitVec.lt_def.1 hp
  obtain ⟨before, item, after, hitems, hpos⟩ := h.boundary.item_after hlt
  have hforth : MovedTo (tapeAhead s.dev.tm) s.dev.tm t.dev.tm := by
    rcases hop with rfl | rfl
    · exact hst.moved (.inl rfl)
    · exact hst.moved (.inr (.inl rfl))
  have hback := htu.moved (.inr (.inr (.inl rfl)))
  have hnext : t.dev.tm.pos.toNat = (image before).length + item.size := by
    rw [hforth.pos]
    exact h.holds.ahead hitems hpos
  apply BitVec.eq_of_toNat_eq
  rw [hback.pos, hpos]
  exact (h.holds.moved hforth).behind hitems hnext

/-- Back over an item and forth. -/
theorem OnBoundary.back_forth {s t u : Cpu} (h : OnBoundary items s.dev.tm)
    (hp : s.dev.tm.pos ≠ 0) (hst : Completed .spaceReverse s t)
    (htu : Completed .spaceForward t u) : u.dev.tm.pos = s.dev.tm.pos := by
  have hne : s.dev.tm.pos.toNat ≠ 0 := fun hz => hp (BitVec.eq_of_toNat_eq hz)
  obtain ⟨before, item, after, hitems, hpos⟩ := h.boundary.item_before hne
  have hback := hst.moved (.inr (.inr (.inl rfl)))
  have hforth := htu.moved (.inr (.inl rfl))
  have hprev : t.dev.tm.pos.toNat = (image before).length := by
    rw [hback.pos]
    exact h.holds.behind hitems hpos
  apply BitVec.eq_of_toNat_eq
  rw [hforth.pos, hpos]
  exact (h.holds.moved hback).ahead hitems hprev

/-- What a well-formed tape promises: the position stays on boundaries, and a command forth and one
back cancel out. -/
structure StaysOnBoundaries (items : List Item) : Prop where
  boundary : ∀ s t, HoldsTape items s.dev.tm → s.dev.tm.pos = 0 →
    Relation.ReflTransGen Motion s t →
    Boundary items t.dev.tm.pos.toNat ∧ t.dev.tm.pos ≤ t.dev.tm.tapeLen
  forthBack : ∀ s t u op, HoldsTape items s.dev.tm → Boundary items s.dev.tm.pos.toNat →
    s.dev.tm.pos < s.dev.tm.tapeLen → op = .read ∨ op = .spaceForward → Completed op s t →
    Completed .spaceReverse t u → u.dev.tm.pos = s.dev.tm.pos
  backForth : ∀ s t u, HoldsTape items s.dev.tm → Boundary items s.dev.tm.pos.toNat →
    s.dev.tm.pos ≠ 0 → Completed .spaceReverse s t → Completed .spaceForward t u →
    u.dev.tm.pos = s.dev.tm.pos

theorem staysOnBoundaries_of_lt (hend : (image items).length + 4 < 2 ^ 32) :
    StaysOnBoundaries items where
  boundary s t hs hpos hst := by
    have hstart : OnBoundary items s.dev.tm := by
      refine ⟨hs, ?_⟩
      rw [hpos]
      exact boundary_zero items
    have ht := hstart.motions hend hst
    refine ⟨ht.boundary, ?_⟩
    rw [BitVec.le_def, ht.holds.len]
    exact ht.boundary.le
  forthBack _ _ _ _ hs hb hp hop := OnBoundary.forth_back ⟨hs, hb⟩ hp hop
  backForth _ _ _ hs hb hp := OnBoundary.back_forth ⟨hs, hb⟩ hp

/-! ## Images that fill the address range -/

/-- SPACE FORWARD over all items. -/
theorem HoldsTape.forward {s : Cpu} (h : HoldsTape items s.dev.tm) (hpos : s.dev.tm.pos = 0)
    (hitems : items = before ++ after) : ∃ t, Relation.ReflTransGen Motion s t ∧
      MovedTo (BitVec.ofNat 32 (image before).length) s.dev.tm t.dev.tm := by
  induction before using List.reverseRecOn generalizing after with
  | nil => exact ⟨s, .refl, rfl, rfl, hpos⟩
  | append_singleton before item ih =>
    have hitems' : items = before ++ item :: after := by simp [hitems]
    obtain ⟨t, hst, ht⟩ := ih hitems'
    have hlt := h.lt
    have hfits := (boundary_after hitems').le
    obtain ⟨u, htu⟩ := exists_completed .spaceForward t 0o10 (by decide)
    have hu := htu.moved (.inr (.inl rfl))
    refine ⟨u, hst.tail ⟨_, .inr (.inl rfl), htu⟩, ?_⟩
    have hnext : tapeAhead t.dev.tm = BitVec.ofNat 32 (image (before ++ [item])).length := by
      have hat : t.dev.tm.pos.toNat = (image before).length := by
        rw [ht.pos, BitVec.toNat_ofNat]
        omega
      apply BitVec.eq_of_toNat_eq
      rw [(h.moved ht).ahead hitems' hat, BitVec.toNat_ofNat, image_append, List.length_append,
        image_cons, List.length_append]
      have hsize : item.bytes.length = item.size := rfl
      have hnil : (image []).length = 0 := rfl
      omega
    rw [← hnext]
    exact ht.trans hu

/-- A buffer that holds the image, and one chosen byte just beyond it. -/
def tapeOf (items : List Item) (b : Byte) : ByteImage :=
  some fun i => (image items)[i.toNat]?.getD (if i.toNat = (image items).length then b else 0)

theorem tapeOf_holds (hlt : (image items).length < 2 ^ 32) (b : Byte)
    (htape : tm.tape = tapeOf items b) (hlen : tm.tapeLen = BitVec.ofNat 32 (image items).length) :
    HoldsTape items tm := by
  refine ⟨?_, fun i hi => ?_⟩
  · rw [hlen, BitVec.toNat_ofNat]
    omega
  · have hval : (BitVec.ofNat 32 i).toNat = i := by
      rw [BitVec.toNat_ofNat]
      omega
    rw [htape]
    show _ = some ((image items)[(BitVec.ofNat 32 i).toNat]?.getD _)
    rw [hval, List.getElem?_eq_getElem hi]
    rfl

/-- Where a record that the buffer seems to hold at the end of the image would lead. -/
theorem tapPast_wraps (pos rl : BitVec 32) :
    (tapPast pos rl).toNat = (pos.toNat + 8 + tapPadded rl) % 2 ^ 32 := by
  unfold tapPast tapPadded
  generalize (rl + 1) &&& ~~~1 = p
  have h1 : pos + (4 + p + 4) = pos + p + BitVec.ofNat 32 8 := by bv_omega
  rw [h1, BitVec.toNat_add, BitVec.toNat_add, BitVec.toNat_ofNat]
  omega

/-- The length read at the end of an image that leaves no room for one: its lowest byte is the byte
beyond the image, its next is zero. -/
theorem tapLenAt_beyond (hlt : (image items).length < 2 ^ 32)
    (hend : 2 ^ 32 ≤ (image items).length + 4) :
    ∃ upper : ℕ, upper ≤ 2 ^ 32 - 2 ^ 16 ∧ upper % 2 ^ 16 = 0 ∧ ∀ (b : Byte) (tm : Tm11),
      tm.tape = tapeOf items b → tm.tapeLen = BitVec.ofNat 32 (image items).length →
      tm.pos = BitVec.ofNat 32 (image items).length →
      (tapLenAt tm tm.pos).toNat = b.toNat + upper := by
  have heven := image_length_even items
  let at' (k : ℕ) : BitVec 32 := BitVec.ofNat 32 (image items).length + BitVec.ofNat 32 k
  have hat (k : ℕ) : (at' k).toNat = ((image items).length + k) % 2 ^ 32 := by
    rw [BitVec.toNat_add, BitVec.toNat_ofNat, BitVec.toNat_ofNat]
    omega
  let beyond (k : ℕ) : Byte := (image items)[(at' k).toNat]?.getD 0
  have h2 := (beyond 2).isLt
  have h3 := (beyond 3).isLt
  refine ⟨2 ^ 16 * (beyond 2).toNat + 2 ^ 24 * (beyond 3).toNat, by omega, by omega, ?_⟩
  intro b tm htape hlen hpos
  have hread (k : ℕ) : tm.tape.read (tm.pos + BitVec.ofNat 32 k) =
      (image items)[(at' k).toNat]?.getD
        (if (at' k).toNat = (image items).length then b else 0) := by
    rw [htape, hpos]
    rfl
  have hother (k : ℕ) (hk : (at' k).toNat ≠ (image items).length) :
      tm.tape.read (tm.pos + BitVec.ofNat 32 k) = beyond k := by
    rw [hread, if_neg hk]
  have hb0 : tm.tape.read tm.pos = b := by
    have h0 := hread 0
    rw [BitVec.add_zero, hat] at h0
    have hmod : ((image items).length + 0) % 2 ^ 32 = (image items).length := by omega
    rw [h0, hmod, if_pos rfl, List.getElem?_eq_none (le_refl _)]
    rfl
  -- the second byte is past the image too, and the last two may have wrapped to its front
  have hb1 : tm.tape.read (tm.pos + 1) = 0 := by
    have h1 := hother 1 (by rw [hat]; omega)
    have hnone : (image items)[(at' 1).toNat]? = none := by
      apply List.getElem?_eq_none
      rw [hat]
      omega
    have hzero : beyond 1 = 0 := by
      show (image items)[(at' 1).toNat]?.getD 0 = 0
      rw [hnone]
      rfl
    exact h1.trans hzero
  have hb2 : tm.tape.read (tm.pos + 2) = beyond 2 := hother 2 (by rw [hat]; omega)
  have hb3 : tm.tape.read (tm.pos + 3) = beyond 3 := hother 3 (by rw [hat]; omega)
  have hinside : ¬tm.tapeLen < tm.pos + 4 := by
    have hsum : (at' 4).toNat = ((image items).length + 4) % 2 ^ 32 := hat 4
    rw [hlen, hpos, BitVec.lt_def, BitVec.toNat_ofNat]
    have hshow : (BitVec.ofNat 32 (image items).length + 4).toNat = (at' 4).toNat := rfl
    omega
  rw [tapLenAt, if_neg hinside, hb0, hb1, hb2, hb3, join_toNat]
  simp only [BitVec.reduceToNat]
  omega

/-- An image that leaves no room for a length after it: SPACE FORWARD at the end reads one. -/
theorem not_staysOnBoundaries (hlt : (image items).length < 2 ^ 32)
    (hend : 2 ^ 32 ≤ (image items).length + 4) : ¬StaysOnBoundaries items := by
  intro h
  have heven := image_length_even items
  obtain ⟨upper, hupper, hlow, hlen⟩ := tapLenAt_beyond hlt hend
  -- one SPACE FORWARD from the end, with `b` as the byte beyond the image
  have hreach (b : Byte) (hb : 2 ≤ b.toNat) (heven : b.toNat % 2 = 0) :
      Boundary items ((image items).length + 8 + b.toNat + upper - 2 ^ 32) := by
    let s : Cpu :=
      tmAttach cpuCreate (tapeOf items b) (BitVec.ofNat 32 (image items).length) false
    have hs : HoldsTape items s.dev.tm := tapeOf_holds hlt b rfl rfl
    obtain ⟨t, hst, ht⟩ := hs.forward rfl (List.append_nil items).symm
    obtain ⟨u, htu⟩ := exists_completed .spaceForward t 0o10 (by decide)
    have hu := htu.moved (.inr (.inl rfl))
    have hbound := (h.boundary s u hs rfl (hst.tail ⟨_, .inr (.inl rfl), htu⟩)).1
    have hrl := hlen b t.dev.tm ht.tape ht.tapeLen ht.pos
    have hbyte := b.isLt
    have hne : tapLenAt t.dev.tm t.dev.tm.pos ≠ 0xFFFFFFFF := by
      intro heq
      have hmax := congrArg BitVec.toNat heq
      rw [hrl] at hmax
      simp only [BitVec.reduceToNat] at hmax
      omega
    have hnz : tapLenAt t.dev.tm t.dev.tm.pos ≠ 0 := by
      intro heq
      have hzero := congrArg BitVec.toNat heq
      rw [hrl] at hzero
      simp only [BitVec.reduceToNat] at hzero
      omega
    have hahead : tapeAhead t.dev.tm =
        tapPast t.dev.tm.pos (tapLenAt t.dev.tm t.dev.tm.pos) := by
      unfold tapeAhead
      dsimp only
      rw [if_neg hnz, if_neg hne]
    have hpos : t.dev.tm.pos.toNat = (image items).length := by
      rw [ht.pos, BitVec.toNat_ofNat]
      omega
    have hu' : u.dev.tm.pos.toNat =
        (image items).length + 8 + b.toNat + upper - 2 ^ 32 := by
      rw [hu.pos]
      show (tapeAhead t.dev.tm).toNat = _
      rw [hahead, tapPast_wraps, hpos, tapPadded_eq hne, hrl]
      omega
    rwa [hu'] at hbound
  -- so two boundaries would be only two bytes apart
  have h2 := hreach 2 (by decide) (by decide)
  have h4 := hreach 4 (by decide) (by decide)
  have hval2 : (2 : Byte).toNat = 2 := rfl
  have hval4 : (4 : Byte).toNat = 4 := rfl
  rw [hval2] at h2
  rw [hval4] at h4
  have hapart := h2.apart h4 (by omega)
  omega

/-- The position of a well-formed image stays on its boundaries exactly when the image is shorter
than `2^32 - 4` bytes. -/
theorem tape_position_on_boundaries (items : List Item) (hlt : (image items).length < 2 ^ 32) :
    StaysOnBoundaries items ↔ (image items).length < 2 ^ 32 - 4 := by
  constructor
  · intro h
    by_contra hend
    exact not_staysOnBoundaries hlt (by omega) h
  · intro hend
    exact staysOnBoundaries_of_lt (by omega)

/-- A record of three bytes and one of padding. -/
def threeByteRecord : Record where
  data := [0o101, 0o102, 0o103]
  pad := [0]
  nonempty := by decide
  padded := by decide

/-- An image of two records and a tape mark behind each. -/
theorem two_records_on_boundaries :
    StaysOnBoundaries [.record threeByteRecord, .mark, .record threeByteRecord, .mark] :=
  (tape_position_on_boundaries [.record threeByteRecord, .mark, .record threeByteRecord, .mark]
    (by decide)).2 (by decide)

/-- One record, as long as the address range of the tape allows. -/
def longRecord : Record where
  data := List.replicate (2 ^ 32 - 12) 0
  pad := []
  nonempty := by
    rw [List.length_replicate]
    norm_num
  padded := by
    rw [List.length_replicate]
    rfl

theorem long_record_off_boundary :
    (image [.record longRecord]).length < 2 ^ 32 ∧ ¬StaysOnBoundaries [.record longRecord] := by
  have hlen : (image [.record longRecord]).length = 2 ^ 32 - 4 := by
    have hdata : longRecord.data.length = 2 ^ 32 - 12 := List.length_replicate
    have hsize := Item.size_record longRecord
    have hbytes : (Item.record longRecord).bytes.length = (Item.record longRecord).size := rfl
    have hnil : (image []).length = 0 := rfl
    rw [image_cons, List.length_append, hbytes, hsize, hdata, hnil]
    norm_num
  constructor
  · rw [hlen]
    norm_num
  · apply not_staysOnBoundaries
    · rw [hlen]
      norm_num
    · rw [hlen]
      norm_num

end Pdp11
