import Pdp11.TapePosition
import Pdp11.TapeTransfer

namespace Pdp11

open RecordTape

/-! How far the spacing commands move the tape, and what they leave in the record count. -/

/-- The count of a spacing command, from 1 to 65536. -/
def spaceCount (tm : Tm11) : ℕ := 65536 - tm.bc.toNat

theorem spaceCount_pos (tm : Tm11) : 0 < spaceCount tm := by
  have h := tm.bc.isLt
  unfold spaceCount
  omega

/-- What a SPACE FORWARD promises that is due between the items before and those after it. -/
structure SpacesForward (before after : List Item) (u : Cpu) : Prop where
  pos : (tmPoll u).dev.tm.pos.toNat =
    (image before).length + (image (spaced (spaceCount u.dev.tm) after)).length
  count : (tmPoll u).dev.tm.bc =
    u.dev.tm.bc + BitVec.ofNat 16 (min (spaceCount u.dev.tm) (recordsAhead after))

/-- What a SPACE REVERSE promises: the same in the other direction. -/
structure SpacesReverse (before : List Item) (u : Cpu) : Prop where
  pos : (tmPoll u).dev.tm.pos.toNat + (image (spaced (spaceCount u.dev.tm) before.reverse)).length =
    (image before).length
  count : (tmPoll u).dev.tm.bc =
    u.dev.tm.bc + BitVec.ofNat 16 (min (spaceCount u.dev.tm) (recordsAhead before.reverse))

/-- The forward commands that one record is enough for: no record is ahead, or one is asked for, or
it is the last item. At the end the end must be read as such. -/
structure OneForward (after : List Item) (tm : Tm11) : Prop where
  record : ∀ r rest, after = .record r :: rest → spaceCount tm = 1 ∨ rest = []
  atEnd : after = [] → tapLenAt tm tm.pos = 0xFFFFFFFF

/-! ## What the commands do -/

section Effects

variable {u : Cpu}

theorem spacef_poll (h : tmPollOperation u = some .spaceForward) :
    (tmPoll u).dev.tm.pos = tapeAhead u.dev.tm ∧ (tmPoll u).dev.tm.bc =
      if tapLenAt u.dev.tm u.dev.tm.pos = 0 ∨ tapLenAt u.dev.tm u.dev.tm.pos = 0xFFFFFFFF
        then u.dev.tm.bc else u.dev.tm.bc + 1 := by
  have hmotion : TapeOperation.spaceForward.Motion := .inr (.inl rfl)
  have hpoll : tmPoll u = TapeOperation.spaceForward.perform u := by
    rw [tmPoll_eq, h]
  have hexec : TapeOperation.spaceForward.perform u = tmSetDone (tmExecSpacef u) :=
    tmExecute_spacef u
  rw [hpoll]
  refine ⟨(hmotion.perform u).pos, ?_⟩
  rw [hexec, tmSetDone_tm]
  show (tmExecSpacef u).dev.tm.bc = _
  unfold tmExecSpacef
  dsimp only
  by_cases h0 : tapLenAt u.dev.tm u.dev.tm.pos = 0
  · rw [if_pos h0, if_pos (.inl h0)]
  · by_cases hend : tapLenAt u.dev.tm u.dev.tm.pos = 0xFFFFFFFF
    · rw [if_neg h0, if_pos hend, if_pos (.inr hend)]
    · rw [if_neg h0, if_neg hend, if_neg (not_or.2 ⟨h0, hend⟩)]

theorem spacer_poll (h : tmPollOperation u = some .spaceReverse) :
    (tmPoll u).dev.tm.pos = tapeBehind u.dev.tm ∧ (tmPoll u).dev.tm.bc = u.dev.tm.bc := by
  have hmotion : TapeOperation.spaceReverse.Motion := .inr (.inr (.inl rfl))
  have hpoll : tmPoll u = TapeOperation.spaceReverse.perform u := by
    rw [tmPoll_eq, h]
  have hexec : TapeOperation.spaceReverse.perform u = tmSetDone (tmExecSpacer u) :=
    tmExecute_spacer u
  rw [hpoll]
  refine ⟨(hmotion.perform u).pos, ?_⟩
  rw [hexec, tmSetDone_tm]
  show (tmExecSpacer u).dev.tm.bc = _
  unfold tmExecSpacer
  dsimp only
  split
  · rfl
  · split <;> rfl

/-- The record count advances by what is added to it, below 65536. -/
theorem count_advances (bc : Word) {k : ℕ} (hk : k < 65536) :
    bc = bc + BitVec.ofNat 16 k ↔ k = 0 := by
  constructor
  · intro h
    have hn := congrArg BitVec.toNat h
    rw [BitVec.toNat_add, BitVec.toNat_ofNat] at hn
    have hlt := bc.isLt
    omega
  · rintro rfl
    simp

end Effects

/-! ## Spacing over a well-formed image -/

section Spacing

variable {before after front rest : List Item} {r : Record} {u : Cpu}

theorem image_snoc (items : List Item) (item : Item) :
    (image (items ++ [item])).length = (image items).length + item.size := by
  rw [image_append, List.length_append, image_cons, List.length_append]
  rfl

/-- The count of a command that has one record at least to pass. -/
theorem spaceCount_succ (tm : Tm11) : spaceCount tm = spaceCount tm - 1 + 1 :=
  (Nat.succ_pred_eq_of_pos (spaceCount_pos tm)).symm

theorem forward_at_end (hpos : u.dev.tm.pos.toNat = (image before).length)
    (hop : tmPollOperation u = some .spaceForward) :
    SpacesForward before [] u ↔ tapLenAt u.dev.tm u.dev.tm.pos = 0xFFFFFFFF := by
  obtain ⟨hmoved, hcount⟩ := spacef_poll hop
  have hnone : (image (spaced (spaceCount u.dev.tm) [])).length = 0 := by
    rw [spaced_nil]
    rfl
  have hzero : recordsAhead [] = 0 := rfl
  constructor
  · rintro ⟨hp, hc⟩
    rw [hmoved, hnone] at hp
    rw [hcount, hzero, Nat.min_zero] at hc
    by_contra hne
    by_cases h0 : tapLenAt u.dev.tm u.dev.tm.pos = 0
    · -- a length read as that of a mark moves the tape
      have hahead : tapeAhead u.dev.tm = u.dev.tm.pos + 4 := if_pos h0
      rw [hahead] at hp
      bv_omega
    · -- any other advances the count
      rw [if_neg (not_or.2 ⟨h0, hne⟩)] at hc
      bv_omega
  · intro hend
    have hstay : tapeAhead u.dev.tm = u.dev.tm.pos := by
      unfold tapeAhead
      dsimp only
      rw [hend]
      rfl
    refine ⟨?_, ?_⟩
    · rw [hmoved, hstay, hpos, hnone, Nat.add_zero]
    · rw [hcount, if_pos (.inr hend), hzero, Nat.min_zero]
      simp

theorem forward_over_mark (h : HoldsTape (before ++ .mark :: rest) u.dev.tm)
    (hpos : u.dev.tm.pos.toNat = (image before).length)
    (hop : tmPollOperation u = some .spaceForward) : SpacesForward before (.mark :: rest) u := by
  obtain ⟨hmoved, hcount⟩ := spacef_poll hop
  have hlen : tapLenAt u.dev.tm u.dev.tm.pos = 0 := (h.itemAt rfl).tapLenAt_front hpos
  refine ⟨?_, ?_⟩
  · rw [hmoved, h.ahead rfl hpos, spaced_mark (spaceCount_pos _)]
    rfl
  · rw [hcount, if_pos (.inl hlen), recordsAhead_mark, Nat.min_zero]
    simp

theorem forward_over_record (h : HoldsTape (before ++ .record r :: rest) u.dev.tm)
    (hpos : u.dev.tm.pos.toNat = (image before).length)
    (hop : tmPollOperation u = some .spaceForward) :
    SpacesForward before (.record r :: rest) u ↔ spaceCount u.dev.tm = 1 ∨ rest = [] := by
  obtain ⟨hmoved, hcount⟩ := spacef_poll hop
  have hitem := h.itemAt rfl
  have hlen := hitem.tapLenAt_front hpos
  have hrecord : BitVec.ofNat 32 (Item.record r).length ≠ 0 := by
    intro heq
    have hval := hitem.item_length.1
    rw [heq] at hval
    exact absurd hval.symm (Nat.ne_of_gt r.nonempty)
  have hsucc := spaceCount_succ u.dev.tm
  generalize hm : spaceCount u.dev.tm - 1 = m at hsucc
  have hone : spaceCount u.dev.tm = 1 ∨ rest = [] ↔ spaced m rest = [] := by
    rw [spaced_eq_nil, hsucc]
    simp
  have himage : (image (spaced (spaceCount u.dev.tm) (.record r :: rest))).length =
      (Item.record r).size + (image (spaced m rest)).length := by
    rw [hsucc, spaced_record, image_cons, List.length_append]
    rfl
  have hmin : min (spaceCount u.dev.tm) (recordsAhead (.record r :: rest)) =
      min m (recordsAhead rest) + 1 := by
    rw [hsucc, recordsAhead_record, Nat.add_min_add_right]
  rw [hone]
  constructor
  · rintro ⟨hp, -⟩
    rw [hmoved, h.ahead rfl hpos, himage] at hp
    apply image_length_eq_zero.1
    omega
  · intro hnil
    have hno : min m (recordsAhead rest) = 0 := by
      rcases spaced_eq_nil.1 hnil with rfl | rfl
      · exact Nat.zero_min _
      · exact Nat.min_zero _
    refine ⟨?_, ?_⟩
    · rw [hmoved, h.ahead rfl hpos, himage, hnil]
      rfl
    · rw [hcount, hlen, if_neg (not_or.2 ⟨hrecord, hitem.item_length.2⟩), hmin, hno]
      rfl

theorem reverse_at_start (hpos : u.dev.tm.pos.toNat = (image []).length)
    (hop : tmPollOperation u = some .spaceReverse) : SpacesReverse [] u := by
  obtain ⟨hmoved, hcount⟩ := spacer_poll hop
  have hzero : u.dev.tm.pos = 0 := BitVec.eq_of_toNat_eq hpos
  have hstay : tapeBehind u.dev.tm = u.dev.tm.pos := if_pos hzero
  have hnone : (image (spaced (spaceCount u.dev.tm) [])).length = 0 := by
    rw [spaced_nil]
    rfl
  have hno : recordsAhead [] = 0 := rfl
  refine ⟨?_, ?_⟩
  · rw [hmoved, hstay, hpos, List.reverse_nil, hnone, Nat.add_zero]
  · rw [hcount, List.reverse_nil, hno, Nat.min_zero]
    simp

theorem reverse_over_mark (h : HoldsTape (front ++ .mark :: after) u.dev.tm)
    (hpos : u.dev.tm.pos.toNat = (image (front ++ [.mark])).length)
    (hop : tmPollOperation u = some .spaceReverse) : SpacesReverse (front ++ [.mark]) u := by
  obtain ⟨hmoved, hcount⟩ := spacer_poll hop
  rw [image_snoc] at hpos
  have hreverse : (front ++ [Item.mark]).reverse = .mark :: front.reverse := by simp
  refine ⟨?_, ?_⟩
  · rw [hmoved, h.behind rfl hpos, hreverse, spaced_mark (spaceCount_pos _), image_snoc]
    rfl
  · rw [hcount, hreverse, recordsAhead_mark, Nat.min_zero]
    simp

/-- Behind a record the count stays, and that is wrong whether one record was asked for or more. -/
theorem reverse_over_record (h : HoldsTape (front ++ .record r :: after) u.dev.tm)
    (hpos : u.dev.tm.pos.toNat = (image (front ++ [.record r])).length)
    (hop : tmPollOperation u = some .spaceReverse) : ¬SpacesReverse (front ++ [.record r]) u := by
  rintro ⟨hp, hc⟩
  obtain ⟨hmoved, hcount⟩ := spacer_poll hop
  rw [image_snoc] at hpos hp
  have hreverse : (front ++ [Item.record r]).reverse = .record r :: front.reverse := by simp
  have hsucc := spaceCount_succ u.dev.tm
  generalize hm : spaceCount u.dev.tm - 1 = m at hsucc
  rw [hmoved, h.behind rfl hpos, hreverse, hsucc, spaced_record, image_cons,
    List.length_append] at hp
  have hsize : (Item.record r).bytes.length = (Item.record r).size := rfl
  have hnil : spaced m front.reverse = [] := by
    apply image_length_eq_zero.1
    omega
  have hno : min m (recordsAhead front.reverse) = 0 := by
    rcases spaced_eq_nil.1 hnil with rfl | hfront
    · exact Nat.zero_min _
    · rw [hfront]
      exact Nat.min_zero _
  rw [hcount, hreverse, recordsAhead_record, hsucc, Nat.add_min_add_right, hno] at hc
  have hone := (count_advances u.dev.tm.bc (k := 1) (by decide)).1 hc
  omega

/-- A spacing command due between the items before and those after it passes the records it was
asked to, and counts them: forward exactly when one record is enough, in reverse exactly when no
record is behind. -/
theorem spacing_counts_iff (h : HoldsTape (before ++ after) u.dev.tm)
    (hpos : u.dev.tm.pos.toNat = (image before).length) :
    (tmPollOperation u = some .spaceForward →
      (SpacesForward before after u ↔ OneForward after u.dev.tm)) ∧
    (tmPollOperation u = some .spaceReverse →
      (SpacesReverse before u ↔ ∀ front r, before ≠ front ++ [.record r])) := by
  refine ⟨fun hop => ?_, fun hop => ?_⟩
  · cases after with
    | nil =>
      rw [forward_at_end hpos hop]
      refine ⟨fun hend => ⟨fun r rest heq => ?_, fun _ => hend⟩, fun hone => hone.atEnd rfl⟩
      cases heq
    | cons item rest =>
      cases item with
      | mark =>
        refine iff_of_true (forward_over_mark h hpos hop) ⟨fun r rest heq => ?_, fun heq => ?_⟩
        · cases heq
        · cases heq
      | record r =>
        rw [forward_over_record h hpos hop]
        refine ⟨fun hone => ⟨fun r' rest' heq => ?_, fun heq => ?_⟩,
          fun hone => hone.record r rest rfl⟩
        · cases heq
          exact hone
        · cases heq
  · rcases List.eq_nil_or_concat before with rfl | ⟨front, item, rfl⟩
    · refine iff_of_true (reverse_at_start hpos hop) ?_
      intro front r heq
      simp at heq
    · rw [List.concat_eq_append] at h hpos ⊢
      rw [List.append_assoc, List.singleton_append] at h
      cases item with
      | mark =>
        refine iff_of_true (reverse_over_mark h hpos hop) ?_
        intro front' r heq
        simp at heq
      | record r =>
        refine iff_of_false (reverse_over_record h hpos hop) ?_
        intro hne
        exact hne front r rfl

end Spacing

/-- A record of one byte. -/
def oneByte : Record where
  data := [0o101]
  pad := [0]
  nonempty := by decide
  padded := rfl

/-- A tape of two records, and a SPACE FORWARD over `n` of them from its start, due. -/
def spacingTape : Cpu :=
  tmAttach cpuCreate (tapeOf [.record oneByte, .record oneByte] 0) 20 false

def spacing (n : ℕ) : Cpu := commanded spacingTape n 0 0o11

theorem spacing_underway (n : ℕ) : Underway tmFncSpacef n 0 spacingTape (spacing n) :=
  (commanded_due spacingTape n ⟨by decide, by decide, by decide, by decide⟩).underway (by decide)
    rfl rfl (by decide)

theorem spacing_holds (n : ℕ) :
    HoldsTape ([] ++ [.record oneByte, .record oneByte]) (spacing n).dev.tm := by
  have hlen : (20 : BitVec 32) =
      BitVec.ofNat 32 (image [.record oneByte, .record oneByte]).length := by decide
  exact tapeOf_holds (by decide) 0 (spacing_underway n).tape
    ((spacing_underway n).tapeLen.trans hlen)

theorem spacing_start (n : ℕ) : (spacing n).dev.tm.pos.toNat = (image []).length :=
  congrArg BitVec.toNat (spacing_underway n).pos

/-- Two records are asked for, and one is passed. -/
theorem spacing_stops_short : ¬∀ (before after : List Item) (u : Cpu),
    HoldsTape (before ++ after) u.dev.tm → u.dev.tm.pos.toNat = (image before).length →
    (tmPollOperation u = some .spaceForward → SpacesForward before after u) ∧
      (tmPollOperation u = some .spaceReverse → SpacesReverse before u) := by
  intro h
  have hspaces := (h [] [.record oneByte, .record oneByte] (spacing 2) (spacing_holds 2)
    (spacing_start 2)).1
    (by decide)
  have hshort : (tmPoll (spacing 2)).dev.tm.pos.toNat = 10 := by decide
  have hpos := hspaces.pos
  rw [hshort] at hpos
  exact absurd hpos (by decide)

/-- One is asked for, and passed and counted. -/
theorem spacing_one : SpacesForward [] [.record oneByte, .record oneByte] (spacing 1) := by
  apply ((spacing_counts_iff (spacing_holds 1) (spacing_start 1)).1 (by decide)).2
  refine ⟨fun r rest heq => .inl (by decide), fun heq => ?_⟩
  cases heq

end Pdp11
