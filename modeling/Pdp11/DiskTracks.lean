import Pdp11.DiskLimits

namespace Pdp11

open DiskId

/-! The track a transfer of the RL11 stays on. -/

/-- The disk words the loop of a transfer goes through, from the registers as they stand. -/
def rlAccesses (s : Cpu) : List (BitVec 32) :=
  (List.range (loopCount (rl.trimmed s))).map (rl.block s)

/-! ## The words that matter -/

/-- Two machines that differ in the words of the disk alone, where they agree on `ws` and hold `d`
and `d'` elsewhere. -/
def DiskTwins (ws : List (BitVec 32)) (d d' : BitVec 32 → Word) (x y : Cpu) : Prop :=
  ∃ (z : Cpu) (e e' : BitVec 32 → Word),
    x = { z with dev.rl.disk := some e } ∧ y = { z with dev.rl.disk := some e' } ∧
      (∀ w ∈ ws, e w = e' w) ∧ ∀ w ∉ ws, e w = d w ∧ e' w = d' w

section
variable {ws : List (BitVec 32)} {d d' : BitVec 32 → Word} {p q : Cpu × Word} {func : Word}

/-- One pass of the loop, over a disk of its own. -/
theorem rlTransferWord_on (z : Cpu) (e : BitVec 32 → Word) (status : Word) (ma da : BitVec 32)
    (i : ℕ) : rlTransferWord func ma da ({ z with dev.rl.disk := some e }, status) i =
      if func = rlFuncRead ∨ func = rlFuncRnohdr then
        ({ z with
          mem := memWriteWord z.mem (unibusMap z (ma + BitVec.ofNat 32 (i * 2)))
            (e (da + BitVec.ofNat 32 i))
          dev.rl.disk := some e }, status)
      else if func = rlFuncWrite then
        ({ z with
          dev.rl.disk := some (Function.update e (da + BitVec.ofNat 32 i)
            (memReadWord z.mem (unibusMap z (ma + BitVec.ofNat 32 (i * 2))))) }, status)
      else if func = rlFuncWchk ∧ memReadWord z.mem (unibusMap z (ma + BitVec.ofNat 32 (i * 2))) ≠
          e (da + BitVec.ofNat 32 i) then
        ({ z with dev.rl.disk := some e }, status ||| rlcsErr ||| rlcsCrc)
      else ({ z with dev.rl.disk := some e }, status) := rfl

/-- One pass of the loop, at a word of the list. -/
theorem DiskTwins.transferWord (h : DiskTwins ws d d' p.1 q.1) (hstatus : p.2 = q.2)
    (func : Word) (ma : BitVec 32) {da : BitVec 32} {i : ℕ} (hi : da + BitVec.ofNat 32 i ∈ ws) :
    DiskTwins ws d d' (rlTransferWord func ma da p i).1 (rlTransferWord func ma da q i).1 ∧
      (rlTransferWord func ma da p i).2 = (rlTransferWord func ma da q i).2 := by
  obtain ⟨x, status⟩ := p
  obtain ⟨y, status'⟩ := q
  obtain ⟨z, e, e', rfl, rfl, hon, hoff⟩ := h
  have hsame : status = status' := hstatus
  subst hsame
  have hmem (m : Mem) : DiskTwins ws d d' { z with mem := m, dev.rl.disk := some e }
      { z with mem := m, dev.rl.disk := some e' } :=
    ⟨{ z with mem := m }, e, e', rfl, rfl, hon, hoff⟩
  simp only [rlTransferWord_on, hon _ hi]
  split
  · exact ⟨hmem _, rfl⟩
  split
  · refine ⟨⟨z, _, _, rfl, rfl, fun w hw => ?_, fun w hw => ?_⟩, rfl⟩
    · -- the word written comes from the memory they share
      by_cases heq : w = da + BitVec.ofNat 32 i
      · rw [heq, Function.update_self, Function.update_self]
      · rw [Function.update_of_ne heq, Function.update_of_ne heq]
        exact hon w hw
    · have hne : w ≠ da + BitVec.ofNat 32 i := fun heq => hw (heq ▸ hi)
      rw [Function.update_of_ne hne, Function.update_of_ne hne]
      exact hoff w hw
  split <;> exact ⟨⟨z, e, e', rfl, rfl, hon, hoff⟩, rfl⟩

theorem DiskTwins.transferWords (h : DiskTwins ws d d' p.1 q.1) (hstatus : p.2 = q.2)
    (func : Word) (ma da : BitVec 32) (l : List ℕ) (hl : ∀ i ∈ l, da + BitVec.ofNat 32 i ∈ ws) :
    DiskTwins ws d d' (l.foldl (rlTransferWord func ma da) p).1
        (l.foldl (rlTransferWord func ma da) q).1 ∧
      (l.foldl (rlTransferWord func ma da) p).2 = (l.foldl (rlTransferWord func ma da) q).2 := by
  induction l generalizing p q with
  | nil => exact ⟨h, hstatus⟩
  | cons i l ih =>
    obtain ⟨hstep, hstatus'⟩ := h.transferWord hstatus func ma
      (hl i (List.mem_cons_self ..))
    exact ih hstep hstatus' fun j hj => hl j (List.mem_cons_of_mem i hj)

theorem rlStart_advance_disk (r : Rl11) (ma wc : BitVec 32) (z : Cpu) (status : Word)
    (e : BitVec 32 → Word) :
    rlStart (rlAdvance { r with disk := some e } ma wc ({ z with dev.rl.disk := some e }, status)) =
      { rlStart (rlAdvance r ma wc (z, status)) with dev.rl.disk := some e } := rfl

/-- What a command that goes through the disk leaves depends on the disk at the words of its loop
alone, and it changes no others. -/
theorem rlGo_footprint {s : Cpu} (hfunc : RlMoves ((s.dev.rl.rlcs &&& rlcsFunc) >>> 1))
    (hagree : ∀ w ∈ rlAccesses s, d w = d' w) :
    DiskTwins (rlAccesses s) d d' (rlGo { s with dev.rl.disk := some d })
      (rlGo { s with dev.rl.disk := some d' }) := by
  have hgo (e : BitVec 32 → Word) : rlGo { s with dev.rl.disk := some e } =
      rlStart (rlTransfer (rlStarted { s with dev.rl.disk := some e })
        ((s.dev.rl.rlcs &&& rlcsFunc) >>> 1)) :=
    rlGo_moves (s := { s with dev.rl.disk := some e }) rfl hfunc
  have htransfer (e : BitVec 32 → Word) : rlTransfer (rlStarted { s with dev.rl.disk := some e })
      ((s.dev.rl.rlcs &&& rlcsFunc) >>> 1) =
        rlAdvance { (rlStarted s).dev.rl with disk := some e } (rl.busAddress (rlStarted s))
          (rl.trimmed s) ((List.range (loopCount (rl.trimmed s))).foldl
            (rlTransferWord ((s.dev.rl.rlcs &&& rlcsFunc) >>> 1) (rl.busAddress (rlStarted s))
              (rl.startWord s)) (rlStarted { s with dev.rl.disk := some e }, rlStatusStart s)) := rfl
  rw [hgo, hgo, htransfer, htransfer]
  have htwins : DiskTwins (rlAccesses s) d d' (rlStarted { s with dev.rl.disk := some d })
      (rlStarted { s with dev.rl.disk := some d' }) :=
    ⟨rlStarted s, d, d', rfl, rfl, hagree, fun _ _ => ⟨rfl, rfl⟩⟩
  obtain ⟨⟨z, e, e', hx, hy, hon, hoff⟩, hstatus⟩ := DiskTwins.transferWords
    (p := (rlStarted { s with dev.rl.disk := some d }, rlStatusStart s))
    (q := (rlStarted { s with dev.rl.disk := some d' }, rlStatusStart s))
    htwins rfl ((s.dev.rl.rlcs &&& rlcsFunc) >>> 1) (rl.busAddress (rlStarted s)) (rl.startWord s)
    (List.range (loopCount (rl.trimmed s))) fun i hi => List.mem_map_of_mem hi
  generalize (List.range (loopCount (rl.trimmed s))).foldl _ _ = x at hx hstatus ⊢
  generalize (List.range (loopCount (rl.trimmed s))).foldl _ _ = y at hy hstatus ⊢
  obtain ⟨x, status⟩ := x
  obtain ⟨y, status'⟩ := y
  have hx' : x = { z with dev.rl.disk := some e } := hx
  have hy' : y = { z with dev.rl.disk := some e' } := hy
  have hsame : status = status' := hstatus
  subst hx' hy' hsame
  generalize (rlStarted s).dev.rl = r, rl.busAddress (rlStarted s) = ma, rl.trimmed s = wc
  exact ⟨rlStart (rlAdvance r ma wc (z, status)), e, e', rlStart_advance_disk r ma wc z status e,
    rlStart_advance_disk r ma wc z status e', hon, hoff⟩

end

/-! ## The track of a command -/

/-- A disk word of the track of 40 sectors in RLDA<15:6>. -/
def OnTrack (rlda : Word) (w : BitVec 32) : Prop := w.toNat / (40 * 128) = rlda.toNat / 64

/-- The sector field is no further than the end of a track, or the transfer begins behind the
image. -/
def SectorFits (s : Cpu) : Prop :=
  s.dev.rl.rlda.toNat % 64 ≤ 40 ∨ (rl.imageWords s).toNat ≤ (rl.startWord s).toNat

instance (s : Cpu) : Decidable (SectorFits s) := inferInstanceAs (Decidable (_ ∨ _))

section
variable {s : Cpu}

theorem rlBlock_toNat {i : ℕ} (hi : i < 2 ^ 16) :
    (rl.block s i).toNat = (rl.startWord s).toNat + i := by
  have hstart := startWord_lt rl s
  show (rl.startWord s + BitVec.ofNat 32 i).toNat = _
  rw [BitVec.toNat_add, BitVec.toNat_ofNat]
  omega

theorem mem_rlAccesses {w : BitVec 32} :
    w ∈ rlAccesses s ↔ ∃ i < loopCount (rl.trimmed s), rl.block s i = w := by
  simp [rlAccesses]

/-- The cut to the end of the track is lost when the sector field is past it. -/
theorem rlAsked_past (h : 40 < s.dev.rl.rlda.toNat % 64) : 0 < (rl.asked s).toNat := by
  have h40 : rlNumsc.toNat = 40 := rfl
  have h128 : rlNumwd.toNat = 128 := rfl
  have hmax : ((rlNumsc - rlGetSect s.dev.rl.rlda) * rlNumwd).toNat =
      2 ^ 32 - (s.dev.rl.rlda.toNat % 64 - 40) * 128 := by
    rw [BitVec.toNat_mul, BitVec.toNat_sub, rlSect_toNat, h40, h128]
    omega
  have hcount := wordCount_toNat s.dev.rl.rlmp
  show 0 < (if (rlNumsc - rlGetSect s.dev.rl.rlda) * rlNumwd < wordCount s.dev.rl.rlmp then
    (rlNumsc - rlGetSect s.dev.rl.rlda) * rlNumwd else wordCount s.dev.rl.rlmp).toNat
  split <;> omega

/-- A command stays on its track exactly when the sector field is on it. -/
theorem accesses_on_track_iff (s : Cpu) :
    (∀ w ∈ rlAccesses s, OnTrack s.dev.rl.rlda w) ↔ SectorFits s := by
  have hstart := rlStartWord_toNat s
  by_cases hsect : s.dev.rl.rlda.toNat % 64 ≤ 40
  · refine iff_of_true (fun w hw => ?_) (.inl hsect)
    obtain ⟨i, hi, rfl⟩ := mem_rlAccesses.1 hw
    obtain ⟨-, hloop⟩ := trimmed_moved (c := rl) (s := s) (fun _ => hsect) nofun
    have hmoved : rl.moved s ≤ rl.requested s := Nat.min_le_left _ _
    have hcut : rl.requested s ≤ (40 - s.dev.rl.rlda.toNat % 64) * 128 := Nat.min_le_right _ _
    unfold OnTrack
    rw [rlBlock_toNat (by omega)]
    omega
  · have htrimmed := trimmed_eq (c := rl) (s := s) nofun
    have hasked := rlAsked_past (s := s) (by omega)
    have hle := asked_le rl s
    have hloop : loopCount (rl.trimmed s) = (rl.trimmed s).toNat := loopCount_eq (by omega)
    unfold SectorFits
    rw [or_iff_right hsect]
    constructor
    · -- the first word of the transfer is already past the track
      intro htrack
      by_contra hin
      have hpos : 0 < loopCount (rl.trimmed s) := by
        rw [hloop, htrimmed]
        unfold remaining
        omega
      have hfirst := htrack _ (mem_rlAccesses.2 ⟨0, hpos, rfl⟩)
      unfold OnTrack at hfirst
      rw [rlBlock_toNat (by omega)] at hfirst
      omega
    · intro hout w hw
      obtain ⟨i, hi, -⟩ := mem_rlAccesses.1 hw
      rw [hloop, htrimmed] at hi
      unfold remaining at hi
      omega

end

/-! ## Runs -/

/-- What happens to the RL11: the program writes a register, or time passes and the controller is
polled. -/
inductive RlStep
  | write (addr value : Word)
  | complete (now : Time)

namespace RlStep

def apply : RlStep → Cpu → Cpu
  | write addr value, s => rlWrite s addr value
  | complete now, s => rlPoll { s with acct.timeNs := now }

/-- The step starts a command that goes through the disk. -/
def Moves : RlStep → Cpu → Prop
  | write addr value, s => addr = 0o174400 ∧ value &&& rlcsDone = 0 ∧ s.dev.rl.disk.isSome ∧
      RlMoves ((value &&& rlcsFunc) >>> 1)
  | complete _, _ => False

instance : (op : RlStep) → (s : Cpu) → Decidable (op.Moves s)
  | write _ _, _ => inferInstanceAs (Decidable (_ ∧ _ ∧ _ ∧ _))
  | complete _, _ => inferInstanceAs (Decidable False)

/-- The disk words the step goes through. -/
def accesses (op : RlStep) (s : Cpu) : List (BitVec 32) :=
  if op.Moves s then rlAccesses s else []

end RlStep

/-- Every command of a run stays on the track that is selected when it starts. -/
def TracksKept : Cpu → List RlStep → Prop
  | _, [] => True
  | s, op :: ops => (∀ w ∈ op.accesses s, OnTrack s.dev.rl.rlda w) ∧ TracksKept (op.apply s) ops

/-- Every command of a run starts with its sector field on the track. -/
def SectorsFit : Cpu → List RlStep → Prop
  | _, [] => True
  | s, op :: ops => (op.Moves s → SectorFits s) ∧ SectorsFit (op.apply s) ops

section
variable {s : Cpu} {addr value : Word}

/-- The RL11 with the function of a write to RLCS and its errors cleared. -/
def rlCommanded (s : Cpu) (value : Word) : Cpu :=
  let rlcs := (s.dev.rl.rlcs &&& ~~~rlcsRw) ||| (value &&& rlcsRw)
  { clrInt s .rl with
    dev.rl.rlcs := rlcs &&& ~~~rlcsAllerr
    dev.rl.rlbae := (s.dev.rl.rlbae &&& ~~~(3 : Word)) ||| ((rlcs >>> 4) &&& 3) }

theorem rlWrite_command (h : value &&& rlcsDone = 0) :
    rlWrite s 0o174400 value = rlGo (rlCommanded s value) := by
  have hdone : ¬(value &&& rlcsDone ≠ 0) := not_not.2 h
  have hrlcs : rlWrite s 0o174400 value = rlWriteRlcs s value := if_pos rfl
  rw [hrlcs]
  unfold rlWriteRlcs
  dsimp only
  rw [if_neg hdone]
  rfl

theorem rlCommanded_func (s : Cpu) (value : Word) :
    ((rlCommanded s value).dev.rl.rlcs &&& rlcsFunc) >>> 1 = (value &&& rlcsFunc) >>> 1 := by
  show ((((s.dev.rl.rlcs &&& ~~~rlcsRw) ||| (value &&& rlcsRw)) &&& ~~~rlcsAllerr) &&& rlcsFunc) >>> 1 = _
  rw [BitMask.and_not_and_eq _ (by decide), BitMask.load_and_self _ _ (by decide)]

/-- What a step that moves words leaves depends on the disk at the words it goes through alone, and
it changes no others. -/
theorem RlStep.footprint {op : RlStep} {d d' : BitVec 32 → Word} (h : op.Moves s)
    (hagree : ∀ w ∈ op.accesses s, d w = d' w) :
    DiskTwins (op.accesses s) d d' (op.apply { s with dev.rl.disk := some d })
      (op.apply { s with dev.rl.disk := some d' }) := by
  have haccesses : op.accesses s = rlAccesses s := if_pos h
  rw [haccesses] at hagree ⊢
  cases op with
  | complete now => exact h.elim
  | write addr value =>
    obtain ⟨rfl, hgo, -, hfunc⟩ := h
    rw [← rlCommanded_func s value] at hfunc
    have hprint := rlGo_footprint (s := rlCommanded s value) hfunc hagree
    show DiskTwins _ d d' (rlWrite _ _ _) (rlWrite _ _ _)
    rw [rlWrite_command hgo, rlWrite_command hgo]
    exact hprint

end

theorem RlStep.accesses_iff (op : RlStep) (s : Cpu) :
    (∀ w ∈ op.accesses s, OnTrack s.dev.rl.rlda w) ↔ (op.Moves s → SectorFits s) := by
  unfold RlStep.accesses
  split
  · rename_i hmoves
    rw [accesses_on_track_iff, forall_prop_of_true hmoves]
  · rename_i hmoves
    simp [hmoves]

theorem tracksKept_iff (s : Cpu) (ops : List RlStep) : TracksKept s ops ↔ SectorsFit s ops := by
  induction ops generalizing s with
  | nil => exact Iff.rfl
  | cons op ops ih => exact and_congr (op.accesses_iff s) (ih (op.apply s))

/-- The transfers of a run stay on their tracks exactly when none starts with a sector field past
the end of one, unless its start is behind the image. The words counted as accessed are the only ones
of the disk that a transfer depends on, and the only ones it changes. -/
theorem tracks_kept_iff (s : Cpu) (ops : List RlStep) :
    (TracksKept s ops ↔ SectorsFit s ops) ∧
      ∀ (op : RlStep) (d d' : BitVec 32 → Word), op.Moves s → (∀ w ∈ op.accesses s, d w = d' w) →
        DiskTwins (op.accesses s) d d' (op.apply { s with dev.rl.disk := some d })
          (op.apply { s with dev.rl.disk := some d' }) :=
  ⟨tracksKept_iff s ops, fun _ _ _ hmoves hagree => RlStep.footprint hmoves hagree⟩

/-! ## The sector field from command to command -/

section
variable {s : Cpu}

theorem rlFinish_rlda (s : Cpu) (status : Word) : (rlFinish s status).dev.rl.rlda = s.dev.rl.rlda := by
  unfold rlFinish
  dsimp only
  split_ifs <;> rfl

theorem rlFunction_cases (x : Word) : RlMoves ((x &&& rlcsFunc) >>> 1) ∨
    (x &&& rlcsFunc) >>> 1 = rlFuncNop ∨ (x &&& rlcsFunc) >>> 1 = rlFuncGsta ∨
      (x &&& rlcsFunc) >>> 1 = rlFuncSeek ∨ (x &&& rlcsFunc) >>> 1 = rlFuncRhdr := by
  have hfield : (x &&& rlcsFunc).toNat = x.toNat / 2 ^ 1 % 2 ^ 3 * 2 ^ 1 :=
    BitMask.toNat_and_field (i := 1) (n := 3) x (by decide)
  have hlt : ((x &&& rlcsFunc) >>> 1).toNat < 8 := by
    rw [BitVec.toNat_ushiftRight, hfield, Nat.shiftRight_eq_div_pow]
    omega
  have height (y : Word) (hy : y.toNat < 8) : RlMoves y ∨ y = rlFuncNop ∨ y = rlFuncGsta ∨
      y = rlFuncSeek ∨ y = rlFuncRhdr := by
    obtain ⟨n, rfl⟩ : ∃ n : Fin 8, y = BitVec.ofNat 16 n := ⟨⟨y.toNat, hy⟩, by simp⟩
    revert n
    decide
  exact height _ hlt

/-- Only a command that goes through the disk moves the disk address. -/
theorem rlGo_rlda (s : Cpu) : (rlGo s).dev.rl.rlda =
    if s.dev.rl.disk.isSome ∧ RlMoves ((s.dev.rl.rlcs &&& rlcsFunc) >>> 1) then
      s.dev.rl.rlda + ((rl.trimmed s + (rlNumwd - 1)).sdiv rlNumwd).setWidth 16
    else s.dev.rl.rlda := by
  by_cases hattached : s.dev.rl.disk.isSome
  · by_cases hmoves : RlMoves ((s.dev.rl.rlcs &&& rlcsFunc) >>> 1)
    · rw [if_pos ⟨hattached, hmoves⟩, rlGo_moves hattached hmoves]
      rfl
    rw [if_neg fun h => hmoves h.2]
    have hquiet := (rlFunction_cases s.dev.rl.rlcs).resolve_left hmoves
    have hsome : ¬(rlStarted s).dev.rl.disk.isNone = true := by
      have hnone : s.dev.rl.disk.isNone = false := Option.isNone_eq_false_iff.2 hattached
      exact fun h => absurd (h.symm.trans hnone) (by decide)
    -- NOP, GET STATUS, SEEK and READ HEADER leave the disk address
    rcases hquiet with hfunc | hfunc | hfunc | hfunc
    · have hgo : rlGo s = rlFinish (rlStarted s) 0 := (if_neg hsome).trans (if_pos hfunc)
      rw [hgo, rlFinish_rlda]
      rfl
    · have hnop : (s.dev.rl.rlcs &&& rlcsFunc) >>> 1 ≠ rlFuncNop := by
        rw [hfunc]
        decide
      have hgo : rlGo s = if (rlStarted s).dev.rl.rlda &&& rldaGs = 0 then
          rlFinish (rlStarted s) rlcsIncmp
          else rlFinish { rlStarted s with dev.rl.rlmp := rlStatus (rlStarted s).dev.rl } 0 :=
        (if_neg hsome).trans ((if_neg hnop).trans (if_pos hfunc))
      rw [hgo]
      split <;> exact rlFinish_rlda _ _
    · have hother : (s.dev.rl.rlcs &&& rlcsFunc) >>> 1 ≠ rlFuncNop ∧
          (s.dev.rl.rlcs &&& rlcsFunc) >>> 1 ≠ rlFuncGsta := by
        rw [hfunc]
        decide
      have hgo : rlGo s = { rlStarted s with
          dev.rl.trk := (rlSeekCyl (rlStarted s).dev.rl <<< 7).setWidth 16 |||
            (if (rlStarted s).dev.rl.rlda &&& rldaSkHd ≠ 0 then rldaHd1 else 0)
          dev.rl.busy := true
          dev.rl.doneNs := s.acct.timeNs + rlBaseNs } :=
        (if_neg hsome).trans ((if_neg hother.1).trans ((if_neg hother.2).trans (if_pos hfunc)))
      rw [hgo]
      rfl
    · have hother : (s.dev.rl.rlcs &&& rlcsFunc) >>> 1 ≠ rlFuncNop ∧
          (s.dev.rl.rlcs &&& rlcsFunc) >>> 1 ≠ rlFuncGsta ∧
          (s.dev.rl.rlcs &&& rlcsFunc) >>> 1 ≠ rlFuncSeek := by
        rw [hfunc]
        decide
      have hgo : rlGo s = { rlStarted s with
          dev.rl.rlmp := s.dev.rl.trk
          dev.rl.busy := true
          dev.rl.doneNs := s.acct.timeNs + rlBaseNs } :=
        (if_neg hsome).trans ((if_neg hother.1).trans ((if_neg hother.2.1).trans
          ((if_neg hother.2.2).trans (if_pos hfunc))))
      rw [hgo]
      rfl
  · have hnone : (rlStarted s).dev.rl.disk.isNone = true := by
      rw [show (rlStarted s).dev.rl.disk = s.dev.rl.disk from rfl]
      simpa using hattached
    have hgo : rlGo s = rlFinish (rlStarted s) (rlcsIncmp ||| rlcsDre) := if_pos hnone
    rw [if_neg fun h => hattached h.1, hgo, rlFinish_rlda]
    rfl

/-- The sectors of a count that is not negative. -/
theorem sectors_toNat {x : BitVec 32} (h : x.toNat < 2 ^ 31) :
    (x.sdiv rlNumwd).toNat = x.toNat / 128 := by
  have hx : x.msb = false := BitVec.msb_eq_false_iff_two_mul_lt.2 (by omega)
  have hnumwd : rlNumwd.msb = false := by decide
  rw [BitVec.sdiv_eq, hx, hnumwd]
  exact BitVec.toNat_udiv

theorem rlGo_sector (h : s.dev.rl.rlda.toNat % 64 ≤ 40) : (rlGo s).dev.rl.rlda.toNat % 64 ≤ 40 := by
  rw [rlGo_rlda]
  split
  · obtain ⟨htrim, -⟩ := trimmed_moved (c := rl) (s := s) (fun _ => h) nofun
    have hmoved : rl.moved s ≤ rl.requested s := Nat.min_le_left _ _
    have hcut : rl.requested s ≤ (40 - s.dev.rl.rlda.toNat % 64) * 128 := Nat.min_le_right _ _
    have hup : (rl.trimmed s + (rlNumwd - 1)).toNat = rl.moved s + 127 := by
      have hlit : (rlNumwd - 1).toNat = 127 := rfl
      rw [BitVec.toNat_add, htrim, hlit]
      omega
    have hlt := s.dev.rl.rlda.isLt
    rw [BitVec.toNat_add, BitVec.toNat_setWidth, sectors_toNat (by omega), hup]
    omega
  · exact h

/-- A step that does not put a sector field past the end of a track into RLDA. -/
def RlStep.OnSector : RlStep → Prop
  | write addr value => addr = 0o174404 → value.toNat % 64 ≤ 40
  | complete _ => True

theorem RlStep.sector {op : RlStep} (hop : op.OnSector) (h : s.dev.rl.rlda.toNat % 64 ≤ 40) :
    (op.apply s).dev.rl.rlda.toNat % 64 ≤ 40 := by
  cases op with
  | complete now =>
    show (rlPoll _).dev.rl.rlda.toNat % 64 ≤ 40
    unfold rlPoll
    split
    · rwa [rlFinish_rlda]
    · exact h
  | write addr value =>
    show (rlWrite s addr value).dev.rl.rlda.toNat % 64 ≤ 40
    by_cases hrlcs : addr = 0o174400
    · subst hrlcs
      by_cases hdone : value &&& rlcsDone = 0
      · rw [rlWrite_command hdone]
        exact rlGo_sector h
      · have hload : (rlWrite s 0o174400 value).dev.rl.rlda = s.dev.rl.rlda := by
          show (rlWriteRlcs s value).dev.rl.rlda = _
          unfold rlWriteRlcs
          dsimp only
          rw [if_pos hdone]
          split_ifs <;> rfl
        rwa [hload]
    · unfold rlWrite
      rw [if_neg hrlcs]
      split_ifs with hba hda hmp
      · exact h
      · exact hop hda
      · exact h
      · exact h

/-- A program that puts no sector field past the end of a track into RLDA itself never has one
there: a transfer leaves it on the track. -/
theorem sectors_fit_of_writes {ops : List RlStep} (h : s.dev.rl.rlda.toNat % 64 ≤ 40)
    (hops : ∀ op ∈ ops, op.OnSector) : SectorsFit s ops := by
  induction ops generalizing s with
  | nil => trivial
  | cons op ops ih =>
    have hop := hops op (List.mem_cons_self ..)
    exact ⟨fun _ => .inl h,
      ih (RlStep.sector hop h) fun op' hop' => hops op' (List.mem_cons_of_mem op hop')⟩

end

/-- A pack, with RLDA set to the sector after the last and one word to write. -/
def rlPastTrack : List RlStep :=
  [.write 0o174404 0o51, .write 0o174406 0o177777, .write 0o174400 0o12]

/-- The word goes to the next track. -/
theorem rl_leaves_track : ¬∀ (s : Cpu) (ops : List RlStep), TracksKept s ops := by
  intro h
  have hcommand := (h (rlAttach cpuCreate (some fun _ => 0) rl01Words) rlPastTrack).2.2.1
  have hfits := (RlStep.accesses_iff _ _).1 hcommand (by decide)
  exact absurd hfits (by decide)

end Pdp11
