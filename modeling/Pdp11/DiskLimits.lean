import Pdp11.DiskRegisters

namespace Pdp11

open DiskId Stores

/-! Where a transfer stops at the end of an image, and when it completes. -/

/-- The words asked for, 1 to 65536, on the RL11 cut to the end of the track. -/
def DiskId.requested : DiskId → Cpu → ℕ
  | rk, s => 2 ^ 16 - s.dev.rk.rkwc.toNat
  | rl, s => min (2 ^ 16 - s.dev.rl.rlmp.toNat) ((40 - s.dev.rl.rlda.toNat % 64) * 128)
  | rp, s => 2 ^ 16 - s.dev.rp.wc.toNat

/-- The words to be moved: those asked for, as far as the image goes. -/
def DiskId.moved (c : DiskId) (s : Cpu) : ℕ := min (c.requested s) (c.remaining s)

section
variable {c : DiskId} {dir : TransferDirection} {s : Cpu}

theorem asked_eq (h : c = rl → s.dev.rl.rlda.toNat % 64 ≤ 40) :
    (c.asked s).toNat = c.requested s := by
  cases c with
  | rk => exact wordCount_toNat _
  | rl =>
    have hsect := h rfl
    have hmax : ((rlNumsc - rlGetSect s.dev.rl.rlda) * rlNumwd).toNat =
        (40 - s.dev.rl.rlda.toNat % 64) * 128 := by
      have h40 : rlNumsc.toNat = 40 := rfl
      have h128 : rlNumwd.toNat = 128 := rfl
      rw [BitVec.toNat_mul, BitVec.toNat_sub, rlSect_toNat, h40, h128]
      omega
    show (if (rlNumsc - rlGetSect s.dev.rl.rlda) * rlNumwd < wordCount s.dev.rl.rlmp then
      (rlNumsc - rlGetSect s.dev.rl.rlda) * rlNumwd else wordCount s.dev.rl.rlmp).toNat =
        min (2 ^ 16 - s.dev.rl.rlmp.toNat) ((40 - s.dev.rl.rlda.toNat % 64) * 128)
    have hcount := wordCount_toNat s.dev.rl.rlmp
    split
    · rename_i hlt
      have hlt' := BitVec.lt_def.1 hlt
      omega
    · rename_i hlt
      have hlt' := mt BitVec.lt_def.2 hlt
      omega
  | rp => exact wordCount_toNat _

theorem requested_le (c : DiskId) (s : Cpu) : c.requested s ≤ 2 ^ 16 := by
  cases c with
  | rk => exact Nat.sub_le _ _
  | rl => exact Nat.le_trans (Nat.min_le_left _ _) (Nat.sub_le _ _)
  | rp => exact Nat.sub_le _ _

/-- A transfer that begins inside the image, or is not of the RK11, moves the words it should. -/
theorem trimmed_moved (hrl : c = rl → s.dev.rl.rlda.toNat % 64 ≤ 40)
    (hrk : c = rk → (rk.startWord s).toNat ≤ (rk.imageWords s).toNat) :
    (c.trimmed s).toNat = c.moved s ∧ loopCount (c.trimmed s) = c.moved s := by
  have htrimmed : (c.trimmed s).toNat = c.moved s := by
    rw [trimmed_eq hrk, asked_eq hrl]
    rfl
  have hle := requested_le c s
  have hmoved : c.moved s ≤ c.requested s := Nat.min_le_left _ _
  exact ⟨htrimmed, (loopCount_eq (by omega)).trans htrimmed⟩

/-- A transfer of the RK11 that begins past the image counts backwards. -/
theorem rkTrimmed_past (h : (rk.imageWords s).toNat < (rk.startWord s).toNat) :
    (rk.trimmed s).toNat = 2 ^ 32 - ((rk.startWord s).toNat - (rk.imageWords s).toNat) := by
  have hover : rk.imageWords s < rk.startWord s + rk.asked s := (overrun_iff rk s).2 (by omega)
  have htrim : rk.trimmed s = rk.imageWords s - rk.startWord s := by
    show (if rk.imageWords s < rk.startWord s + rk.asked s then rk.imageWords s - rk.startWord s
      else rk.asked s) = _
    exact if_pos hover
  have hstart := startWord_lt rk s
  rw [htrim, BitVec.toNat_sub]
  omega

/-! ## The end of the image -/

/-- The words moved are those the image has, and the registers advance by as many. -/
structure StopsAtImage (c : DiskId) (dir : TransferDirection) (s : Cpu) : Prop where
  words : c.stores (c.go s) = exchange dir (c.physical s) (c.block s) (c.moved s) (c.stores s)
  count : c.count (c.go s) = c.count s + BitVec.ofNat 16 (c.moved s)
  address : ¬c.Inhibited s →
    c.address (c.go s) = (c.address s + 2 * c.moved s) % c.addressSpace
  beyond : (c.imageWords s).toNat ≤ (c.startWord s).toNat →
    c.stores (c.go s) = c.stores s ∧ c.count (c.go s) = c.count s ∧
      c.address (c.go s) = c.address s

/-- An RK11 transfer begins inside the image, or so far behind it that registers which run
backwards come round to where they were. -/
def RkStartFits (s : Cpu) : Prop :=
  (rk.startWord s).toNat ≤ (rk.imageWords s).toNat ∨
    (((rk.startWord s).toNat - (rk.imageWords s).toNat) % 2 ^ 16 = 0 ∧
      (¬rk.Inhibited s → ((rk.startWord s).toNat - (rk.imageWords s).toNat) % 2 ^ 17 = 0))

/-- The registers stay where the image leaves nothing to move. -/
theorem address_still (h : c.Transfers dir s)
    (hk : (2 * (c.trimmed s).toNat) % c.addressSpace = 0 ∨ c.Inhibited s) :
    c.address (c.go s) = c.address s := by
  by_cases hinh : c.Inhibited s
  · exact go_address_inhibited h hinh
  · have hlt := address_lt c s
    have hstill := hk.resolve_right hinh
    rw [go_address h hinh, Nat.add_mod, hstill, Nat.add_zero, Nat.mod_mod, Nat.mod_eq_of_lt hlt]

theorem stopsAtImage_of_trimmed (h : c.Transfers dir s) (htrim : (c.trimmed s).toNat = c.moved s)
    (hloop : loopCount (c.trimmed s) = c.moved s) : StopsAtImage c dir s where
  words := by
    rw [go_stores h, exchanged, hloop]
  count := by
    rw [go_count h, ← htrim, BitVec.ofNat_toNat]
  address hinh := by
    rw [go_address h hinh, htrim]
  beyond hout := by
    have hzero : c.moved s = 0 := by
      have hmin : c.moved s ≤ c.remaining s := Nat.min_le_right _ _
      unfold remaining at hmin
      omega
    refine ⟨?_, ?_, ?_⟩
    · rw [go_stores h, exchanged, hloop, hzero, exchange_zero]
    · have hnone : c.trimmed s = 0 := BitVec.eq_of_toNat_eq (htrim.trans hzero)
      rw [go_count h, hnone]
      exact BitVec.add_zero _
    · exact address_still h (.inl (by rw [htrim, hzero]; exact Nat.zero_mod _))

theorem rkCount_still (h : rk.Transfers dir s)
    (hpast : (rk.imageWords s).toNat < (rk.startWord s).toNat) :
    rk.count (rk.go s) = rk.count s ↔
      ((rk.startWord s).toNat - (rk.imageWords s).toNat) % 2 ^ 16 = 0 := by
  have htrim := rkTrimmed_past hpast
  have hstart := startWord_lt rk s
  rw [go_count h, ← BitVec.toNat_inj, BitVec.toNat_add, BitVec.toNat_setWidth, htrim]
  omega

theorem rkAddress_still (h : rk.Transfers dir s) (hinh : ¬rk.Inhibited s)
    (hpast : (rk.imageWords s).toNat < (rk.startWord s).toNat) :
    rk.address (rk.go s) = rk.address s ↔
      ((rk.startWord s).toNat - (rk.imageWords s).toNat) % 2 ^ 17 = 0 := by
  have htrim := rkTrimmed_past hpast
  have hstart := startWord_lt rk s
  have hlt : rk.address s < 2 ^ 18 := address_lt rk s
  have hspace : rk.addressSpace = 2 ^ 18 := rfl
  rw [go_address h hinh, htrim, hspace]
  omega

/-- A READ or a WRITE stops at the end of the image exactly when it is not an RK11 transfer that
begins behind it. -/
theorem stops_at_image_iff (h : c.Transfers dir s)
    (hsect : c = rl → s.dev.rl.rlda.toNat % 64 < 40) :
    StopsAtImage c dir s ↔ (c = rk → RkStartFits s) := by
  have htrack : c = rl → s.dev.rl.rlda.toNat % 64 ≤ 40 := fun hc => Nat.le_of_lt (hsect hc)
  constructor
  · rintro hstops rfl
    by_cases hin : (rk.startWord s).toNat ≤ (rk.imageWords s).toNat
    · exact .inl hin
    · have hpast : (rk.imageWords s).toNat < (rk.startWord s).toNat := by omega
      obtain ⟨-, hcount, haddress⟩ := hstops.beyond (by omega)
      exact .inr ⟨(rkCount_still h hpast).1 hcount,
        fun hinh => (rkAddress_still h hinh hpast).1 haddress⟩
  · intro hfits
    by_cases hin : c = rk → (rk.startWord s).toNat ≤ (rk.imageWords s).toNat
    · obtain ⟨htrim, hloop⟩ := trimmed_moved htrack hin
      exact stopsAtImage_of_trimmed h htrim hloop
    · obtain ⟨rfl, hout⟩ := Classical.not_imp.1 hin
      obtain ⟨hcount, haddress⟩ := (hfits rfl).resolve_left hout
      have hpast : (rk.imageWords s).toNat < (rk.startWord s).toNat := by omega
      have hmoved : rk.moved s = 0 := by
        have hmin : rk.moved s ≤ rk.remaining s := Nat.min_le_right _ _
        unfold remaining at hmin
        omega
      -- a negative count moves no word
      have hstores : rk.stores (rk.go s) = rk.stores s := by
        have hstart := startWord_lt rk s
        have hneg : loopCount (rk.trimmed s) = 0 := by
          apply loopCount_neg
          rw [rkTrimmed_past hpast]
          omega
        rw [go_stores h, exchanged, hneg, exchange_zero]
      have hstill := (rkCount_still h hpast).2 hcount
      constructor
      · rw [hstores, hmoved, exchange_zero]
      · rw [hstill, hmoved]
        exact (BitVec.add_zero _).symm
      · intro hinh
        rw [(rkAddress_still h hinh hpast).2 (haddress hinh), hmoved, Nat.mul_zero, Nat.add_zero,
          Nat.mod_eq_of_lt (address_lt rk s)]
      · intro _
        refine ⟨hstores, hstill, ?_⟩
        by_cases hinh : rk.Inhibited s
        · exact go_address_inhibited h hinh
        · exact (rkAddress_still h hinh hpast).2 (haddress hinh)

/-- An RK11 with an image of one sector, asked to read a word of the third. -/
def rkShortImage : Cpu :=
  let s := rkAttach cpuCreate (some fun _ => 0) 256
  { s with
    dev.rk.rkcs := 0o4
    dev.rk.rkda := 2
    dev.rk.rkwc := 0o177777 }

theorem rkShortImage_transfers : rk.Transfers .toMemory rkShortImage :=
  ⟨by decide, rfl, by decide⟩

/-- The word count goes back by 256 where nothing is moved. -/
theorem rk_counts_backwards :
    ¬∀ (c : DiskId) (dir : TransferDirection) (s : Cpu), c.Transfers dir s →
      (c = rl → s.dev.rl.rlda.toNat % 64 < 40) → StopsAtImage c dir s := by
  intro h
  have hstops := h rk .toMemory rkShortImage rkShortImage_transfers nofun
  have hstill := (hstops.beyond (by decide)).2.1
  exact absurd ((rkCount_still rkShortImage_transfers (by decide)).1 hstill) (by decide)

/-- A read of two sectors from the start of the same image stops after the first. -/
theorem rk_read_cut_short :
    StopsAtImage rk .toMemory
      { rkShortImage with
        dev.rk.rkda := 0
        dev.rk.rkwc := 0o177000 } :=
  (stops_at_image_iff (c := .rk)
    (s := { rkShortImage with
      dev.rk.rkda := 0
      dev.rk.rkwc := 0o177000 })
    ⟨by decide, rfl, by decide⟩ nofun).2 fun _ => .inl (by decide)

/-! ## Completion -/

/-- The word count at GO, 1 to 65536. -/
def DiskId.words (c : DiskId) (s : Cpu) : ℕ := 2 ^ 16 - (c.count s).toNat

def DiskId.doneNs : DiskId → Cpu → Time
  | rk, s => s.dev.rk.doneNs
  | rl, s => s.dev.rl.doneNs
  | rp, s => s.dev.rp.doneNs

def DiskId.baseNs : DiskId → Time
  | rk => rkBaseNs
  | rl => rlBaseNs
  | rp => rpBaseNs

def DiskId.wordNs : DiskId → BitVec 32
  | rk => rkWordNs
  | rl => rlWordNs
  | rp => rpWordNs

/-- The transfer neither overruns the image nor, on the RL11, crosses the end of the track. -/
structure Fits (c : DiskId) (s : Cpu) : Prop where
  image : (c.startWord s).toNat + c.words s ≤ (c.imageWords s).toNat
  track : c = rl → c.words s ≤ (40 - s.dev.rl.rlda.toNat % 64) * 128

/-- The time a completion held for `n` words comes. -/
def DiskId.due (c : DiskId) (now : Time) (n : ℕ) : Time :=
  now + c.baseNs + BitVec.ofNat 64 (n * c.wordNs.toNat)

theorem words_pos (c : DiskId) (s : Cpu) : 0 < c.words s := by
  have := (c.count s).isLt
  unfold words
  omega

theorem words_le (c : DiskId) (s : Cpu) : c.words s ≤ 2 ^ 16 := Nat.sub_le _ _

theorem wordNs_toNat (c : DiskId) : c.wordNs.toNat = 100 := by
  cases c <;> rfl

/-- The delay of a count as the controllers compute it. -/
theorem delay_eq {wc : BitVec 32} {n : ℕ} (hwc : wc.toNat = n) (hn : n ≤ 2 ^ 16) (c : DiskId) :
    ((if 0 < wc.toInt then wc else 0) * c.wordNs).setWidth 64 =
      BitVec.ofNat 64 (n * c.wordNs.toNat) := by
  have hint : wc.toInt = n := by
    rw [BitVec.toInt_eq_toNat_of_lt (by omega), hwc]
  have hpos : (if 0 < wc.toInt then wc else 0) = wc := by
    split
    · rfl
    · have hzero : n = 0 := by omega
      exact BitVec.eq_of_toNat_eq (hwc.trans hzero).symm
  have hns := wordNs_toNat c
  rw [hpos]
  apply BitVec.eq_of_toNat_eq
  have hlt : n * 100 < 2 ^ 32 := by omega
  rw [BitVec.toNat_setWidth, BitVec.toNat_mul, hwc, BitVec.toNat_ofNat, hns, Nat.mod_eq_of_lt hlt]

theorem Fits.requested (hfits : Fits c s) : c.requested s = c.words s := by
  cases c with
  | rk => rfl
  | rl => exact Nat.min_eq_left (hfits.track rfl)
  | rp => rfl

/-- A transfer that fits goes through all its words. -/
theorem Fits.loop (hfits : Fits c s) :
    (c.trimmed s).toNat = c.words s ∧ loopCount (c.trimmed s) = c.words s := by
  have himage := hfits.image
  have hpos := words_pos c s
  have hreq := hfits.requested
  have htrack := hfits.track
  have hmoved : c.moved s = c.words s := by
    unfold DiskId.moved remaining
    omega
  rw [← hmoved]
  refine trimmed_moved (fun hc => ?_) fun hc => ?_
  · have hcut := htrack hc
    omega
  · subst hc
    omega

/-- It runs its count out. -/
theorem Fits.count_done (hfits : Fits c s) (h : c.Transfers dir s) : c.count (c.go s) = 0 := by
  obtain ⟨htrim, -⟩ := hfits.loop
  have hcount := (c.count s).isLt
  rw [go_count h]
  apply BitVec.eq_of_toNat_eq
  rw [BitVec.toNat_add, BitVec.toNat_setWidth, htrim]
  show ((c.count s).toNat + (2 ^ 16 - (c.count s).toNat) % 2 ^ 16) % 2 ^ 16 = 0
  omega

/-- The time the completion of a transfer that fits comes; on the RL11 the count is read when the
transfer has run it out. -/
theorem go_doneNs (h : c.Transfers dir s) (hfits : Fits c s) :
    c.doneNs (c.go s) = c.due s.acct.timeNs (if c = rl then 2 ^ 16 else c.words s) := by
  have hle := words_le c s
  have hreq := hfits.requested
  unfold due
  cases c with
  | rk =>
    obtain ⟨cs, er, -, -, -, hrk⟩ := rkGo_after h
    have hasked : (rk.asked s).toNat = rk.words s := (asked_eq (c := .rk) nofun).trans hreq
    have hne : DiskId.rk ≠ rl := by decide
    show (rkGo s).dev.rk.doneNs = _
    rw [if_neg hne, ← delay_eq hasked hle, hrk]
    rfl
  | rl =>
    obtain ⟨-, -, hrl⟩ := rlGo_after h
    have hdone : s.dev.rl.rlmp + (rl.trimmed s).setWidth 16 = 0 := by
      rw [← hfits.count_done h]
      exact (go_count h).symm
    have hcount : (wordCount 0).toNat = 2 ^ 16 := rfl
    have hself : DiskId.rl = rl := rfl
    show (rlGo s).dev.rl.doneNs = _
    rw [if_pos hself, ← delay_eq hcount (Nat.le_refl _), hrl]
    dsimp only
    rw [hdone]
    rfl
  | rp =>
    obtain ⟨-, -, hrp⟩ := rpGo_after h
    have hasked : (rp.asked s).toNat = rp.words s := (asked_eq (c := .rp) nofun).trans hreq
    have hne : DiskId.rp ≠ rl := by decide
    show (rpGo s).dev.rp.doneNs = _
    rw [if_neg hne, ← delay_eq hasked hle, hrp]
    rfl

theorem due_toNat (c : DiskId) {now : Time} {n : ℕ} (hnow : now.toNat < 2 ^ 63) (hn : n ≤ 2 ^ 16) :
    (c.due now n).toNat = now.toNat + c.baseNs.toNat + n * 100 := by
  have hbase : c.baseNs.toNat ≤ 2000000 := by cases c <;> decide
  unfold due
  rw [BitVec.toNat_add, BitVec.toNat_add, BitVec.toNat_ofNat, wordNs_toNat]
  omega

theorem due_inj {now : Time} {m n : ℕ} (hm : m ≤ 2 ^ 16) (hn : n ≤ 2 ^ 16)
    (h : c.due now m = c.due now n) : m = n := by
  have hm' : m * 100 < 2 ^ 64 := by omega
  have hn' : n * 100 < 2 ^ 64 := by omega
  have hdelay : BitVec.ofNat 64 (m * c.wordNs.toNat) = BitVec.ofNat 64 (n * c.wordNs.toNat) :=
    (BitVec.add_right_inj (now + c.baseNs)).1 h
  rw [wordNs_toNat, ← BitVec.toNat_inj, BitVec.toNat_ofNat, BitVec.toNat_ofNat,
    Nat.mod_eq_of_lt hm', Nat.mod_eq_of_lt hn'] at hdelay
  omega

/-- The completion comes after the base delay and the delay of the words, and no sooner for more of
them. -/
structure CompletionFollows (c : DiskId) (s : Cpu) : Prop where
  due : c.doneNs (c.go s) = c.due s.acct.timeNs (c.words s)
  mono : s.acct.timeNs.toNat < 2 ^ 63 → ∀ (dir : TransferDirection) (t : Cpu), c.Transfers dir t →
    Fits c t → t.acct.timeNs = s.acct.timeNs → c.words s ≤ c.words t →
    c.doneNs (c.go s) ≤ c.doneNs (c.go t)

/-- The completion of a transfer follows its length exactly on the RK11 and on the RP04. -/
theorem completion_follows_iff (h : c.Transfers dir s) (hfits : Fits c s) :
    CompletionFollows c s ↔ c ≠ rl := by
  have hdone := go_doneNs h hfits
  constructor
  · rintro ⟨hdue, -⟩ rfl
    have htrack := hfits.track rfl
    have hself : DiskId.rl = rl := rfl
    rw [if_pos hself] at hdone
    have hwords := due_inj (Nat.le_refl _) (words_le rl s) (hdone.symm.trans hdue)
    omega
  · intro hrl
    rw [if_neg hrl] at hdone
    refine ⟨hdone, fun hnow dir' t ht hfits' htime hle => ?_⟩
    rw [hdone, go_doneNs ht hfits', if_neg hrl, htime, BitVec.le_def,
      due_toNat c hnow (words_le c s), due_toNat c hnow (words_le c t)]
    omega

/-- A pack on the RL11, and a READ of one word of its first sector. -/
def rlOneWord : Cpu :=
  let s := rlAttach cpuCreate (some fun _ => 0) rl01Words
  { s with
    dev.rl.rlcs := 0o14
    dev.rl.rlmp := 0o177777 }

/-- One word takes the time of 65536. -/
theorem rl_completes_late :
    ¬∀ (c : DiskId) (dir : TransferDirection) (s : Cpu), c.Transfers dir s → Fits c s →
      CompletionFollows c s := by
  intro h
  have htransfers : rl.Transfers .toMemory rlOneWord := ⟨by decide, rfl, by decide⟩
  have hfits : Fits rl rlOneWord := ⟨by decide, fun _ => by decide⟩
  have hself : DiskId.rl = rl := rfl
  have hdone := go_doneNs htransfers hfits
  rw [if_pos hself] at hdone
  have hdue := (h rl .toMemory rlOneWord htransfers hfits).due
  have hwords := due_inj (Nat.le_refl _) (words_le rl rlOneWord) (hdone.symm.trans hdue)
  exact absurd hwords (by decide)

/-- The RK11 completes a READ of one word in its time. -/
theorem rk_completes_a_word :
    CompletionFollows rk { rkShortImage with dev.rk.rkda := 0 } := by
  have htransfers : rk.Transfers .toMemory { rkShortImage with dev.rk.rkda := 0 } :=
    ⟨by decide, rfl, by decide⟩
  exact (completion_follows_iff htransfers ⟨by decide, nofun⟩).2 (by decide)

end

end Pdp11
