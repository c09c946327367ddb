import Pdp11.DiskAddresses

namespace Pdp11

open DiskId Stores

/-! A transfer in two commands has the effect of one. -/

/-! ## The RK11 -/

/-- An address that has wrapped names the same word of the bus. -/
theorem chain_address (a n i : ℕ) :
    (BitVec.ofNat 32 ((a + 2 * n) % 2 ^ 18 + 2 * i)).toNat % 2 ^ 18 =
      (BitVec.ofNat 32 (a + 2 * (n + i))).toNat % 2 ^ 18 := by
  rw [BitVec.toNat_ofNat, BitVec.toNat_ofNat]
  omega

/-- The sector in RKDA, counted from the start of the disk. -/
def rkSector (s : Cpu) : ℕ := s.dev.rk.rkda.toNat / 16 % 512 * 12 + s.dev.rk.rkda.toNat % 16

/-- A transfer of `n` words from `s` to `t`: word `i` between disk and memory, the count run out, the
address on by two bytes a word and the disk address by the sectors begun. -/
structure RkExact (dir : TransferDirection) (n : ℕ) (s t : Cpu) : Prop where
  words : rk.stores t = exchange dir
    (fun i => memIndex (unibusMap s (BitVec.ofNat 32 (rk.address s + 2 * i))))
    (fun i => BitVec.ofNat 32 (rkSector s * 256 + i)) n (rk.stores s)
  count : t.dev.rk.rkwc = 0
  address : rk.address t = (rk.address s + 2 * n) % 2 ^ 18
  sector : rkSector t = rkSector s + (n + 255) / 256
  drive : t.dev.rk.rkda &&& rkdaDrive = s.dev.rk.rkda &&& rkdaDrive

/-- A command that is ready to start: a READ or a WRITE of drive 0 with the increment on, that does
not run past its RK05 pack (203 cylinders of two surfaces of 12 sectors of 256 words). Bit 0 of RKBA
is not there. -/
structure RkReady (dir : TransferDirection) (s : Cpu) : Prop where
  transfers : rk.Transfers dir s
  pack : (rk.imageWords s).toNat = 203 * 2 * 12 * 256
  inside : rkSector s * 256 + rk.words s ≤ 203 * 2 * 12 * 256
  increment : ¬rk.Inhibited s
  even : s.dev.rk.rkba.toNat % 2 = 0

section
variable {dir : TransferDirection} {s t : Cpu}

theorem rkStartWord_eq (s : Cpu) : (rk.startWord s).toNat = rkSector s * 256 := rkStartWord_toNat s

theorem RkReady.fits (h : RkReady dir s) : Fits rk s where
  image := by
    rw [rkStartWord_eq, h.pack]
    exact h.inside
  track := nofun

theorem rkBlock_eq (s : Cpu) (i : ℕ) : rk.block s i = BitVec.ofNat 32 (rkSector s * 256 + i) := by
  have hstart : rk.startWord s = BitVec.ofNat 32 (rkSector s * 256) := by
    rw [← rkStartWord_eq, BitVec.ofNat_toNat, BitVec.setWidth_eq]
  rw [BitVec.ofNat_add, ← hstart]
  rfl

theorem rkAddress_even (heven : s.dev.rk.rkba.toNat % 2 = 0) :
    rk.address s = (rk.busAddress s).toNat := by
  have hbus : (rk.busAddress s).toNat = _ := extended_toNat s.dev.rk.rkcs s.dev.rk.rkba
  rw [rk_address]
  omega

theorem rkPhysical_eq (heven : s.dev.rk.rkba.toNat % 2 = 0) (i : ℕ) :
    rk.physical s i = memIndex (unibusMap s (BitVec.ofNat 32 (rk.address s + 2 * i))) := by
  have hbus : rk.busAddress s + BitVec.ofNat 32 (i * 2) =
      BitVec.ofNat 32 (rk.address s + 2 * i) := by
    rw [rkAddress_even heven, BitVec.ofNat_add, BitVec.ofNat_toNat, BitVec.setWidth_eq,
      Nat.mul_comm]
  show memIndex (unibusMap s (rk.busAddress s + BitVec.ofNat 32 (i * 2))) = _
  rw [hbus]

/-- The disk address a sector has, on drive 0. -/
def rkEncode (sector : ℕ) : Word := BitVec.ofNat 16 (sector / 12 * 16 + sector % 12)

/-- The disk address after a transfer. -/
theorem RkReady.rkda (h : RkReady dir s) :
    (rkGo s).dev.rk.rkda = rkEncode (rkSector s + (rk.words s + 255) / 256) := by
  obtain ⟨cs, er, -, -, -, hrk⟩ := rkGo_after h.transfers
  obtain ⟨hdrive, hsect, hcyl⟩ := h.transfers.checks
  obtain ⟨htrim, -⟩ := h.fits.loop
  have hinside := h.inside
  have h256 : rkNumwd.toNat = 256 := rfl
  have h255 : (rkNumwd - 1).toNat = 255 := rfl
  have h12 : rkNumsc.toNat = 12 := rfl
  have hend : (rkEndSector s).toNat = rkSector s + (rk.words s + 255) / 256 := by
    unfold rkEndSector
    rw [BitVec.toNat_udiv, BitVec.toNat_add, BitVec.toNat_add, htrim, rkStartWord_eq, h256, h255]
    omega
  have htrack : (((rkEndSector s / rkNumsc) <<< 4).setWidth 16).toNat =
      (rkSector s + (rk.words s + 255) / 256) / 12 * 16 := by
    rw [BitVec.toNat_setWidth, BitVec.toNat_shiftLeft, BitVec.toNat_udiv, hend, h12,
      Nat.shiftLeft_eq]
    omega
  have hsector : ((rkEndSector s % rkNumsc).setWidth 16).toNat =
      (rkSector s + (rk.words s + 255) / 256) % 12 := by
    rw [BitVec.toNat_setWidth, BitVec.toNat_umod, hend, h12]
    omega
  rw [hrk]
  dsimp only
  have hzero (x : Word) : 0 ||| x = x := BitVec.zero_or
  rw [hdrive, hzero]
  apply BitVec.eq_of_toNat_eq
  unfold rkEncode
  rw [BitMask.toNat_or_low (i := 4), htrack, hsector, BitVec.toNat_ofNat]
  · omega
  · rw [htrack]
    omega
  · rw [hsector]
    omega

theorem rkEncode_toNat {sector : ℕ} (h : sector ≤ 203 * 2 * 12) :
    (rkEncode sector).toNat = sector / 12 * 16 + sector % 12 := by
  unfold rkEncode
  rw [BitVec.toNat_ofNat]
  omega

theorem RkReady.sector_le (h : RkReady dir s) :
    rkSector s + (rk.words s + 255) / 256 ≤ 203 * 2 * 12 := by
  have hinside := h.inside
  omega

/-- A command that is ready transfers its words exactly. -/
theorem RkReady.exact (h : RkReady dir s) : RkExact dir (rk.words s) s (rkGo s) where
  words := by
    have hstores : rk.stores (rkGo s) = rk.exchanged dir s := go_stores (c := .rk) h.transfers
    rw [hstores, exchanged, h.fits.loop.2]
    exact exchange_congr (fun i _ => rkPhysical_eq h.even i) fun i _ => rkBlock_eq s i
  count := h.fits.count_done h.transfers
  address := by
    have haddress := go_address h.transfers h.increment
    rw [h.fits.loop.1] at haddress
    exact haddress
  sector := by
    have hle := h.sector_le
    unfold rkSector at hle ⊢
    rw [h.rkda, rkEncode_toNat h.sector_le]
    unfold rkSector
    omega
  drive := by
    have hdrive : s.dev.rk.rkda &&& rkdaDrive = 0 := h.transfers.checks.1
    have hle := h.sector_le
    rw [hdrive, h.rkda]
    apply BitVec.eq_of_toNat_eq
    have hfield : (rkEncode (rkSector s + (rk.words s + 255) / 256) &&& rkdaDrive).toNat =
        (rkEncode (rkSector s + (rk.words s + 255) / 256)).toNat / 2 ^ 13 % 2 ^ 3 * 2 ^ 13 :=
      BitMask.toNat_and_field (i := 13) (n := 3) _ (by decide)
    have hnone : (0 : Word).toNat = 0 := rfl
    rw [hfield, rkEncode_toNat hle, hnone]
    omega

/-! ### Two commands on the RK11 -/

/-- RKWC loaded for `n` words. -/
def rkLoad (s : Cpu) (n : ℕ) : Cpu := rkWrite s 0o177406 (BitVec.ofNat 16 (2 ^ 16 - n))

/-- RKWC loaded for `n` words, and a command word written to RKCS. -/
def rkStart (s : Cpu) (n : ℕ) (value : Word) : Cpu := rkWrite (rkLoad s n) 0o177404 value

/-- The completion of the command outstanding in `u` has come by `v`, and the program has left the
RK11, memory and the Unibus Map alone. -/
structure RkCompletes (u v : Cpu) : Prop where
  route : SameRoute u v
  mem : v.mem = u.mem
  polled : ∃ w : Cpu, w.dev.rk = u.dev.rk ∧ u.dev.rk.doneNs ≤ w.acct.timeNs ∧
    v.dev.rk = (rkPoll w).dev.rk

/-- A command word with the function of another and the address extension RKCS holds. -/
structure RkContinues (value : Word) (v : Cpu) (value' : Word) : Prop where
  go : value' &&& rkcsGo ≠ 0
  func : value' &&& rkcsFunc = value &&& rkcsFunc
  increment : value' &&& rkcsInh = 0
  mex : value' &&& rkcsMex = rkRead v 0o177404 &&& rkcsMex

/-- The same words in memory and on the disk, and the same count, memory address and disk address. -/
structure RkSame (t u : Cpu) : Prop where
  stores : rk.stores t = rk.stores u
  count : t.dev.rk.rkwc = u.dev.rk.rkwc
  address : rk.address t = rk.address u
  disk : t.dev.rk.rkda = u.dev.rk.rkda

theorem rkLoad_words {n : ℕ} (hpos : 1 ≤ n) (hn : n ≤ 2 ^ 16) (value : Word) :
    rk.words (rkCommand (rkLoad s n) value) = n := by
  show 2 ^ 16 - (BitVec.ofNat 16 (2 ^ 16 - n)).toNat = n
  rw [BitVec.toNat_ofNat]
  omega

theorem rkWrite_starts {value : Word} (h : rkStarts s value) : ∃ req,
    rkWrite s 0o177404 value = rkGo { rkCommand s value with dev.intReq := req } := by
  obtain ⟨req, hreq⟩ := request_ite { s with dev.rk.rkcs := s.dev.rk.rkcs &&& rkcsReal } .rk
    (value &&& rkcsIe = 0) ((s.dev.rk.rkcs &&& rkcsReal) &&& (rkcsDone ||| rkcsIe) = rkcsDone)
  dsimp only at hreq
  unfold rkWrite
  dsimp only
  rw [if_pos rfl, hreq]
  exact ⟨req, if_pos h⟩

theorem rkStarts_idle {value : Word} (hidle : s.dev.rk.rkcs &&& rkcsDone ≠ 0)
    (hgo : value &&& rkcsGo ≠ 0) : rkStarts s value := by
  have hbits : (rkCommand s value).dev.rk.rkcs &&& rkcsDone = s.dev.rk.rkcs &&& rkcsDone := by
    show (((s.dev.rk.rkcs &&& rkcsReal) &&& ~~~rkcsRw) ||| (value &&& rkcsRw)) &&& rkcsDone = _
    rw [BitMask.load_and_eq _ _ (by decide), BitVec.and_assoc,
      show rkcsReal &&& rkcsDone = rkcsDone by decide]
  exact ⟨by rwa [hbits], hgo⟩

theorem RkReady.request (h : RkReady dir s) (req : BitVec 32) :
    RkReady dir { s with dev.intReq := req } where
  transfers := ⟨by cases dir <;> exact h.transfers.asks, h.transfers.attached, h.transfers.checks⟩
  pack := h.pack
  inside := h.inside
  increment := h.increment
  even := h.even

section
variable {n : ℕ} {value : Word} (hidle : s.dev.rk.rkcs &&& rkcsDone ≠ 0)
  (hgo : value &&& rkcsGo ≠ 0) (hpos : 1 ≤ n) (hn : n ≤ 2 ^ 16)
  (hready : RkReady dir (rkCommand (rkLoad s n) value))
include hidle hgo hpos hn hready

/-- The words a command that is ready transfers, from the write of RKCS on. -/
theorem rkStart_exact : RkExact dir n (rkCommand (rkLoad s n) value) (rkStart s n value) := by
  obtain ⟨req, hstart⟩ := rkWrite_starts (rkStarts_idle (s := rkLoad s n) hidle hgo)
  have hexact := (hready.request req).exact
  have hwords : rk.words { rkCommand (rkLoad s n) value with dev.intReq := req } = n :=
    rkLoad_words hpos hn value
  rw [hwords] at hexact
  have hgoes : rkStart s n value = rkGo { rkCommand (rkLoad s n) value with dev.intReq := req } :=
    hstart
  rw [hgoes]
  exact ⟨hexact.words, hexact.count, hexact.address, hexact.sector, hexact.drive⟩

/-- What else it leaves. -/
theorem rkStart_left : SameRoute s (rkStart s n value) ∧ (rkStart s n value).dev.rk.busy = true ∧
    (rkStart s n value).dev.rk.disk.isSome ∧
    (rkStart s n value).dev.rk.diskWords = s.dev.rk.diskWords ∧
    (rkStart s n value).dev.rk.rkba.toNat % 2 = 0 ∧
    (rkStart s n value).dev.rk.rkda = rkEncode (rkSector s + (n + 255) / 256) := by
  obtain ⟨req, hstart⟩ := rkWrite_starts (rkStarts_idle (s := rkLoad s n) hidle hgo)
  have hready' := hready.request req
  have hwords : rk.words { rkCommand (rkLoad s n) value with dev.intReq := req } = n :=
    rkLoad_words hpos hn value
  have hgoes : rkStart s n value = rkGo { rkCommand (rkLoad s n) value with dev.intReq := req } :=
    hstart
  obtain ⟨cs, er, -, -, hroute, hrk⟩ := rkGo_after hready'.transfers
  have hrkda := hready'.rkda
  rw [hwords] at hrkda
  rw [hgoes]
  refine ⟨⟨hroute.cfg, hroute.mmr3, hroute.ubMap⟩, ?_, ?_, ?_, ?_, hrkda⟩
  · rw [hrk]
  · rw [hrk]
    rfl
  · rw [hrk]
    rfl
  · rw [hrk]
    dsimp only
    rw [rkbaImp_toNat]
    omega

end

/-- A completion that has come has set DONE. -/
theorem RkCompletes.rk {u v : Cpu} (h : RkCompletes u v) (hbusy : u.dev.rk.busy = true) :
    v.dev.rk = { u.dev.rk with
      busy := false
      rkcs := u.dev.rk.rkcs ||| rkcsDone } := by
  obtain ⟨w, hw, hdue, hv⟩ := h.polled
  have hpoll : rkPoll w = rkFinish w := by
    apply if_pos
    rw [hw]
    exact ⟨hbusy, hdue⟩
  rw [hv, hpoll, ← hw]
  unfold rkFinish
  dsimp only
  split <;> rfl

theorem rkCommand_and (s : Cpu) (value : Word) {m : Word} (hm : rkcsRw &&& m = m) :
    (rkCommand s value).dev.rk.rkcs &&& m = value &&& m := BitMask.load_and_self _ _ hm

theorem rkCommand_asks {value value' : Word} (h : value' &&& rkcsFunc = value &&& rkcsFunc)
    (hasks : rk.Asks dir (rkCommand s value)) : rk.Asks dir (rkCommand t value') := by
  have hfunc : (rkCommand t value').dev.rk.rkcs &&& rkcsFunc =
      (rkCommand s value).dev.rk.rkcs &&& rkcsFunc := by
    rw [rkCommand_and t value' (by decide), rkCommand_and s value (by decide), h]
  cases dir
  · show ((rkCommand t value').dev.rk.rkcs &&& rkcsFunc) >>> 1 = rkFuncRead
    rw [hfunc]
    exact hasks
  · show ((rkCommand t value').dev.rk.rkcs &&& rkcsFunc) >>> 1 = rkFuncWrite
    rw [hfunc]
    exact hasks

theorem rkCyl_toNat (x : Word) : (rkGetCyl x).toNat = x.toNat / 32 % 256 :=
  field_toNat (i := 5) (n := 8) x (by decide)

/-- The disk address of a sector inside the pack passes the checks. -/
theorem rkEncode_checks {sector : ℕ} (h : sector < 203 * 2 * 12)
    (hda : s.dev.rk.rkda = rkEncode sector) : rk.Checks s ∧ rkSector s = sector := by
  have hnat : s.dev.rk.rkda.toNat = sector / 12 * 16 + sector % 12 := by
    rw [hda, rkEncode_toNat (by omega)]
  have hnone : (0 : Word).toNat = 0 := rfl
  have h12 : rkNumsc.toNat = 12 := rfl
  have h203 : rkNumcy.toNat = 203 := rfl
  refine ⟨⟨?_, ?_, ?_⟩, ?_⟩
  · apply BitVec.eq_of_toNat_eq
    have hfield : (s.dev.rk.rkda &&& rkdaDrive).toNat =
        s.dev.rk.rkda.toNat / 2 ^ 13 % 2 ^ 3 * 2 ^ 13 :=
      BitMask.toNat_and_field (i := 13) (n := 3) _ (by decide)
    rw [hfield, hnat, hnone]
    omega
  · rw [BitVec.lt_def, rkSect_toNat, hnat, h12]
    omega
  · rw [BitVec.lt_def, rkCyl_toNat, hnat, h203]
    omega
  · unfold rkSector
    rw [hnat]
    omega

section
variable {n1 n2 : ℕ} {v : Cpu} {value value' : Word}

/-- A shorter transfer is ready too. -/
theorem RkReady.shorter (h : RkReady dir (rkCommand (rkLoad s (n1 + n2)) value)) (h1 : 0 < n1)
    (hn : n1 + n2 ≤ 2 ^ 16) : RkReady dir (rkCommand (rkLoad s n1) value) where
  transfers := ⟨by cases dir <;> exact h.transfers.asks, h.transfers.attached, h.transfers.checks⟩
  pack := h.pack
  inside := by
    have hinside := h.inside
    have hsector (n : ℕ) : rkSector (rkCommand (rkLoad s n) value) = rkSector s := rfl
    rw [rkLoad_words (by omega) hn, hsector] at hinside
    rw [rkLoad_words h1 (by omega), hsector]
    omega
  increment := h.increment
  even := h.even

theorem sectors_add {b : ℕ} (h256 : n1 % 256 = 0) :
    b + n1 / 256 + (n2 + 255) / 256 = b + (n1 + n2 + 255) / 256 := by
  obtain ⟨q, rfl⟩ := Nat.dvd_of_mod_eq_zero h256
  rw [Nat.mul_div_cancel_left q (by decide), Nat.add_assoc (256 * q),
    Nat.mul_add_div (by decide), Nat.add_assoc]

theorem sectors_words {b i : ℕ} (h256 : n1 % 256 = 0) :
    (b + n1 / 256) * 256 + i = b * 256 + (n1 + i) := by
  rw [Nat.add_mul, Nat.div_mul_cancel (Nat.dvd_of_mod_eq_zero h256), Nat.add_assoc]

/-- Whole sectors are taken off the front of a transfer. -/
theorem sectors_room {b size : ℕ} (h256 : n1 % 256 = 0) (h : b * 256 + (n1 + n2) ≤ size) :
    (b + n1 / 256) * 256 + n2 ≤ size := by
  rw [sectors_words h256]
  exact h

/-- The second command is ready once the first has completed. -/
theorem RkReady.again (h : RkReady dir (rkCommand (rkLoad s (n1 + n2)) value))
    (hidle : s.dev.rk.rkcs &&& rkcsDone ≠ 0) (hgo : value &&& rkcsGo ≠ 0) (h1 : 0 < n1)
    (h256 : n1 % 256 = 0) (h2 : 1 ≤ n2) (hn : n1 + n2 ≤ 2 ^ 16)
    (hcomplete : RkCompletes (rkStart s n1 value) v) (hcontinue : RkContinues value v value') :
    RkReady dir (rkCommand (rkLoad v n2) value') ∧
      rkSector (rkCommand (rkLoad v n2) value') = rkSector s + n1 / 256 := by
  have hinside : rkSector s * 256 + (n1 + n2) ≤ 203 * 2 * 12 * 256 := by
    rw [← rkLoad_words (s := s) (by omega) hn value]
    exact h.inside
  have hend : rkSector s + (n1 + 255) / 256 = rkSector s + n1 / 256 := by omega
  have hroom := sectors_room h256 hinside
  have hlast : rkSector s + n1 / 256 < 203 * 2 * 12 := by omega
  obtain ⟨-, hbusy, hattached, hpack, heven, hda⟩ :=
    rkStart_left hidle hgo h1 (by omega) (h.shorter h1 hn)
  have hv := hcomplete.rk hbusy
  have hda' : (rkCommand (rkLoad v n2) value').dev.rk.rkda = rkEncode (rkSector s + n1 / 256) := by
    show v.dev.rk.rkda = _
    rw [hv, ← hend, ← hda]
  obtain ⟨hchecks, hsector'⟩ := rkEncode_checks hlast hda'
  refine ⟨⟨⟨rkCommand_asks hcontinue.func h.transfers.asks, ?_, hchecks⟩, ?_, ?_, ?_, ?_⟩, hsector'⟩
  · show v.dev.rk.disk.isSome
    rw [hv]
    exact hattached
  · show v.dev.rk.diskWords.toNat = _
    rw [hv]
    show (rkStart s n1 value).dev.rk.diskWords.toNat = _
    rw [hpack]
    exact h.pack
  · rw [hsector', rkLoad_words h2 (by omega)]
    exact hroom
  · show ¬((rkCommand (rkLoad v n2) value').dev.rk.rkcs &&& rkcsInh ≠ 0)
    rw [rkCommand_and _ _ (by decide)]
    exact not_not.2 hcontinue.increment
  · show v.dev.rk.rkba.toNat % 2 = 0
    rw [hv]
    exact heven

/-- The address a command that keeps MEX begins at. -/
theorem RkContinues.address (h : RkContinues value v value') (n : ℕ) :
    rk.address (rkCommand (rkLoad v n) value') = rk.address v := by
  have hread : rkRead v 0o177404 &&& rkcsMex = v.dev.rk.rkcs &&& rkcsMex := by
    unfold rkRead
    dsimp only
    rw [if_neg (by decide), if_pos rfl]
    have hreal : (v.dev.rk.rkcs &&& rkcsReal) &&& rkcsMex = v.dev.rk.rkcs &&& rkcsMex := by
      rw [BitVec.and_assoc, show rkcsReal &&& rkcsMex = rkcsMex by decide]
    split_ifs
    · rw [BitMask.or_and_eq _ (by decide), BitMask.or_and_eq _ (by decide), hreal]
    · rw [BitMask.or_and_eq _ (by decide), hreal]
    · rw [BitMask.or_and_eq _ (by decide), hreal]
    · exact hreal
  show (((rkCommand (rkLoad v n) value').dev.rk.rkcs &&& rkcsMex) >>> 4).toNat * 2 ^ 16 +
    (v.dev.rk.rkba &&& rkbaImp).toNat = _
  rw [rkCommand_and _ _ (by decide), h.mex, hread]
  rfl

end

/-- A transfer of the RK11 is exact, and one of a whole number of sectors taken up by a second
command with the address it left has the effect of one transfer. -/
theorem rk_transfers_chain (dir : TransferDirection) (s : Cpu) (value : Word)
    (hidle : s.dev.rk.rkcs &&& rkcsDone ≠ 0) (hgo : value &&& rkcsGo ≠ 0) :
    (∀ n, 1 ≤ n → n ≤ 2 ^ 16 → RkReady dir (rkCommand (rkLoad s n) value) →
      RkExact dir n (rkCommand (rkLoad s n) value) (rkStart s n value)) ∧
    ∀ n1 n2, 0 < n1 → n1 % 256 = 0 → 1 ≤ n2 → n1 + n2 ≤ 2 ^ 16 →
      RkReady dir (rkCommand (rkLoad s (n1 + n2)) value) → ∀ v value',
        RkCompletes (rkStart s n1 value) v → RkContinues value v value' →
          RkSame (rkStart v n2 value') (rkStart s (n1 + n2) value) := by
  refine ⟨fun n hpos hn hready => rkStart_exact hidle hgo hpos hn hready, ?_⟩
  intro n1 n2 h1 h256 h2 hn hready v value' hcomplete hcontinue
  have hshort := hready.shorter h1 hn
  have hfirst := rkStart_exact hidle hgo h1 (by omega) hshort
  obtain ⟨hroute, hbusy, -, -, -, -⟩ := rkStart_left hidle hgo h1 (by omega) hshort
  have hwhole := rkStart_exact hidle hgo (by omega) hn hready
  have hwholeda := (rkStart_left hidle hgo (by omega) hn hready).2.2.2.2.2
  obtain ⟨hagain, hsector⟩ := hready.again hidle hgo h1 h256 h2 hn hcomplete hcontinue
  have hv := hcomplete.rk hbusy
  have hidle' : v.dev.rk.rkcs &&& rkcsDone ≠ 0 := by
    have hset : (v.dev.rk.rkcs) &&& rkcsDone = rkcsDone := by
      rw [hv]
      exact BitMask.or_and_self _ _
    rw [hset]
    decide
  have hsecond := rkStart_exact hidle' hcontinue.go h2 (by omega) hagain
  have hsecondda := (rkStart_left hidle' hcontinue.go h2 (by omega) hagain).2.2.2.2.2
  have hkept : rk.address v = rk.address (rkStart s n1 value) := by
    have hmex : v.dev.rk.rkcs &&& rkcsMex = (rkStart s n1 value).dev.rk.rkcs &&& rkcsMex := by
      rw [hv]
      exact BitMask.or_and_eq _ (by decide)
    have hba : v.dev.rk.rkba = (rkStart s n1 value).dev.rk.rkba := by rw [hv]
    show ((v.dev.rk.rkcs &&& rkcsMex) >>> 4).toNat * 2 ^ 16 + (v.dev.rk.rkba &&& rkbaImp).toNat = _
    rw [hmex, hba]
    rfl
  -- the bus address goes on from where the first command left it
  have haddress : rk.address (rkCommand (rkLoad v n2) value') =
      (rk.address (rkCommand (rkLoad s (n1 + n2)) value) + 2 * n1) % 2 ^ 18 := by
    rw [hcontinue.address, hkept]
    exact hfirst.address
  have hstores : rk.stores v = rk.stores (rkStart s n1 value) := by
    have hdisk : v.dev.rk.disk = (rkStart s n1 value).dev.rk.disk := by rw [hv]
    show Stores.mk v.mem (v.dev.rk.disk.getD fun _ => 0) = _
    rw [hcomplete.mem, hdisk]
    rfl
  constructor
  · -- two exchanges in a row are one over both ranges
    have hsecondwords := hsecond.words
    have hstores' : rk.stores (rkCommand (rkLoad v n2) value') = rk.stores v := rfl
    have hmap (x : BitVec 32) : unibusMap (rkCommand (rkLoad v n2) value') x =
        unibusMap (rkCommand (rkLoad s (n1 + n2)) value) x :=
      (hroute.trans hcomplete.route).unibusMap x
    rw [hwhole.words, hsecondwords, hstores', hstores, hfirst.words, hsector, haddress]
    refine exchange_chain (fun i _ => ?_) fun i _ => ?_
    · rw [hmap, unibusMap_mod _ (chain_address _ n1 i)]
      rfl
    · rw [sectors_words h256]
      rfl
  · rw [hsecond.count, hwhole.count]
  · rw [hsecond.address, hwhole.address, haddress]
    omega
  · have hsector' : rkSector v = rkSector s + n1 / 256 := hsector
    rw [hsecondda, hwholeda, hsector', sectors_add h256]

/-- A poll at the time a completion is held for, or later. -/
theorem rkCompletes_poll {u : Cpu} {now : Time} (h : u.dev.rk.doneNs ≤ now) :
    RkCompletes u (rkPoll { u with acct.timeNs := now }) := by
  have hpoll (w : Cpu) : SameRoute w (rkPoll w) ∧ (rkPoll w).mem = w.mem := by
    unfold rkPoll rkFinish
    dsimp only
    split_ifs <;> exact ⟨⟨rfl, rfl, rfl⟩, rfl⟩
  obtain ⟨hroute, hmem⟩ := hpoll { u with acct.timeNs := now }
  exact ⟨⟨hroute.cfg, hroute.mmr3, hroute.ubMap⟩, hmem,
    { u with acct.timeNs := now }, rfl, h, rfl⟩

/-- The command word with the address extension read back into it. -/
theorem rkContinues_read {value : Word} {v : Cpu} (hgo : value &&& rkcsGo ≠ 0)
    (hinc : value &&& rkcsInh = 0) (hmex : value &&& rkcsMex = 0) :
    RkContinues value v (value ||| (rkRead v 0o177404 &&& rkcsMex)) := by
  have hout {m : Word} (hm : rkcsMex &&& m = 0) :
      (value ||| (rkRead v 0o177404 &&& rkcsMex)) &&& m = value &&& m := by
    have hfield : (rkRead v 0o177404 &&& rkcsMex) &&& m = 0 := by
      rw [BitVec.and_assoc, hm]
      exact BitVec.and_zero
    exact BitMask.or_and_eq _ hfield
  constructor
  · rwa [hout (by decide)]
  · exact hout (by decide)
  · rwa [hout (by decide)]
  · have hzero (x : Word) : 0 ||| x = x := BitVec.zero_or
    rw [BitVec.and_or_distrib_right, hmex, hzero, BitVec.and_assoc, BitVec.and_self]

/-- A machine with an empty RK05 pack. -/
def rkPack : Cpu := rkAttach cpuCreate (some fun _ => 0) 1247232

/-- A sector read into memory, and a word behind it. -/
def rkSectorRead : Cpu :=
  rkPoll { rkStart rkPack 256 0o5 with
    acct.timeNs := (rkStart rkPack 256 0o5).dev.rk.doneNs }

theorem rk_reads_on :
    RkSame (rkStart rkSectorRead 1 (0o5 ||| (rkRead rkSectorRead 0o177404 &&& rkcsMex)))
      (rkStart rkPack 257 0o5) :=
  (rk_transfers_chain .toMemory rkPack 0o5 (by decide) (by decide)).2 256 1 (by decide) (by decide)
    (by decide) (by decide)
    ⟨⟨by decide, rfl, by decide⟩, by decide, by decide, by decide, by decide⟩ rkSectorRead _
    (rkCompletes_poll (BitVec.le_refl _)) (rkContinues_read (by decide) (by decide) (by decide))

end

end Pdp11
