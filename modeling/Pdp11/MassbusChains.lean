import Pdp11.DiskChains

namespace Pdp11

open DiskId Stores

/-! Two transfers of the RP04 in a row have the effect of one. -/

/-- The sector in RPDC and RPDA, counted from the start of the disk. -/
def rpSector (s : Cpu) : ℕ :=
  (s.dev.rp.dc.toNat % 1024 * 19 + s.dev.rp.da.toNat / 256 % 64) * 22 + s.dev.rp.da.toNat % 64

/-- The bytes from one word of memory to the next. -/
def rpStride (s : Cpu) : ℕ := if s.dev.rp.cs2 &&& cs2Uai = 0 then 2 else 0

/-- A transfer of `n` words from `s` to `t`. The loop keeps 20 bits of the memory address. -/
structure RpExact (dir : TransferDirection) (n : ℕ) (s t : Cpu) : Prop where
  words : rp.stores t = exchange dir
    (fun i => memIndex (BitVec.ofNat 32 ((rp.address s + rpStride s * i) % 2 ^ 20)))
    (fun i => BitVec.ofNat 32 (rpSector s * 256 + i)) n (rp.stores s)
  count : t.dev.rp.wc = 0
  address : rp.address t = (rp.address s + rpStride s * n) % 2 ^ 22
  sector : rpSector t = rpSector s + (n + 255) / 256

/-- A command that is ready to start: a READ or a WRITE that does not run past its pack of 411
cylinders of 19 surfaces of 22 sectors of 256 words. -/
structure RpReady (dir : TransferDirection) (s : Cpu) : Prop where
  transfers : rp.Transfers dir s
  pack : (rp.imageWords s).toNat = 411 * 19 * 22 * 256
  inside : rpSector s * 256 + rp.words s ≤ 411 * 19 * 22 * 256

section
variable {dir : TransferDirection} {s t : Cpu}

theorem rpStartWord_eq (s : Cpu) : (rp.startWord s).toNat = rpSector s * 256 := rpStartWord_toNat s

theorem RpReady.fits (h : RpReady dir s) : Fits rp s where
  image := by
    rw [rpStartWord_eq, h.pack]
    exact h.inside
  track := nofun

theorem rpBlock_eq (s : Cpu) (i : ℕ) : rp.block s i = BitVec.ofNat 32 (rpSector s * 256 + i) := by
  have hstart : rp.startWord s = BitVec.ofNat 32 (rpSector s * 256) := by
    rw [← rpStartWord_eq, BitVec.ofNat_toNat, BitVec.setWidth_eq]
  rw [BitVec.ofNat_add, ← hstart]
  rfl

theorem rpAddress_eq (s : Cpu) (i : ℕ) : rpAddress s.dev.rp (rp.busAddress s) i =
    BitVec.ofNat 32 (rp.address s + rpStride s * i) := by
  have hbus : rp.busAddress s = BitVec.ofNat 32 (rp.address s) := by
    rw [rp_address, BitVec.ofNat_toNat, BitVec.setWidth_eq]
  unfold rpAddress rpStride
  split
  · rw [BitVec.ofNat_add, ← hbus, Nat.mul_comm]
  · rw [Nat.zero_mul, Nat.add_zero, ← hbus]

theorem rpPhysical_eq (s : Cpu) (i : ℕ) : rp.physical s i =
    memIndex (BitVec.ofNat 32 ((rp.address s + rpStride s * i) % 2 ^ 20)) := by
  have hmask : (0o3777777 : BitVec 32).toNat = 2 ^ 20 - 1 := rfl
  have hlow : BitVec.ofNat 32 (rp.address s + rpStride s * i) &&& 0o3777777 =
      BitVec.ofNat 32 ((rp.address s + rpStride s * i) % 2 ^ 20) := by
    apply BitVec.eq_of_toNat_eq
    rw [BitVec.toNat_and, hmask, Nat.and_two_pow_sub_one_eq_mod, BitVec.toNat_ofNat,
      BitVec.toNat_ofNat]
    omega
  show memIndex (rpAddress s.dev.rp (rp.busAddress s) i &&& 0o3777777) = _
  rw [rpAddress_eq, hlow]

theorem RpReady.endSector (h : RpReady dir s) :
    (rpEndSector s).toNat = rpSector s + (rp.words s + 255) / 256 := by
  obtain ⟨htrim, -⟩ := h.fits.loop
  have hle := words_le rp s
  have hinside := h.inside
  have h256 : rpNumwd.toNat = 256 := rfl
  have hone : (1 : BitVec 32).toNat = 1 := rfl
  have hup : (rp.trimmed s + rpNumwd - 1).toNat = rp.words s + 255 := by
    rw [BitVec.toNat_sub, BitVec.toNat_add, htrim, h256, hone]
    omega
  unfold rpEndSector
  rw [BitVec.toNat_add, BitVec.toNat_udiv, BitVec.toNat_udiv, hup, rpStartWord_eq, h256,
    Nat.mul_div_cancel _ (by decide)]
  omega

/-- The disk address registers after a transfer. -/
theorem RpReady.disk (h : RpReady dir s) {b : ℕ}
    (hend : rpSector s + (rp.words s + 255) / 256 = b) :
    (rpGo s).dev.rp.da = BitVec.ofNat 16 (b / 22 % 19 * 256 + b % 22) ∧
      (rpGo s).dev.rp.dc = BitVec.ofNat 16 (b / 22 / 19) ∧
      (rpGo s).dev.rp.cc = BitVec.ofNat 16 (b / 22 / 19) := by
  obtain ⟨-, -, hrp⟩ := rpGo_after h.transfers
  have hsector := h.endSector
  rw [hend] at hsector
  have h22 : rpSect.toNat = 22 := rfl
  have h19 : rpSurf.toNat = 19 := rfl
  have hsc : (rpEndSector s % rpSect).toNat = b % 22 := by
    rw [BitVec.toNat_umod, hsector, h22]
  have hsf : ((rpEndSector s / rpSect % rpSurf) <<< 8).toNat = b / 22 % 19 * 256 := by
    rw [BitVec.toNat_shiftLeft, BitVec.toNat_umod, BitVec.toNat_udiv, hsector, h22, h19,
      Nat.shiftLeft_eq]
    omega
  have hcy : (rpEndSector s / rpSect / rpSurf).toNat = b / 22 / 19 := by
    rw [BitVec.toNat_udiv, BitVec.toNat_udiv, hsector, h22, h19]
  have hcylinder : (rpEndSector s / rpSect / rpSurf).setWidth 16 =
      BitVec.ofNat 16 (b / 22 / 19) := by
    apply BitVec.eq_of_toNat_eq
    rw [BitVec.toNat_setWidth, hcy, BitVec.toNat_ofNat]
  rw [hrp]
  refine ⟨?_, hcylinder, hcylinder⟩
  apply BitVec.eq_of_toNat_eq
  dsimp only
  rw [BitVec.toNat_setWidth, BitMask.toNat_or_low (i := 8), hsf, hsc, BitVec.toNat_ofNat]
  · rw [hsf]
    omega
  · rw [hsc]
    omega

/-- The sector of a disk address on the pack, or at its end. -/
theorem rpSector_encode {b : ℕ} (hb : b ≤ 411 * 19 * 22)
    (hda : s.dev.rp.da = BitVec.ofNat 16 (b / 22 % 19 * 256 + b % 22))
    (hdc : s.dev.rp.dc = BitVec.ofNat 16 (b / 22 / 19)) : rpSector s = b := by
  unfold rpSector
  rw [hda, hdc, BitVec.toNat_ofNat, BitVec.toNat_ofNat]
  have hcy : b / 22 / 19 % 2 ^ 16 % 1024 = b / 22 / 19 := by omega
  have hsf : (b / 22 % 19 * 256 + b % 22) % 2 ^ 16 / 256 % 64 = b / 22 % 19 := by omega
  have hsc : (b / 22 % 19 * 256 + b % 22) % 2 ^ 16 % 64 = b % 22 := by omega
  rw [hcy, hsf, hsc]
  omega

theorem RpReady.sector_le (h : RpReady dir s) :
    rpSector s + (rp.words s + 255) / 256 ≤ 411 * 19 * 22 := by
  have hinside := h.inside
  omega

/-- A command that is ready transfers its words. -/
theorem RpReady.exact (h : RpReady dir s) : RpExact dir (rp.words s) s (rpGo s) where
  words := by
    have hstores : rp.stores (rpGo s) = rp.exchanged dir s := go_stores (c := .rp) h.transfers
    rw [hstores, exchanged, h.fits.loop.2]
    exact exchange_congr (fun i _ => rpPhysical_eq s i) fun i _ => rpBlock_eq s i
  count := h.fits.count_done h.transfers
  address := by
    have hlt : rp.address s < 2 ^ 22 := address_lt rp s
    have hle := words_le rp s
    have hstride : rpStride s ≤ 2 := by
      unfold rpStride
      split <;> decide
    have hbytes : rpStride s * rp.words s ≤ 2 * 2 ^ 16 := Nat.mul_le_mul hstride hle
    rw [rpGo_address h.transfers]
    unfold rpEndAddress
    rw [h.fits.loop.2, rpAddress_eq, BitVec.toNat_ofNat,
      Nat.mod_eq_of_lt (a := rp.address s + rpStride s * rp.words s) (by omega)]
  sector := by
    obtain ⟨hda, hdc, -⟩ := h.disk rfl
    exact rpSector_encode h.sector_le hda hdc

/-- The address registers after a transfer. -/
theorem rpGo_bus (h : rp.Transfers dir s) :
    (rpGo s).dev.rp.ba = BitVec.ofNat 16 (rp.address (rpGo s)) ∧
      (rpGo s).dev.rp.bae = BitVec.ofNat 16 (rp.address (rpGo s) / 2 ^ 16) := by
  obtain ⟨-, -, hrp⟩ := rpGo_after h
  rw [rpGo_address h, hrp]
  constructor
  · apply BitVec.eq_of_toNat_eq
    dsimp only
    rw [BitVec.toNat_setWidth, BitVec.toNat_ofNat]
    omega
  · apply BitVec.eq_of_toNat_eq
    dsimp only
    rw [bae_toNat, BitVec.toNat_setWidth, BitVec.toNat_ushiftRight, Nat.shiftRight_eq_div_pow,
      BitVec.toNat_ofNat]
    omega

/-! ## Two commands -/

/-- RPWC loaded for `n` words. -/
def rpLoad (s : Cpu) (n : ℕ) : Cpu := rpWrite s 0o176702 (BitVec.ofNat 16 (2 ^ 16 - n))

/-- RPWC loaded for `n` words, and a command word written to RPCS1. -/
def rpStart (s : Cpu) (n : ℕ) (value : Word) : Cpu := rpWrite (rpLoad s n) 0o176700 value

/-- The completion of the command outstanding in `u` has come by `v`, and the program has left the
RP04 and memory alone. -/
structure RpCompletes (u v : Cpu) : Prop where
  mem : v.mem = u.mem
  polled : ∃ w : Cpu, w.dev.rp = u.dev.rp ∧ u.dev.rp.doneNs ≤ w.acct.timeNs ∧
    v.dev.rp = (rpPoll w).dev.rp

/-- The same words in memory and on the disk, and the same count and address registers. -/
structure RpSame (t u : Cpu) : Prop where
  stores : rp.stores t = rp.stores u
  count : t.dev.rp.wc = u.dev.rp.wc
  ba : t.dev.rp.ba = u.dev.rp.ba
  bae : t.dev.rp.bae = u.dev.rp.bae
  da : t.dev.rp.da = u.dev.rp.da
  dc : t.dev.rp.dc = u.dev.rp.dc
  cc : t.dev.rp.cc = u.dev.rp.cc

theorem rpLoad_words {n : ℕ} (hpos : 1 ≤ n) (hn : n ≤ 2 ^ 16) (value : Word) :
    rp.words (rpCommand (rpLoad s n) value) = n := by
  show 2 ^ 16 - (BitVec.ofNat 16 (2 ^ 16 - n)).toNat = n
  rw [BitVec.toNat_ofNat]
  omega

theorem rpWrite_starts {value : Word} (h : rpStarts s value) : ∃ req,
    rpWrite s 0o176700 value = rpGo { rpCommand s value with dev.intReq := req } := by
  obtain ⟨req, hreq⟩ := request_ite s .rp (value &&& cs1Ie = 0)
    (s.dev.rp.cs1 &&& (cs1Done ||| cs1Ie) = cs1Done)
  have hwrite : rpWrite s 0o176700 value = rpWriteCs1 s value := rfl
  rw [hwrite]
  unfold rpWriteCs1
  dsimp only
  rw [hreq]
  exact ⟨req, if_pos h⟩

theorem rpStarts_idle {value : Word} (hidle : s.dev.rp.cs1 &&& cs1Done ≠ 0)
    (hgo : value &&& cs1Go ≠ 0) : rpStarts s value := by
  have hbits : (rpCommand s value).dev.rp.cs1 &&& cs1Done = s.dev.rp.cs1 &&& cs1Done :=
    BitMask.load_and_eq _ _ (by decide)
  exact ⟨by rwa [hbits], hgo⟩

theorem RpReady.request (h : RpReady dir s) (req : BitVec 32) :
    RpReady dir { s with dev.intReq := req } where
  transfers := ⟨by cases dir <;> exact h.transfers.asks, h.transfers.attached, h.transfers.checks⟩
  pack := h.pack
  inside := h.inside

section
variable {n : ℕ} {value : Word} (hidle : s.dev.rp.cs1 &&& cs1Done ≠ 0)
  (hgo : value &&& cs1Go ≠ 0) (hpos : 1 ≤ n) (hn : n ≤ 2 ^ 16)
  (hready : RpReady dir (rpCommand (rpLoad s n) value))
include hidle hgo hpos hn hready

/-- The words a command that is ready transfers, from the write of RPCS1 on. -/
theorem rpStart_exact : RpExact dir n (rpCommand (rpLoad s n) value) (rpStart s n value) := by
  obtain ⟨req, hstart⟩ := rpWrite_starts (rpStarts_idle (s := rpLoad s n) hidle hgo)
  have hexact := (hready.request req).exact
  have hwords : rp.words { rpCommand (rpLoad s n) value with dev.intReq := req } = n :=
    rpLoad_words hpos hn value
  rw [hwords] at hexact
  have hgoes : rpStart s n value = rpGo { rpCommand (rpLoad s n) value with dev.intReq := req } :=
    hstart
  rw [hgoes]
  exact ⟨hexact.words, hexact.count, hexact.address, hexact.sector⟩

/-- What else it leaves. -/
theorem rpStart_left {b : ℕ} (hend : rpSector s + (n + 255) / 256 = b) :
    (rpStart s n value).dev.rp.busy = true ∧
    (rpStart s n value).dev.rp.disk.isSome ∧
    (rpStart s n value).dev.rp.diskWords = s.dev.rp.diskWords ∧
    (rpStart s n value).dev.rp.cs2 = s.dev.rp.cs2 ∧
    (rpStart s n value).dev.rp.da = BitVec.ofNat 16 (b / 22 % 19 * 256 + b % 22) ∧
    (rpStart s n value).dev.rp.dc = BitVec.ofNat 16 (b / 22 / 19) ∧
    (rpStart s n value).dev.rp.cc = BitVec.ofNat 16 (b / 22 / 19) ∧
    (rpStart s n value).dev.rp.ba = BitVec.ofNat 16 (rp.address (rpStart s n value)) ∧
    (rpStart s n value).dev.rp.bae = BitVec.ofNat 16 (rp.address (rpStart s n value) / 2 ^ 16) := by
  obtain ⟨req, hstart⟩ := rpWrite_starts (rpStarts_idle (s := rpLoad s n) hidle hgo)
  have hready' := hready.request req
  have hwords : rp.words { rpCommand (rpLoad s n) value with dev.intReq := req } = n :=
    rpLoad_words hpos hn value
  have hgoes : rpStart s n value = rpGo { rpCommand (rpLoad s n) value with dev.intReq := req } :=
    hstart
  obtain ⟨-, -, hrp⟩ := rpGo_after hready'.transfers
  obtain ⟨hba, hbae⟩ := rpGo_bus hready'.transfers
  obtain ⟨hda, hdc, hcc⟩ := hready'.disk (b := b) (by rw [hwords]; exact hend)
  rw [hgoes]
  refine ⟨?_, ?_, ?_, ?_, hda, hdc, hcc, hba, hbae⟩
  · rw [hrp]
  · rw [hrp]
    rfl
  · rw [hrp]
    rfl
  · rw [hrp]
    rfl

end

/-- A completion that has come has set DONE. -/
theorem RpCompletes.rp {u v : Cpu} (h : RpCompletes u v) (hbusy : u.dev.rp.busy = true) :
    v.dev.rp = { u.dev.rp with
      busy := false
      cs1 := u.dev.rp.cs1 ||| cs1Done
      ds := u.dev.rp.ds ||| dsAta } := by
  obtain ⟨w, hw, hdue, hv⟩ := h.polled
  have hpoll : rpPoll w = rpFinish w := by
    apply if_pos
    rw [hw]
    exact ⟨hbusy, hdue⟩
  rw [hv, hpoll, ← hw]
  unfold rpFinish
  dsimp only
  split <;> rfl

theorem rpCommand_asks {value value' : Word} (h : value' &&& cs1Rw = value &&& cs1Rw)
    (hasks : rp.Asks dir (rpCommand s value)) : rp.Asks dir (rpCommand t value') := by
  have hload (s : Cpu) (value : Word) :
      (rpCommand s value).dev.rp.cs1 &&& cs1Rw = value &&& cs1Rw :=
    BitMask.load_and_self _ _ (by decide)
  have hfield (c : Word) : rpGetFnc c = (c &&& cs1Rw) >>> 1 := by
    unfold rpGetFnc
    rw [BitVec.ushiftRight_and_distrib]
    rfl
  have hfunc : rpGetFnc (rpCommand t value').dev.rp.cs1 =
      rpGetFnc (rpCommand s value).dev.rp.cs1 := by
    rw [hfield, hfield, hload, hload, h]
  cases dir
  · exact hfunc.trans hasks
  · exact hfunc.trans hasks

section
variable {n1 n2 : ℕ} {v : Cpu} {value value' : Word}

/-- A shorter transfer is ready too. -/
theorem RpReady.shorter (h : RpReady dir (rpCommand (rpLoad s (n1 + n2)) value)) (h1 : 0 < n1)
    (hn : n1 + n2 ≤ 2 ^ 16) : RpReady dir (rpCommand (rpLoad s n1) value) where
  transfers := ⟨by cases dir <;> exact h.transfers.asks, h.transfers.attached, h.transfers.checks⟩
  pack := h.pack
  inside := by
    have hinside := h.inside
    have hsector (n : ℕ) : rpSector (rpCommand (rpLoad s n) value) = rpSector s := rfl
    rw [rpLoad_words (by omega) hn, hsector] at hinside
    rw [rpLoad_words h1 (by omega), hsector]
    omega

/-- The second command is ready once the first has completed. -/
theorem RpReady.again (h : RpReady dir (rpCommand (rpLoad s (n1 + n2)) value))
    (hidle : s.dev.rp.cs1 &&& cs1Done ≠ 0) (hgo : value &&& cs1Go ≠ 0) (h1 : 0 < n1)
    (h256 : n1 % 256 = 0) (h2 : 1 ≤ n2) (hn : n1 + n2 ≤ 2 ^ 16)
    (hcomplete : RpCompletes (rpStart s n1 value) v) (hfunc : value' &&& cs1Rw = value &&& cs1Rw) :
    RpReady dir (rpCommand (rpLoad v n2) value') ∧ rpSector v = rpSector s + n1 / 256 := by
  have hinside : rpSector s * 256 + (n1 + n2) ≤ 411 * 19 * 22 * 256 := by
    rw [← rpLoad_words (s := s) (by omega) hn value]
    exact h.inside
  have hend : rpSector s + (n1 + 255) / 256 = rpSector s + n1 / 256 := by omega
  have hroom := sectors_room h256 hinside
  have hlast : rpSector s + n1 / 256 ≤ 411 * 19 * 22 := by omega
  obtain ⟨hbusy, hattached, hpack, -, hda, hdc, -⟩ :=
    rpStart_left hidle hgo h1 (by omega) (h.shorter h1 hn) hend
  have hv := hcomplete.rp hbusy
  have hsector : rpSector v = rpSector s + n1 / 256 :=
    rpSector_encode hlast (by rw [hv, ← hda]) (by rw [hv, ← hdc])
  refine ⟨⟨⟨rpCommand_asks hfunc h.transfers.asks, ?_, h.transfers.checks⟩, ?_, ?_⟩, hsector⟩
  · show v.dev.rp.disk.isSome
    rw [hv]
    exact hattached
  · show v.dev.rp.diskWords.toNat = _
    rw [hv]
    show (rpStart s n1 value).dev.rp.diskWords.toNat = _
    rw [hpack]
    exact h.pack
  · have hsector' : rpSector (rpCommand (rpLoad v n2) value') = rpSector s + n1 / 256 := hsector
    rw [hsector', rpLoad_words h2 (by omega)]
    exact hroom

/-- The low bits of an address do not see it wrap at 22. -/
theorem chain_megabyte (a k n i : ℕ) :
    ((a + k * n) % 2 ^ 22 + k * i) % 2 ^ 20 = (a + k * (n + i)) % 2 ^ 20 := by
  rw [Nat.mul_add]
  omega

end

/-- A transfer of the RP04 moves the disk address on by the sectors begun, and one of a whole number
of sectors taken up by a second command has the effect of one transfer. -/
theorem rp_transfers_chain (dir : TransferDirection) (s : Cpu) (value : Word)
    (hidle : s.dev.rp.cs1 &&& cs1Done ≠ 0) (hgo : value &&& cs1Go ≠ 0) :
    (∀ n, 1 ≤ n → n ≤ 2 ^ 16 → RpReady dir (rpCommand (rpLoad s n) value) →
      rpSector (rpStart s n value) = rpSector s + (n + 255) / 256) ∧
    ∀ n1 n2, 0 < n1 → n1 % 256 = 0 → 1 ≤ n2 → n1 + n2 ≤ 2 ^ 16 →
      RpReady dir (rpCommand (rpLoad s (n1 + n2)) value) → ∀ v value',
        RpCompletes (rpStart s n1 value) v → value' &&& cs1Go ≠ 0 →
          value' &&& cs1Rw = value &&& cs1Rw →
            RpSame (rpStart v n2 value') (rpStart s (n1 + n2) value) := by
  refine ⟨fun n hpos hn hready => (rpStart_exact hidle hgo hpos hn hready).sector, ?_⟩
  intro n1 n2 h1 h256 h2 hn hready v value' hcomplete hgo' hfunc
  have hshort := hready.shorter h1 hn
  have hfirst := rpStart_exact hidle hgo h1 (by omega) hshort
  obtain ⟨hbusy, -, -, hcs2, -⟩ := rpStart_left hidle hgo h1 (by omega) hshort rfl
  have hwhole := rpStart_exact hidle hgo (by omega) hn hready
  obtain ⟨-, -, -, -, hda, hdc, hcc, hba, hbae⟩ := rpStart_left hidle hgo (by omega) hn hready rfl
  obtain ⟨hagain, hsector⟩ := hready.again hidle hgo h1 h256 h2 hn hcomplete hfunc
  have hv := hcomplete.rp hbusy
  have hidle' : v.dev.rp.cs1 &&& cs1Done ≠ 0 := by
    have hset : v.dev.rp.cs1 &&& cs1Done = cs1Done := by
      rw [hv]
      exact BitMask.or_and_self _ _
    rw [hset]
    decide
  -- the second command begins on the sector the first one ended before
  have hsectors : rpSector v + (n2 + 255) / 256 = rpSector s + (n1 + n2 + 255) / 256 := by
    rw [hsector, sectors_add h256]
  have hsecond := rpStart_exact hidle' hgo' h2 (by omega) hagain
  obtain ⟨-, -, -, -, hda', hdc', hcc', hba', hbae'⟩ :=
    rpStart_left hidle' hgo' h2 (by omega) hagain hsectors
  have hstride : rpStride v = rpStride s := by
    unfold rpStride
    rw [hv, ← hcs2]
  have hkept : rp.address v = (rp.address s + rpStride s * n1) % 2 ^ 22 := by
    have hregs : rp.address v = rp.address (rpStart s n1 value) := by
      show (v.dev.rp.bae &&& 0o77).toNat * 2 ^ 16 + v.dev.rp.ba.toNat = _
      rw [hv]
      rfl
    rw [hregs]
    exact hfirst.address
  have haddress : rp.address (rpStart v n2 value') = rp.address (rpStart s (n1 + n2) value) := by
    have hend : rp.address (rpStart v n2 value') = (rp.address v + rpStride v * n2) % 2 ^ 22 :=
      hsecond.address
    have hend' : rp.address (rpStart s (n1 + n2) value) =
        (rp.address s + rpStride s * (n1 + n2)) % 2 ^ 22 := hwhole.address
    rw [hend, hend', hstride, hkept, Nat.mul_add, Nat.mod_add_mod, Nat.add_assoc]
  have hstores : rp.stores v = rp.stores (rpStart s n1 value) := by
    have hdisk : v.dev.rp.disk = (rpStart s n1 value).dev.rp.disk := by rw [hv]
    show Stores.mk v.mem (v.dev.rp.disk.getD fun _ => 0) = _
    rw [hcomplete.mem, hdisk]
    rfl
  constructor
  · -- two exchanges in a row are one over both ranges
    have hwords : rp.stores (rpStart v n2 value') = exchange dir
        (fun i => memIndex (BitVec.ofNat 32 ((rp.address v + rpStride v * i) % 2 ^ 20)))
        (fun i => BitVec.ofNat 32 (rpSector v * 256 + i)) n2 (rp.stores v) := hsecond.words
    rw [hwhole.words, hwords, hstores, hfirst.words, hsector, hkept, hstride]
    refine exchange_chain (fun i _ => ?_) fun i _ => ?_
    · rw [chain_megabyte]
      rfl
    · rw [sectors_words h256]
      rfl
  · rw [hsecond.count, hwhole.count]
  · rw [hba', hba, haddress]
  · rw [hbae', hbae, haddress]
  · rw [hda']
    exact hda.symm
  · rw [hdc']
    exact hdc.symm
  · rw [hcc']
    exact hcc.symm

/-- A poll at the time a completion is held for, or later. -/
theorem rpCompletes_poll {u : Cpu} {now : Time} (h : u.dev.rp.doneNs ≤ now) :
    RpCompletes u (rpPoll { u with acct.timeNs := now }) := by
  have hpoll (w : Cpu) : (rpPoll w).mem = w.mem := by
    unfold rpPoll rpFinish
    dsimp only
    split_ifs <;> rfl
  exact ⟨hpoll _, { u with acct.timeNs := now }, rfl, h, rfl⟩

/-- A machine with an empty RP04 pack. -/
def rpPack : Cpu := rpAttach cpuCreate (some fun _ => 0) 43980288

/-- A sector read into memory, and a word behind it. -/
def rpSectorRead : Cpu :=
  rpPoll { rpStart rpPack 256 0o71 with
    acct.timeNs := (rpStart rpPack 256 0o71).dev.rp.doneNs }

theorem rp_reads_on : RpSame (rpStart rpSectorRead 1 0o71) (rpStart rpPack 257 0o71) :=
  (rp_transfers_chain .toMemory rpPack 0o71 (by decide) (by decide)).2 256 1 (by decide) (by decide)
    (by decide) (by decide) ⟨⟨by decide, rfl, by decide⟩, by decide, by decide⟩ rpSectorRead 0o71
    (rpCompletes_poll (BitVec.le_refl _)) (by decide) rfl

end

end Pdp11
