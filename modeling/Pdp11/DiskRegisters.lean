import Pdp11.DiskTransfer

namespace Pdp11

open DiskId Stores

/-! The registers of the disk controllers after a transfer, as numbers. -/

/-- The address the registers show, on 18 bits or on 22: MEX and the bus address, or BAE and BA. -/
def DiskId.address : DiskId → Cpu → ℕ
  | rk, s => ((s.dev.rk.rkcs &&& rkcsMex) >>> 4).toNat * 2 ^ 16 + (s.dev.rk.rkba &&& rkbaImp).toNat
  | rl, s => ((s.dev.rl.rlcs &&& rlcsMex) >>> 4).toNat * 2 ^ 16 + s.dev.rl.rlba.toNat
  | rp, s => (s.dev.rp.bae &&& 0o77).toNat * 2 ^ 16 + s.dev.rp.ba.toNat

def DiskId.addressSpace : DiskId → ℕ
  | rk => 2 ^ 18
  | rl => 2 ^ 18
  | rp => 2 ^ 22

section
variable {c : DiskId} {dir : TransferDirection} {s : Cpu}

/-! ## Addresses -/

/-- A field of the control register loaded with two bits of an address. -/
theorem mex_load (x y z : Word) (hz : z &&& 0o60 = 0) :
    (((x &&& ~~~0o60) ||| (y &&& 0o60)) ||| z) &&& 0o60 = y &&& 0o60 := by
  rw [BitMask.or_and_eq _ hz, BitMask.load_and_self _ _ (by decide)]

theorem mex_toNat (x : Word) : ((x &&& 0o60) >>> 4).toNat = x.toNat / 16 % 4 := by
  have hfield : (x &&& 0o60).toNat = x.toNat / 2 ^ 4 % 2 ^ 2 * 2 ^ 4 :=
    BitMask.toNat_and_field (i := 4) (n := 2) x (by decide)
  rw [BitVec.toNat_ushiftRight, hfield, Nat.shiftRight_eq_div_pow]
  omega

theorem extended_toNat (x y : Word) :
    (((x &&& 0o60).setWidth 32 <<< 12) ||| y.setWidth 32).toNat = x.toNat / 16 % 4 * 2 ^ 16 + y.toNat := by
  have hfield : (x &&& 0o60).toNat = x.toNat / 2 ^ 4 % 2 ^ 2 * 2 ^ 4 :=
    BitMask.toNat_and_field (i := 4) (n := 2) x (by decide)
  have hhigh : ((x &&& 0o60).setWidth 32 <<< 12).toNat = x.toNat / 16 % 4 * 2 ^ 16 := by
    rw [BitVec.toNat_shiftLeft, BitVec.toNat_setWidth, hfield, Nat.shiftLeft_eq]
    omega
  have hlow : (y.setWidth 32).toNat = y.toNat := by
    rw [BitVec.toNat_setWidth]
    omega
  rw [BitMask.toNat_or_low (i := 16), hhigh, hlow]
  · rw [hhigh]
    exact Nat.mul_mod_left _ _
  · rw [hlow]
    exact y.isLt

theorem rkbaImp_toNat (x : Word) : (x &&& rkbaImp).toNat = x.toNat / 2 * 2 := by
  have hfield : (x &&& rkbaImp).toNat = x.toNat / 2 ^ 1 % 2 ^ 15 * 2 ^ 1 :=
    BitMask.toNat_and_field (i := 1) (n := 15) x (by decide)
  omega

theorem rk_address (s : Cpu) : rk.address s = (rk.busAddress s).toNat / 2 * 2 := by
  show ((s.dev.rk.rkcs &&& 0o60) >>> 4).toNat * 2 ^ 16 + (s.dev.rk.rkba &&& rkbaImp).toNat = _
  rw [mex_toNat, rkbaImp_toNat]
  have hbus : (rk.busAddress s).toNat = _ := extended_toNat s.dev.rk.rkcs s.dev.rk.rkba
  rw [hbus]
  omega

theorem rl_address (s : Cpu) : rl.address s = (rl.busAddress s).toNat := by
  show ((s.dev.rl.rlcs &&& 0o60) >>> 4).toNat * 2 ^ 16 + s.dev.rl.rlba.toNat = _
  rw [mex_toNat]
  exact (extended_toNat s.dev.rl.rlcs s.dev.rl.rlba).symm

theorem bae_toNat (x : Word) : (x &&& 0o77).toNat = x.toNat % 64 := by
  have hfield : (x &&& 0o77).toNat = x.toNat / 2 ^ 0 % 2 ^ 6 * 2 ^ 0 :=
    BitMask.toNat_and_field (i := 0) (n := 6) x (by decide)
  omega

theorem rp_address (s : Cpu) : rp.address s = (rp.busAddress s).toNat := by
  have hfield : (s.dev.rp.bae.setWidth 32 &&& 0o77).toNat =
      (s.dev.rp.bae.setWidth 32).toNat / 2 ^ 0 % 2 ^ 6 * 2 ^ 0 :=
    BitMask.toNat_and_field (i := 0) (n := 6) _ (by decide)
  have hwide (x : Word) : (x.setWidth 32).toNat = x.toNat := by
    rw [BitVec.toNat_setWidth]
    omega
  have hhigh : ((s.dev.rp.bae.setWidth 32 &&& 0o77) <<< 16).toNat =
      s.dev.rp.bae.toNat % 64 * 2 ^ 16 := by
    rw [BitVec.toNat_shiftLeft, hfield, hwide, Nat.shiftLeft_eq]
    omega
  show (s.dev.rp.bae &&& 0o77).toNat * 2 ^ 16 + s.dev.rp.ba.toNat = _
  rw [bae_toNat]
  show _ = (((s.dev.rp.bae.setWidth 32 &&& 0o77) <<< 16) ||| s.dev.rp.ba.setWidth 32).toNat
  rw [BitMask.toNat_or_low (i := 16), hhigh, hwide]
  · rw [hhigh]
    exact Nat.mul_mod_left _ _
  · rw [hwide]
    exact s.dev.rp.ba.isLt

theorem address_lt (c : DiskId) (s : Cpu) : c.address s < c.addressSpace := by
  cases c with
  | rk =>
    show ((s.dev.rk.rkcs &&& 0o60) >>> 4).toNat * 2 ^ 16 + (s.dev.rk.rkba &&& rkbaImp).toNat < 2 ^ 18
    rw [mex_toNat, rkbaImp_toNat]
    omega
  | rl =>
    show ((s.dev.rl.rlcs &&& 0o60) >>> 4).toNat * 2 ^ 16 + s.dev.rl.rlba.toNat < 2 ^ 18
    rw [mex_toNat]
    omega
  | rp =>
    show (s.dev.rp.bae &&& 0o77).toNat * 2 ^ 16 + s.dev.rp.ba.toNat < 2 ^ 22
    rw [bae_toNat]
    omega

theorem rkGo_address (h : rk.Transfers dir s) :
    rk.address (rkGo s) = (rkEndAddress s).toNat % 2 ^ 18 / 2 * 2 := by
  obtain ⟨cs, er, -, -, -, hrk⟩ := rkGo_after h
  show (((rkGo s).dev.rk.rkcs &&& 0o60) >>> 4).toNat * 2 ^ 16 +
    ((rkGo s).dev.rk.rkba &&& rkbaImp).toNat = _
  have hload := mex_load ((s.dev.rk.rkcs &&& ~~~rkcsScp &&& ~~~rkcsDone) ||| cs)
    ((rkEndAddress s >>> 12).setWidth 16) 0 (by decide)
  have hzero (x : Word) : x ||| 0 = x := BitVec.or_zero
  rw [hzero] at hload
  rw [hrk]
  dsimp only
  rw [hload, mex_toNat, rkbaImp_toNat, rkbaImp_toNat, BitVec.toNat_setWidth, BitVec.toNat_setWidth,
    BitVec.toNat_ushiftRight, Nat.shiftRight_eq_div_pow]
  omega

theorem rlMex_toNat (ma : BitVec 32) :
    ((((ma >>> 16) &&& 3) <<< 4).setWidth 16).toNat = ma.toNat / 2 ^ 16 % 4 * 16 := by
  have hfield : ((ma >>> 16) &&& 3).toNat = (ma >>> 16).toNat / 2 ^ 0 % 2 ^ 2 * 2 ^ 0 :=
    BitMask.toNat_and_field (i := 0) (n := 2) _ (by decide)
  rw [BitVec.toNat_setWidth, BitVec.toNat_shiftLeft, hfield, BitVec.toNat_ushiftRight,
    Nat.shiftLeft_eq, Nat.shiftRight_eq_div_pow]
  omega

theorem rlMex_within (ma : BitVec 32) :
    (((ma >>> 16) &&& 3) <<< 4).setWidth 16 &&& (0o60 : Word) =
      (((ma >>> 16) &&& 3) <<< 4).setWidth 16 := by
  apply BitVec.eq_of_toNat_eq
  have hfield : ((((ma >>> 16) &&& 3) <<< 4).setWidth 16 &&& (0o60 : Word)).toNat =
      ((((ma >>> 16) &&& 3) <<< 4).setWidth 16).toNat / 2 ^ 4 % 2 ^ 2 * 2 ^ 4 :=
    BitMask.toNat_and_field (i := 4) (n := 2) _ (by decide)
  rw [hfield, rlMex_toNat]
  omega

theorem rlGo_address (h : rl.Transfers dir s) :
    rl.address (rlGo s) = (rl.busAddress s + rl.trimmed s * 2).toNat % 2 ^ 18 := by
  obtain ⟨-, -, hrl⟩ := rlGo_after h
  have hload := mex_load (s.dev.rl.rlcs &&& ~~~rlcsDone)
    (((((rl.busAddress s + rl.trimmed s * 2) >>> 16) &&& 3) <<< 4).setWidth 16)
    (rlStatusEnd s &&& ~~~rlcsDone) (rlStatusEnd_mex s)
  rw [rlMex_within] at hload
  show (((rlGo s).dev.rl.rlcs &&& 0o60) >>> 4).toNat * 2 ^ 16 + (rlGo s).dev.rl.rlba.toNat = _
  rw [hrl]
  dsimp only
  rw [hload, BitVec.toNat_ushiftRight, rlMex_toNat, BitVec.toNat_setWidth,
    Nat.shiftRight_eq_div_pow]
  omega

theorem rpGo_address (h : rp.Transfers dir s) :
    rp.address (rpGo s) = (rpEndAddress s).toNat % 2 ^ 22 := by
  obtain ⟨-, -, hrp⟩ := rpGo_after h
  show ((rpGo s).dev.rp.bae &&& 0o77).toNat * 2 ^ 16 + (rpGo s).dev.rp.ba.toNat = _
  rw [hrp]
  show (((rpEndAddress s >>> 16).setWidth 16 &&& (0o77 : Word)) &&& 0o77).toNat * 2 ^ 16 +
    ((rpEndAddress s).setWidth 16).toNat = _
  rw [bae_toNat, bae_toNat, BitVec.toNat_setWidth, BitVec.toNat_setWidth,
    BitVec.toNat_ushiftRight, Nat.shiftRight_eq_div_pow]
  omega

/-! ## Counts -/

theorem wordCount_toNat (wc : Word) : (wordCount wc).toNat = 2 ^ 16 - wc.toNat := by
  unfold wordCount
  rw [BitVec.toNat_sub, BitVec.toNat_setWidth]
  have hlit : (0o200000 : BitVec 32).toNat = 2 ^ 16 := rfl
  omega

theorem loopCount_eq {wc : BitVec 32} (h : wc.toNat < 2 ^ 31) : loopCount wc = wc.toNat := by
  unfold loopCount
  rw [BitVec.toInt_eq_toNat_of_lt (by omega)]
  exact Int.toNat_natCast _

/-- A negative count makes no pass. -/
theorem loopCount_neg {wc : BitVec 32} (h : 2 ^ 31 ≤ wc.toNat) : loopCount wc = 0 := by
  unfold loopCount
  rw [BitVec.toInt_eq_toNat_cond, if_neg (by omega)]
  have := wc.isLt
  omega

theorem asked_le (c : DiskId) (s : Cpu) : (c.asked s).toNat ≤ 2 ^ 16 := by
  have hcount (wc : Word) : (wordCount wc).toNat ≤ 2 ^ 16 := by
    rw [wordCount_toNat]
    omega
  cases c with
  | rk => exact hcount _
  | rl =>
    unfold asked
    dsimp only
    split
    · rename_i h
      exact Nat.le_trans (Nat.le_of_lt (BitVec.lt_def.1 h)) (hcount _)
    · exact hcount _
  | rp => exact hcount _

/-- A small field of a register, widened. -/
theorem field_toNat (x : Word) {i n : ℕ} (h : i + n ≤ 16) :
    ((x >>> i &&& BitVec.ofNat 16 (2 ^ n - 1)).setWidth 32).toNat = x.toNat / 2 ^ i % 2 ^ n := by
  have hfield := BitMask.toNat_and_field (i := 0) (n := n) (x >>> i) (by omega)
  rw [Nat.shiftLeft_zero, BitVec.toNat_ushiftRight, Nat.shiftRight_eq_div_pow, Nat.pow_zero,
    Nat.div_one, Nat.mul_one] at hfield
  rw [BitVec.toNat_setWidth, hfield]
  have hlt : x.toNat / 2 ^ i % 2 ^ n < 2 ^ 32 := by
    have := x.isLt
    have := Nat.mod_le (x.toNat / 2 ^ i) (2 ^ n)
    have := Nat.div_le_self x.toNat (2 ^ i)
    omega
  exact Nat.mod_eq_of_lt hlt

/-- The field at the bottom of a register. -/
theorem low_toNat (x : Word) {n : ℕ} (h : n ≤ 16) :
    ((x &&& BitVec.ofNat 16 (2 ^ n - 1)).setWidth 32).toNat = x.toNat % 2 ^ n := by
  have hfield := field_toNat x (i := 0) (n := n) (by omega)
  rwa [BitVec.ushiftRight_zero, Nat.pow_zero, Nat.div_one] at hfield

theorem rkTrack_toNat (x : Word) : (rkGetTrack x).toNat = x.toNat / 16 % 512 :=
  field_toNat (i := 4) (n := 9) x (by decide)

theorem rkSect_toNat (x : Word) : (rkGetSect x).toNat = x.toNat % 16 :=
  low_toNat (n := 4) x (by decide)

theorem rkStartWord_toNat (s : Cpu) : (rk.startWord s).toNat =
    (s.dev.rk.rkda.toNat / 16 % 512 * 12 + s.dev.rk.rkda.toNat % 16) * 256 := by
  show ((rkGetTrack s.dev.rk.rkda * rkNumsc + rkGetSect s.dev.rk.rkda) * rkNumwd).toNat = _
  have h12 : rkNumsc.toNat = 12 := rfl
  have h256 : rkNumwd.toNat = 256 := rfl
  rw [BitVec.toNat_mul, BitVec.toNat_add, BitVec.toNat_mul, rkTrack_toNat, rkSect_toNat, h12, h256]
  omega

theorem rlTrack_toNat (x : Word) : (rlGetTrack x).toNat = x.toNat / 64 := by
  have hfield : (rlGetTrack x).toNat = x.toNat / 2 ^ 6 % 2 ^ 10 :=
    field_toNat (i := 6) (n := 10) x (by decide)
  omega

theorem rlSect_toNat (x : Word) : (rlGetSect x).toNat = x.toNat % 64 :=
  low_toNat (n := 6) x (by decide)

theorem rlStartWord_toNat (s : Cpu) : (rl.startWord s).toNat =
    (s.dev.rl.rlda.toNat / 64 * 40 + s.dev.rl.rlda.toNat % 64) * 128 := by
  show ((rlGetTrack s.dev.rl.rlda * rlNumsc + rlGetSect s.dev.rl.rlda) * rlNumwd).toNat = _
  have h40 : rlNumsc.toNat = 40 := rfl
  have h128 : rlNumwd.toNat = 128 := rfl
  rw [BitVec.toNat_mul, BitVec.toNat_add, BitVec.toNat_mul, rlTrack_toNat, rlSect_toNat, h40, h128]
  omega

theorem rpSc_toNat (x : Word) : (rpGetSc x).toNat = x.toNat % 64 :=
  low_toNat (n := 6) x (by decide)

theorem rpSf_toNat (x : Word) : (rpGetSf x).toNat = x.toNat / 256 % 64 :=
  field_toNat (i := 8) (n := 6) x (by decide)

theorem rpCy_toNat (x : Word) : (rpGetCy x).toNat = x.toNat % 1024 :=
  low_toNat (n := 10) x (by decide)

theorem rpStartWord_toNat (s : Cpu) : (rp.startWord s).toNat =
    ((s.dev.rp.dc.toNat % 1024 * 19 + s.dev.rp.da.toNat / 256 % 64) * 22 +
      s.dev.rp.da.toNat % 64) * 256 := by
  show (((rpGetCy s.dev.rp.dc * rpSurf + rpGetSf s.dev.rp.da) * rpSect + rpGetSc s.dev.rp.da) *
    rpNumwd).toNat = _
  have h19 : rpSurf.toNat = 19 := rfl
  have h22 : rpSect.toNat = 22 := rfl
  have h256 : rpNumwd.toNat = 256 := rfl
  rw [BitVec.toNat_mul, BitVec.toNat_add, BitVec.toNat_mul, BitVec.toNat_add, BitVec.toNat_mul,
    rpCy_toNat, rpSf_toNat, rpSc_toNat, h19, h22, h256]
  omega

theorem startWord_lt (c : DiskId) (s : Cpu) : (c.startWord s).toNat < 2 ^ 27 := by
  cases c with
  | rk => rw [rkStartWord_toNat]; omega
  | rl => rw [rlStartWord_toNat]; omega
  | rp => rw [rpStartWord_toNat]; omega

/-- The words of the image from the start of a transfer on. -/
def DiskId.remaining (c : DiskId) (s : Cpu) : ℕ := (c.imageWords s).toNat - (c.startWord s).toNat

/-- The end of the words asked for lies past the image. -/
theorem overrun_iff (c : DiskId) (s : Cpu) :
    c.imageWords s < c.startWord s + c.asked s ↔
      (c.imageWords s).toNat < (c.startWord s).toNat + (c.asked s).toNat := by
  have hstart := startWord_lt c s
  have hasked := asked_le c s
  rw [BitVec.lt_def, BitVec.toNat_add, Nat.mod_eq_of_lt (by omega)]

/-- A transfer that begins inside the image is trimmed to it; on the RL11 and the RP04 one that
begins outside moves nothing. -/
theorem trimmed_eq (h : c = rk → (rk.startWord s).toNat ≤ (rk.imageWords s).toNat) :
    (c.trimmed s).toNat = min (c.asked s).toNat (c.remaining s) := by
  have hstart := startWord_lt c s
  have hasked := asked_le c s
  have hover := overrun_iff c s
  unfold remaining
  cases c with
  | rk =>
    have hinside := h rfl
    show (if rk.imageWords s < rk.startWord s + rk.asked s then rk.imageWords s - rk.startWord s
      else rk.asked s).toNat = _
    split
    · rename_i hlt
      have hlt' := hover.1 hlt
      rw [BitVec.toNat_sub]
      omega
    · rename_i hlt
      have hlt' := mt hover.2 hlt
      omega
  | rl =>
    show (if rl.imageWords s < rl.startWord s + rl.asked s then
      (if rl.startWord s < rl.imageWords s then rl.imageWords s - rl.startWord s else 0)
      else rl.asked s).toNat = _
    split_ifs with hlt hin
    · have hlt' := hover.1 hlt
      have hin' := BitVec.lt_def.1 hin
      rw [BitVec.toNat_sub]
      omega
    · have hin' := mt BitVec.lt_def.2 hin
      have hzero : (0 : BitVec 32).toNat = 0 := rfl
      omega
    · have hlt' := mt hover.2 hlt
      omega
  | rp =>
    show (if rp.imageWords s ≤ rp.startWord s then 0
      else if rp.imageWords s < rp.startWord s + rp.asked s then rp.imageWords s - rp.startWord s
      else rp.asked s).toNat = _
    split_ifs with hout hlt
    · have hout' := BitVec.le_def.1 hout
      have hzero : (0 : BitVec 32).toNat = 0 := rfl
      omega
    · have hlt' := hover.1 hlt
      have hout' := mt BitVec.le_def.2 hout
      rw [BitVec.toNat_sub]
      omega
    · have hlt' := mt hover.2 hlt
      omega

/-! ## After a transfer -/

theorem go_stores (h : c.Transfers dir s) : c.stores (c.go s) = c.exchanged dir s := by
  cases c with
  | rk =>
    obtain ⟨cs, er, -, hmem, -, hrk⟩ := rkGo_after h
    have hdisk : (rkGo s).dev.rk.disk = some (rk.exchanged dir s).disk := by rw [hrk]
    refine Stores.ext hmem ?_
    show (rkGo s).dev.rk.disk.getD _ = _
    rw [hdisk, Option.getD_some]
  | rl =>
    obtain ⟨hmem, -, hrl⟩ := rlGo_after h
    have hdisk : (rlGo s).dev.rl.disk = some (rl.exchanged dir s).disk := by rw [hrl]
    refine Stores.ext hmem ?_
    show (rlGo s).dev.rl.disk.getD _ = _
    rw [hdisk, Option.getD_some]
  | rp =>
    obtain ⟨hmem, -, hrp⟩ := rpGo_after h
    have hdisk : (rpGo s).dev.rp.disk = some (rp.exchanged dir s).disk := by rw [hrp]
    refine Stores.ext hmem ?_
    show (rpGo s).dev.rp.disk.getD _ = _
    rw [hdisk, Option.getD_some]

theorem go_count (h : c.Transfers dir s) :
    c.count (c.go s) = c.count s + (c.trimmed s).setWidth 16 := by
  cases c with
  | rk =>
    obtain ⟨cs, er, -, -, -, hrk⟩ := rkGo_after h
    show (rkGo s).dev.rk.rkwc = _
    rw [hrk]
    rfl
  | rl =>
    obtain ⟨-, -, hrl⟩ := rlGo_after h
    show (rlGo s).dev.rl.rlmp = _
    rw [hrl]
    rfl
  | rp =>
    obtain ⟨-, -, hrp⟩ := rpGo_after h
    show (rpGo s).dev.rp.wc = _
    rw [hrp]
    rfl

theorem rp_trimmed_le (s : Cpu) : (rp.trimmed s).toNat ≤ 2 ^ 16 := by
  have hasked := asked_le rp s
  have hmin := trimmed_eq (c := rp) (s := s) nofun
  omega

/-- The address registers advance by two bytes a word. -/
theorem go_address (h : c.Transfers dir s) (hinh : ¬c.Inhibited s) :
    c.address (c.go s) = (c.address s + 2 * (c.trimmed s).toNat) % c.addressSpace := by
  have htwo : (2 : BitVec 32).toNat = 2 := rfl
  cases c with
  | rk =>
    have hend : rkEndAddress s = rk.busAddress s + rk.trimmed s * 2 := if_pos (not_not.1 hinh)
    show rk.address (rkGo s) = (rk.address s + 2 * (rk.trimmed s).toNat) % 2 ^ 18
    rw [rkGo_address h, rk_address, hend, BitVec.toNat_add, BitVec.toNat_mul, htwo]
    omega
  | rl =>
    show rl.address (rlGo s) = (rl.address s + 2 * (rl.trimmed s).toNat) % 2 ^ 18
    rw [rlGo_address h, rl_address, BitVec.toNat_add, BitVec.toNat_mul, htwo]
    omega
  | rp =>
    have htrimmed := rp_trimmed_le s
    have hend : rpEndAddress s = rp.busAddress s + BitVec.ofNat 32 ((rp.trimmed s).toNat * 2) := by
      have hcount : loopCount (rp.trimmed s) = (rp.trimmed s).toNat := loopCount_eq (by omega)
      rw [← hcount]
      exact if_pos (not_not.1 hinh)
    show rp.address (rpGo s) = (rp.address s + 2 * (rp.trimmed s).toNat) % 2 ^ 22
    rw [rpGo_address h, rp_address, hend, BitVec.toNat_add, BitVec.toNat_ofNat]
    omega

/-- With the increment inhibited they stay. -/
theorem go_address_inhibited (h : c.Transfers dir s) (hinh : c.Inhibited s) :
    c.address (c.go s) = c.address s := by
  cases c with
  | rk =>
    have hend : rkEndAddress s = rk.busAddress s := if_neg hinh
    have hlt := address_lt rk s
    show rk.address (rkGo s) = rk.address s
    rw [rk_address] at hlt
    rw [rkGo_address h, rk_address, hend]
    have hspace : rk.addressSpace = 2 ^ 18 := rfl
    omega
  | rl => exact hinh.elim
  | rp =>
    have hend : rpEndAddress s = rp.busAddress s := if_neg hinh
    have hlt := address_lt rp s
    show rp.address (rpGo s) = rp.address s
    rw [rp_address] at hlt
    rw [rpGo_address h, rp_address, hend]
    exact Nat.mod_eq_of_lt hlt

end

end Pdp11
