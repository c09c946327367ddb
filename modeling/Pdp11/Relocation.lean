import Pdp11.References

namespace Pdp11

/-! Relocation against its reference definition, which is in ordinary integers. -/

/-! ## The reference definition -/

/-- The MMR3 bit that gives a mode its D space; mode 2 has none. -/
def DataSpaceOn (mmr3 : Word) (mode : Mode) : Prop :=
  (mode = 0 ∧ mmr3.getLsbD 2 = true) ∨ (mode = 1 ∧ mmr3.getLsbD 1 = true) ∨
    (mode = 3 ∧ mmr3.getLsbD 0 = true)

instance (mmr3 : Word) (mode : Mode) : Decidable (DataSpaceOn mmr3 mode) :=
  inferInstanceAs (Decidable (_ ∨ _))

/-- Sixteen page registers for each mode, eight for each of its spaces. -/
def registerOf (mmr3 va : Word) (mode : Mode) (dspace : Bool) : ℕ :=
  16 * mode.toNat + (if dspace = true ∧ DataSpaceOn mmr3 mode then 8 else 0) + va.toNat / 8192

def blockOf (va : Word) : ℕ := va.toNat % 8192 / 64

def accessCode (pdr : Word) : ℕ := pdr.toNat % 8

def lengthField (pdr : Word) : ℕ := pdr.toNat / 256 % 128

/-- The access codes that allow a reference. -/
def Allowed (pdr : Word) (isWrite : Bool) : Prop :=
  accessCode pdr ∈ (if isWrite then [4, 5, 6] else [1, 2, 4, 5, 6] : List ℕ)

/-- A store to a page that may only be read. -/
def StoreToReadOnly (pdr : Word) (isWrite : Bool) : Prop := isWrite = true ∧ accessCode pdr = 2

instance (pdr : Word) (isWrite : Bool) : Decidable (Allowed pdr isWrite) :=
  inferInstanceAs (Decidable (_ ∈ (_ : List ℕ)))

instance (pdr : Word) (isWrite : Bool) : Decidable (StoreToReadOnly pdr isWrite) :=
  inferInstanceAs (Decidable (_ ∧ _))

/-- A page that grows downward ends at its length field, another one begins there. -/
def OutsideLength (pdr va : Word) : Prop :=
  if pdr.getLsbD 3 then blockOf va < lengthField pdr else lengthField pdr < blockOf va

instance (pdr va : Word) : Decidable (OutsideLength pdr va) :=
  inferInstanceAs (Decidable
    (if pdr.getLsbD 3 then blockOf va < lengthField pdr else lengthField pdr < blockOf va))

/-- The page offset and the page address, added in 22 bits, or in 18 bits with the top 8 KB moved
to the I/O page of the 22-bit addresses. -/
def referencePhysical (mmr3 par va : Word) : ℕ :=
  let sum := (va.toNat % 8192 + par.toNat * 64) % 2 ^ 22
  if mmr3.getLsbD 4 then sum
  else if sum % 2 ^ 18 < 2 ^ 18 - 8192 then sum % 2 ^ 18
  else 2 ^ 22 - 8192 + sum % 8192

/-- MMR0 after a refused reference: the page and every error, unless an error is held already. -/
structure StatusCaptured (mmr0 pdr va : Word) (isWrite : Bool) (idx : BitVec 6) (mmr0' : Word) :
    Prop where
  frozen : mmr0 &&& mmr0Freeze ≠ 0 → mmr0' = mmr0
  page : mmr0 &&& mmr0Freeze = 0 → mmr0'.extractLsb' 1 6 = idx
  nonResident : mmr0 &&& mmr0Freeze = 0 →
    (mmr0'.getLsbD 15 = true ↔ ¬Allowed pdr isWrite ∧ ¬StoreToReadOnly pdr isWrite)
  pageLength : mmr0 &&& mmr0Freeze = 0 → (mmr0'.getLsbD 14 = true ↔ OutsideLength pdr va)
  readOnly : mmr0 &&& mmr0Freeze = 0 → (mmr0'.getLsbD 13 = true ↔ StoreToReadOnly pdr isWrite)
  rest : ∀ i, i = 0 ∨ (7 ≤ i ∧ i < 13) → mmr0'.getLsbD i = mmr0.getLsbD i

/-- What `mmuRelocate` does on machine `m` through page register `idx`. -/
structure MeetsReference (va : Word) (isWrite : Bool) (mode : Mode) (dspace : Bool) (m : Machine)
    (idx : BitVec 6) : Prop where
  aborts : (∃ m', mmuRelocate va isWrite mode dspace m = .error () m') ↔
    ¬Allowed (m.cpu.mmu.pdr idx) isWrite ∨ OutsideLength (m.cpu.mmu.pdr idx) va
  abort : ∀ m', mmuRelocate va isWrite mode dspace m = .error () m' → ∃ mmr0 : Word,
    m' = ⟨{ m.cpu with mmu.mmr0 := mmr0, ctl.abortVec := 0o250 }, m.events ++ [.fault 0o250]⟩ ∧
      StatusCaptured m.cpu.mmu.mmr0 (m.cpu.mmu.pdr idx) va isWrite idx mmr0
  success : ∀ pa m', mmuRelocate va isWrite mode dspace m = .ok pa m' →
    pa.toNat = referencePhysical m.cpu.mmu.mmr3 (m.cpu.mmu.par idx) va ∧
      m' = { m with cpu := { m.cpu with mmu.pdr := (Function.update m.cpu.mmu.pdr idx
        (m.cpu.mmu.pdr idx ||| 0o200 ||| if isWrite then 0o100 else 0)) } }

/-! ## The page register -/

theorem dsmask_ne_zero (mmr3 : Word) (mode : Mode) :
    mmr3 &&& dsmask mode ≠ 0 ↔ DataSpaceOn mmr3 mode := by
  have hbit (i : ℕ) (hi : i < 16) : mmr3 &&& BitVec.twoPow 16 i ≠ 0 ↔ mmr3.getLsbD i = true :=
    BitMask.and_twoPow_ne_zero hi
  unfold DataSpaceOn dsmask
  have hmode : mode = 0 ∨ mode = 1 ∨ mode = 2 ∨ mode = 3 := by
    revert mode
    decide
  rcases hmode with rfl | rfl | rfl | rfl
  · exact (hbit 2 (by decide)).trans (by simp)
  · exact (hbit 1 (by decide)).trans (by simp)
  · simp
  · exact (hbit 0 (by decide)).trans (by simp)

theorem mmuIndex_toNat (mmu : Mmu) (va : Word) (mode : Mode) (dspace : Bool) :
    (mmuIndex mmu va mode dspace).toNat = registerOf mmu.mmr3 va mode dspace := by
  have hva := va.isLt
  have hpage : (va.extractLsb' 13 3).toNat = va.toNat / 8192 := by
    rw [BitVec.extractLsb'_toNat, Nat.shiftRight_eq_div_pow]
    omega
  have happend (ds : BitVec 1) : (mode ++ ds ++ va.extractLsb' 13 3).toNat =
      16 * mode.toNat + 8 * ds.toNat + va.toNat / 8192 := by
    have hds := ds.isLt
    rw [BitVec.toNat_append, BitVec.toNat_append, ← Nat.shiftLeft_add_eq_or_of_lt hds,
      hpage, ← Nat.shiftLeft_add_eq_or_of_lt (by omega), Nat.shiftLeft_eq, Nat.shiftLeft_eq]
    omega
  unfold mmuIndex registerOf
  rw [happend]
  simp only [dsmask_ne_zero]
  split <;> rfl

/-! ## The errors -/

theorem pdrAcf_toNat (pdr : Word) : (pdr &&& pdrAcf).toNat = accessCode pdr := by
  rw [BitVec.toNat_and]
  exact Nat.and_two_pow_sub_one_eq_mod pdr.toNat 3

/-- The access code as the code compares it. -/
theorem pdrAcf_eq {pdr : Word} (k : Word) : pdr &&& pdrAcf = k ↔ accessCode pdr = k.toNat := by
  rw [← pdrAcf_toNat]
  exact BitVec.toNat_inj.symm

theorem acfViolation_eq (pdr : Word) (isWrite : Bool) :
    acfViolation (pdr &&& pdrAcf) isWrite =
      if Allowed pdr isWrite then 0
      else if StoreToReadOnly pdr isWrite then mmr0Ro else mmr0Nr := by
  unfold acfViolation
  simp only [pdrAcf_eq]
  cases isWrite <;> simp [Allowed, StoreToReadOnly]

theorem pageLengthError_iff (pdr va : Word) :
    pageLengthError pdr va = true ↔ OutsideLength pdr va := by
  have hdbn : (va &&& 0o17700).toNat = blockOf va * 64 := by
    refine (BitMask.toNat_and_field va (i := 6) (n := 7) (by decide)).trans ?_
    unfold blockOf
    omega
  have hplf : ((pdr &&& pdrPlf) >>> 2).toNat = lengthField pdr * 64 := by
    have hfield := BitMask.toNat_and_field pdr (i := 8) (n := 7) (by decide)
    rw [BitVec.toNat_ushiftRight, Nat.shiftRight_eq_div_pow]
    unfold lengthField
    have hmask : (BitVec.ofNat 16 ((2 ^ 7 - 1) <<< 8)) = pdrPlf := rfl
    rw [hmask] at hfield
    omega
  have hed : pdr &&& pdrEd ≠ 0 ↔ pdr.getLsbD 3 = true :=
    BitMask.and_twoPow_ne_zero (i := 3) (by decide)
  unfold pageLengthError OutsideLength
  simp only [hed]
  by_cases hdown : pdr.getLsbD 3 = true
  · rw [if_pos hdown, if_pos hdown, decide_eq_true_eq, BitVec.lt_def, hdbn, hplf]
    omega
  · rw [if_neg hdown, if_neg hdown, decide_eq_true_eq, BitVec.lt_def, hdbn, hplf]
    omega

theorem mmuError_eq (pdr va : Word) (isWrite : Bool) :
    mmuError pdr va isWrite =
      (if Allowed pdr isWrite then 0
        else if StoreToReadOnly pdr isWrite then mmr0Ro else mmr0Nr) |||
      if OutsideLength pdr va then mmr0Pl else 0 := by
  unfold mmuError
  rw [acfViolation_eq]
  simp only [pageLengthError_iff]

theorem not_allowed {pdr : Word} {isWrite : Bool} (h : StoreToReadOnly pdr isWrite) :
    ¬Allowed pdr isWrite := by
  obtain ⟨rfl, hcode⟩ := h
  simp [Allowed, hcode]

theorem mmuError_ne_zero (pdr va : Word) (isWrite : Bool) :
    mmuError pdr va isWrite ≠ 0 ↔ ¬Allowed pdr isWrite ∨ OutsideLength pdr va := by
  rw [mmuError_eq]
  split_ifs <;> simp [*]

/-- Each error has its own bit. -/
theorem mmuError_getLsbD (pdr va : Word) (isWrite : Bool) :
    ((mmuError pdr va isWrite).getLsbD 15 = true ↔
        ¬Allowed pdr isWrite ∧ ¬StoreToReadOnly pdr isWrite) ∧
      ((mmuError pdr va isWrite).getLsbD 14 = true ↔ OutsideLength pdr va) ∧
      ((mmuError pdr va isWrite).getLsbD 13 = true ↔ StoreToReadOnly pdr isWrite) ∧
      ∀ i < 13, (mmuError pdr va isWrite).getLsbD i = false := by
  have hlow {err : Word} (h : err &&& BitVec.ofNat 16 ((2 ^ 13 - 1) <<< 0) = 0) (i : ℕ)
      (hi : i < 13) : err.getLsbD i = false :=
    BitMask.getLsbD_of_field_zero h (Nat.zero_le i) (by omega)
  rw [mmuError_eq]
  by_cases hread : StoreToReadOnly pdr isWrite
  · have hall := not_allowed hread
    by_cases hlength : OutsideLength pdr va <;>
      simp only [hread, hall, hlength, if_true, if_false, not_true_eq_false, not_false_eq_true,
        iff_true, iff_false, and_false] <;>
      exact ⟨by decide, by decide, by decide, hlow (by decide)⟩
  · by_cases hall : Allowed pdr isWrite <;> by_cases hlength : OutsideLength pdr va <;>
      simp only [hread, hall, hlength, if_true, if_false, not_true_eq_false, not_false_eq_true,
        iff_true, iff_false, and_true] <;>
      exact ⟨by decide, by decide, by decide, hlow (by decide)⟩

/-- The bits of a captured status. -/
theorem capture_getLsbD (mmr0 err : Word) (idx : BitVec 6) {i : ℕ} (hi : i < 16) :
    (((mmr0 &&& ~~~mmr0Page) ||| (idx.setWidth 16 <<< 1)) ||| err).getLsbD i =
      (mmr0.getLsbD i && !decide (1 ≤ i ∧ i < 7) || (decide (1 ≤ i) && idx.getLsbD (i - 1)) ||
        err.getLsbD i) := by
  have hmask : mmr0Page.getLsbD i = decide (1 ≤ i ∧ i < 1 + 6) := BitMask.getLsbD_field 1 6 i hi
  have hidx : (idx.setWidth 16 <<< 1).getLsbD i = (decide (1 ≤ i) && idx.getLsbD (i - 1)) := by
    rw [BitVec.getLsbD_shiftLeft, BitVec.getLsbD_setWidth]
    by_cases h1 : i < 1
    · simp [hi, h1, show ¬1 ≤ i by omega]
    · simp [hi, h1, show 1 ≤ i by omega, show i - 1 < 16 by omega]
  rw [BitVec.getLsbD_or, BitVec.getLsbD_or, BitVec.getLsbD_and, BitVec.getLsbD_not, hmask, hidx]
  simp [hi]

/-- A refused reference records its page and its errors. -/
theorem captureMmu_captured (mmr0 pdr va : Word) (isWrite : Bool) (idx : BitVec 6) :
    StatusCaptured mmr0 pdr va isWrite idx
      (if mmr0 &&& mmr0Freeze = 0 then
        ((mmr0 &&& ~~~mmr0Page) ||| (idx.setWidth 16 <<< 1)) ||| mmuError pdr va isWrite
      else mmr0) := by
  obtain ⟨hnr, hpl, hro, hlow⟩ := mmuError_getLsbD pdr va isWrite
  by_cases hfree : mmr0 &&& mmr0Freeze = 0
  · rw [if_pos hfree]
    have hzero (i : ℕ) (hi : 13 ≤ i) (hi' : i < 16) : mmr0.getLsbD i = false :=
      BitMask.getLsbD_of_field_zero (i := 13) (n := 3) hfree hi hi'
    -- the error bits come from the reference alone
    have herr (i : ℕ) (hi : 13 ≤ i) (hi' : i < 16) :
        (((mmr0 &&& ~~~mmr0Page) ||| (idx.setWidth 16 <<< 1)) |||
          mmuError pdr va isWrite).getLsbD i = (mmuError pdr va isWrite).getLsbD i := by
      rw [capture_getLsbD _ _ _ hi', hzero i hi hi',
        BitVec.getLsbD_of_ge idx (i - 1) (by omega)]
      simp
    constructor
    case frozen => exact fun h => absurd hfree h
    case page =>
      intro _
      apply BitVec.eq_of_getLsbD_eq
      intro i hi
      rw [BitVec.getLsbD_extractLsb', capture_getLsbD _ _ _ (by omega), hlow _ (by omega)]
      simp [hi, show 1 + i < 7 by omega]
    case nonResident => exact fun _ => by rw [herr 15 (by decide) (by decide), hnr]
    case pageLength => exact fun _ => by rw [herr 14 (by decide) (by decide), hpl]
    case readOnly => exact fun _ => by rw [herr 13 (by decide) (by decide), hro]
    case rest =>
      intro i hi
      rw [capture_getLsbD _ _ _ (by omega), hlow i (by omega)]
      obtain rfl | ⟨h7, h13⟩ := hi
      · simp
      · rw [BitVec.getLsbD_of_ge idx (i - 1) (by omega)]
        simp [show ¬i < 7 by omega]
  · rw [if_neg hfree]
    constructor <;> first | exact fun h => absurd h hfree | exact fun _ _ => rfl | exact fun _ => rfl

/-! ## The physical address -/

theorem mmuPhysical_toNat (mmu : Mmu) (idx : BitVec 6) (va : Word) :
    (mmuPhysical mmu idx va).toNat = referencePhysical mmu.mmr3 (mmu.par idx) va := by
  have hva := va.isLt
  have hpar := (mmu.par idx).isLt
  have hoffset : ((va &&& 0o17777).setWidth 32).toNat = va.toNat % 8192 := by
    rw [BitVec.toNat_setWidth, BitVec.toNat_and,
      show (0o17777 : Word).toNat = 2 ^ 13 - 1 from rfl, Nat.and_two_pow_sub_one_eq_mod]
    omega
  have hbase : ((mmu.par idx).setWidth 32 <<< 6).toNat = (mmu.par idx).toNat * 64 := by
    rw [BitVec.toNat_shiftLeft, BitVec.toNat_setWidth, Nat.shiftLeft_eq]
    omega
  have hlow (x : PhysAddr) (n : ℕ) (k : PhysAddr) (hk : k.toNat = 2 ^ n - 1) :
      (x &&& k).toNat = x.toNat % 2 ^ n := by
    rw [BitVec.toNat_and, hk, Nat.and_two_pow_sub_one_eq_mod]
  have hsum : (((va &&& 0o17777).setWidth 32 + ((mmu.par idx).setWidth 32 <<< 6)) &&&
      pamask22).toNat = (va.toNat % 8192 + (mmu.par idx).toNat * 64) % 2 ^ 22 := by
    rw [hlow _ 22 _ rfl, BitVec.toNat_add, hoffset, hbase]
    omega
  unfold mmuPhysical referencePhysical
  generalize ((va &&& 0o17777).setWidth 32 + ((mmu.par idx).setWidth 32 <<< 6)) &&&
    pamask22 = pa at hsum
  have hm22 : mmu.mmr3 &&& mmr3M22e = 0 ↔ mmu.mmr3.getLsbD 4 = false :=
    BitMask.and_twoPow_eq_zero (i := 4) (by decide)
  simp only [hm22, ← hsum]
  cases mmu.mmr3.getLsbD 4
  · have h18 : (pa &&& 0o777777).toNat = pa.toNat % 2 ^ 18 := hlow pa 18 _ rfl
    simp only [if_true, Bool.false_eq_true, if_false]
    -- the top of the 18-bit space is the I/O page of the 22-bit one
    by_cases htop : 0o760000 ≤ pa &&& 0o777777
    · have hle : 253952 ≤ (pa &&& 0o777777).toNat := htop
      have hlt : (pa &&& 0o777777).toNat < 2 ^ 18 := by omega
      have hor : (0o17000000 ||| pa &&& 0o777777).toNat = 3932160 + (pa &&& 0o777777).toNat :=
        BitMask.toNat_or_low (i := 18) rfl hlt
      rw [if_pos htop, hor, if_neg (by omega)]
      omega
    · have hle : ¬253952 ≤ (pa &&& 0o777777).toNat := htop
      rw [if_neg htop, if_pos (by omega), h18]
  · simp

/-! ## The reference -/

/-- Relocation under management is its reference definition: the page register by mode, space and
page, the access code and the length field, the status left and the address. -/
theorem mmuRelocate_reference (va : Word) (isWrite : Bool) (mode : Mode) (dspace : Bool)
    (m : Machine) (hmme : m.cpu.mmu.mmr0.getLsbD 0 = true) :
    ∃ idx : BitVec 6, idx.toNat = registerOf m.cpu.mmu.mmr3 va mode dspace ∧
      MeetsReference va isWrite mode dspace m idx := by
  let idx := mmuIndex m.cpu.mmu va mode dspace
  have hon : mmeOn m.cpu := (BitMask.and_twoPow_ne_zero (i := 0) (by decide)).2 hmme
  have happly := mmuRelocate_apply va isWrite mode dspace m
  have herror : refError m.cpu va isWrite mode dspace =
      mmuError (m.cpu.mmu.pdr idx) va isWrite := if_pos hon
  have hiff := mmuError_ne_zero (m.cpu.mmu.pdr idx) va isWrite
  refine ⟨idx, mmuIndex_toNat m.cpu.mmu va mode dspace, ?_⟩
  rw [herror] at happly
  by_cases herr : mmuError (m.cpu.mmu.pdr idx) va isWrite ≠ 0
  · rw [if_pos herr] at happly
    refine ⟨iff_of_true ⟨_, happly⟩ (hiff.1 herr), ?_, ?_⟩
    · intro m' hm'
      rw [happly] at hm'
      cases hm'
      refine ⟨_, ?_, captureMmu_captured m.cpu.mmu.mmr0 _ va isWrite idx⟩
      unfold captureRef captureMmu
      rw [herror]
      split_ifs <;> rfl
    · intro pa m' hm'
      rw [happly] at hm'
      cases hm'
  · rw [if_neg herr] at happly
    refine ⟨iff_of_false ?_ (mt hiff.2 herr), ?_, ?_⟩
    · rintro ⟨m', hm'⟩
      rw [happly] at hm'
      cases hm'
    · intro m' hm'
      rw [happly] at hm'
      cases hm'
    · intro pa m' hm'
      rw [happly] at hm'
      cases hm'
      rw [refPhysical, if_pos hon, mmuPhysical_toNat, markRef, if_pos hon]
      refine ⟨rfl, ?_⟩
      unfold markAccess
      cases isWrite
      · simp
        rfl
      · rfl

/-- The relocation of a store by a Kernel program that has just enabled management. -/
theorem enabled_reference :
    ∃ idx : BitVec 6, idx.toNat = registerOf 0 0o20000 0 true ∧
      MeetsReference 0o20000 true 0 true ⟨{ cpuCreate with mmu.mmr0 := 1 }, []⟩ idx :=
  mmuRelocate_reference 0o20000 true 0 true ⟨{ cpuCreate with mmu.mmr0 := 1 }, []⟩ rfl

end Pdp11
