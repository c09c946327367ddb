import Pdp11.DiskLimits
import Pdp11.UnibusRelocation

namespace Pdp11

open DiskId Stores

/-! The memory addresses a transfer of a disk controller goes through. -/

instance : Nontrivial Word := ⟨0, 1, by decide⟩

section
variable {c : DiskId} {dir : TransferDirection} {s : Cpu}

theorem withStores_transfers (h : c.Transfers dir s) (st : Stores (BitVec 21) (BitVec 32) Word) :
    c.Transfers dir (c.withStores s st) := by
  obtain ⟨hasks, -, hchecks⟩ := h
  cases c <;> cases dir <;> exact ⟨hasks, rfl, hchecks⟩

/-- A transfer goes through the same addresses whatever the memory and the disk hold. -/
theorem go_withStores (h : c.Transfers dir s) (st : Stores (BitVec 21) (BitVec 32) Word) :
    c.stores (c.go (c.withStores s st)) =
      exchange dir (c.physical s) (c.block s) (loopCount (c.trimmed s)) st := by
  rw [go_stores (withStores_transfers h st), exchanged, stores_withStores]
  cases c <;> rfl

/-- The words of a transfer lie apart on the disk. -/
theorem block_inj {n : ℕ} (hn : n ≤ 2 ^ 32) :
    ∀ i < n, ∀ j < n, c.block s i = c.block s j → i = j := by
  intro i hi j hj h
  have hoffset := congrArg BitVec.toNat ((BitVec.add_right_inj (c.startWord s)).1 h)
  rwa [BitVec.toNat_ofNat, BitVec.toNat_ofNat, Nat.mod_eq_of_lt (by omega),
    Nat.mod_eq_of_lt (by omega)] at hoffset

/-! ## The whole of memory -/

/-- The word of memory at an address of 22 bits. -/
def wordAt (a : ℕ) : BitVec 21 := memIndex (BitVec.ofNat 32 (a % 2 ^ 22))

theorem wordAt_toNat (a : ℕ) : (wordAt a).toNat = a % 2 ^ 22 / 2 := by
  unfold wordAt
  rw [memIndex_toNat, BitVec.toNat_ofNat]
  omega

/-- The words of an RP04 transfer go through successive words of memory, round its 22 bits. -/
def RpReachesMemory (dir : TransferDirection) (s : Cpu) : Prop :=
  ∀ st, rp.stores (rp.go (rp.withStores s st)) =
    exchange dir (fun i => wordAt (rp.address s + 2 * i)) (rp.block s) (rp.moved s) st

/-- The loop keeps 20 bits of the address. -/
theorem rpPhysical_toNat (hinc : ¬rp.Inhibited s) (i : ℕ) :
    (rp.physical s i).toNat = (rp.address s + 2 * i) % 2 ^ 20 / 2 := by
  have haddr : rpAddress s.dev.rp (rp.busAddress s) i =
      rp.busAddress s + BitVec.ofNat 32 (i * 2) := if_pos (not_not.1 hinc)
  have hlt : rp.address s < 2 ^ 22 := address_lt rp s
  have hmask : (0o3777777 : BitVec 32).toNat = 2 ^ 20 - 1 := rfl
  show (memIndex (rpAddress s.dev.rp (rp.busAddress s) i &&& 0o3777777)).toNat = _
  rw [rp_address] at hlt ⊢
  rw [memIndex_toNat, haddr, BitVec.toNat_and, hmask, Nat.and_two_pow_sub_one_eq_mod,
    BitVec.toNat_add, BitVec.toNat_ofNat]
  omega

theorem rp_moved_le (s : Cpu) : rp.moved s ≤ 2 ^ 16 :=
  Nat.le_trans (Nat.min_le_left _ _) (requested_le rp s)

theorem rpPhysical_inj (hinc : ¬rp.Inhibited s) :
    ∀ i < rp.moved s, ∀ j < rp.moved s, rp.physical s i = rp.physical s j → i = j := by
  intro i hi j hj h
  have hle := rp_moved_le s
  have hword := congrArg BitVec.toNat h
  rw [rpPhysical_toNat hinc, rpPhysical_toNat hinc] at hword
  omega

theorem wordAt_inj {a n : ℕ} (hn : n ≤ 2 ^ 16) :
    ∀ i < n, ∀ j < n, wordAt (a + 2 * i) = wordAt (a + 2 * j) → i = j := by
  intro i hi j hj h
  have hword := congrArg BitVec.toNat h
  rw [wordAt_toNat, wordAt_toNat] at hword
  omega

/-- An RP04 transfer goes through the memory its registers name exactly when it ends within the
first megabyte, or the image leaves it nothing to move. -/
theorem rp_reaches_memory_iff (h : rp.Transfers dir s) (hinc : ¬rp.Inhibited s)
    (heven : rp.address s % 2 = 0) :
    RpReachesMemory dir s ↔ rp.moved s = 0 ∨ rp.address s + 2 * rp.moved s ≤ 2 ^ 20 := by
  have hle := rp_moved_le s
  have hlt : rp.address s < 2 ^ 22 := address_lt rp s
  obtain ⟨-, hloop⟩ := trimmed_moved (c := rp) (s := s) nofun nofun
  have haddresses : RpReachesMemory dir s ↔
      ∀ i < rp.moved s, rp.physical s i = wordAt (rp.address s + 2 * i) := by
    unfold RpReachesMemory
    simp only [go_withStores h, hloop]
    cases dir with
    | toMemory =>
      exact toMemory_eq_iff (block_inj (Nat.le_trans hle (by decide))) (rpPhysical_inj hinc)
        (wordAt_inj hle)
    | toDisk => exact toDisk_eq_iff (block_inj (Nat.le_trans hle (by decide)))
  have hword (i : ℕ) : rp.physical s i = wordAt (rp.address s + 2 * i) ↔
      (rp.address s + 2 * i) % 2 ^ 20 / 2 = (rp.address s + 2 * i) % 2 ^ 22 / 2 := by
    rw [← BitVec.toNat_inj, rpPhysical_toNat hinc, wordAt_toNat]
  rw [haddresses]
  constructor
  · intro hall
    by_cases hzero : rp.moved s = 0
    · exact .inl hzero
    · -- the first word and the last decide
      have hfirst := (hword 0).1 (hall 0 (by omega))
      have hlast := (hword (rp.moved s - 1)).1 (hall (rp.moved s - 1) (by omega))
      exact .inr (by omega)
  · intro hends i hi
    rw [hword i]
    omega

/-- An RP04 with a sector of disk, asked to read a word into the second megabyte. -/
def rpSecondMegabyte : Cpu :=
  let s := rpAttach cpuCreate (some fun _ => 0) 256
  { s with
    dev.rp.cs1 := 0o70
    dev.rp.wc := 0o177777
    dev.rp.bae := 0o20 }

/-- The word goes to the bottom of memory. -/
theorem rp_wraps_at_a_megabyte :
    ¬∀ (dir : TransferDirection) (s : Cpu), rp.Transfers dir s → ¬rp.Inhibited s →
      rp.address s % 2 = 0 → RpReachesMemory dir s := by
  intro h
  have htransfers : rp.Transfers .toMemory rpSecondMegabyte := ⟨by decide, rfl, by decide⟩
  have hreaches := h .toMemory rpSecondMegabyte htransfers (by decide) (by decide)
  have hone : rp.moved rpSecondMegabyte = 1 := by decide
  obtain ⟨-, hloop⟩ := trimmed_moved (c := rp) (s := rpSecondMegabyte) nofun nofun
  -- a disk of ones over a memory of zeros
  have hmem := congrArg Stores.mem (hreaches { mem := fun _ => 0, disk := fun _ => 1 })
  rw [go_withStores htransfers, hloop, hone, toMemory_succ, toMemory_succ] at hmem
  have hbottom := congrFun hmem 0
  rw [exchange_zero, exchange_zero] at hbottom
  exact absurd hbottom (by decide)

/-- The same word read into the first megabyte. -/
theorem rp_reaches_first_megabyte :
    RpReachesMemory .toMemory { rpSecondMegabyte with dev.rp.bae := 0 } :=
  (rp_reaches_memory_iff (s := { rpSecondMegabyte with dev.rp.bae := 0 })
    ⟨by decide, rfl, by decide⟩ (by decide) (by decide)).2 (.inr (by decide))

/-! ## One word of memory -/

/-- The controller with the increment let go. -/
def DiskId.released : DiskId → Cpu → Cpu
  | rk, s => { s with dev.rk.rkcs := s.dev.rk.rkcs &&& ~~~rkcsInh }
  | rl, s => s
  | rp, s => { s with dev.rp.cs2 := s.dev.rp.cs2 &&& ~~~cs2Uai }

/-- The registers of the disk address. -/
def DiskId.diskAddress : DiskId → Cpu → List Word
  | rk, s => [s.dev.rk.rkda]
  | rl, s => [s.dev.rl.rlda]
  | rp, s => [s.dev.rp.da, s.dev.rp.dc, s.dev.rp.cc]

/-- Every word is exchanged with the one word of memory at the bus address, which stays, while the
count and the disk address advance as they do without the bit. -/
structure HoldsAddress (c : DiskId) (dir : TransferDirection) (s : Cpu) : Prop where
  words : ∀ st, c.stores (c.go (c.withStores s st)) =
    exchange dir (fun _ => c.physical s 0) (c.block s) (c.words s) st
  read : dir = .toMemory → ∀ st, (c.stores (c.go (c.withStores s st))).mem =
    Function.update st.mem (c.physical s 0) (st.disk (c.block s (c.words s - 1)))
  write : dir = .toDisk → ∀ st, ∀ i < c.words s,
    (c.stores (c.go (c.withStores s st))).disk (c.block s i) = st.mem (c.physical s 0)
  address : c.address (c.go s) = c.address s
  count : c.count (c.go s) = c.count (c.go (c.released s))
  disk : c.diskAddress (c.go s) = c.diskAddress (c.go (c.released s))

theorem released_transfers (h : c.Transfers dir s) : c.Transfers dir (c.released s) := by
  obtain ⟨hasks, hattached, hchecks⟩ := h
  cases c with
  | rk =>
    have hfunc : (s.dev.rk.rkcs &&& ~~~rkcsInh) &&& rkcsFunc = s.dev.rk.rkcs &&& rkcsFunc :=
      BitMask.and_not_and_eq _ (by decide)
    refine ⟨?_, hattached, hchecks⟩
    cases dir
    · show ((s.dev.rk.rkcs &&& ~~~rkcsInh) &&& rkcsFunc) >>> 1 = rkFuncRead
      rw [hfunc]
      exact hasks
    · show ((s.dev.rk.rkcs &&& ~~~rkcsInh) &&& rkcsFunc) >>> 1 = rkFuncWrite
      rw [hfunc]
      exact hasks
  | rl => exact ⟨hasks, hattached, hchecks⟩
  | rp => exact ⟨by cases dir <;> exact hasks, hattached, hchecks⟩

theorem released_count (h : c.Transfers dir s) :
    c.count (c.go s) = c.count (c.go (c.released s)) := by
  rw [go_count h, go_count (released_transfers h)]
  cases c <;> rfl

theorem released_diskAddress (h : c.Transfers dir s) :
    c.diskAddress (c.go s) = c.diskAddress (c.go (c.released s)) := by
  have h' := released_transfers h
  cases c with
  | rk =>
    obtain ⟨cs, er, -, -, -, hrk⟩ := rkGo_after h
    obtain ⟨cs', er', -, -, -, hrk'⟩ := rkGo_after h'
    show [(rkGo s).dev.rk.rkda] = [(rkGo (rk.released s)).dev.rk.rkda]
    rw [hrk, hrk']
    rfl
  | rl => rfl
  | rp =>
    obtain ⟨-, -, hrp⟩ := rpGo_after h
    obtain ⟨-, -, hrp'⟩ := rpGo_after h'
    show [(rpGo s).dev.rp.da, (rpGo s).dev.rp.dc, (rpGo s).dev.rp.cc] =
      [(rpGo (rp.released s)).dev.rp.da, (rpGo (rp.released s)).dev.rp.dc,
        (rpGo (rp.released s)).dev.rp.cc]
    rw [hrp, hrp']
    rfl

/-- The words of a transfer go through one word of memory, whatever the stores hold, exactly when
it has their one address. -/
theorem holds_words_iff (h : c.Transfers dir s) (hfits : Fits c s) :
    (∀ st, c.stores (c.go (c.withStores s st)) =
      exchange dir (fun _ => c.physical s 0) (c.block s) (c.words s) st) ↔
      ∀ i < c.words s, c.physical s i = c.physical s 0 := by
  simp only [go_withStores h, hfits.loop.2]
  cases dir with
  | toMemory => exact toMemory_fixed_iff _
  | toDisk => exact toDisk_eq_iff (block_inj (Nat.le_trans (words_le c s) (by decide)))

/-! ### The words of the RK11 -/

/-- The base of a page of the Unibus map; the last page is the I/O page. -/
def mapBase (s : Cpu) (pg : BitVec 5) : ℕ :=
  if pg = 0o37 then 0o17760000 else (s.dev.ubMap pg).toNat

/-- The bus address is the last word of a page of the Unibus map, and the map has the next page
017776 above that page, so that its first word is at the same place. -/
structure MeetsNextPage (s : Cpu) : Prop where
  mapped : s.cfg.hasUbm = true ∧ s.mmu.mmr3 &&& mmr3Bme ≠ 0
  last : (rk.busAddress s).toNat % 2 ^ 13 / 2 = 4095
  /-- Bit 0 of RKBA and of a base count when they are set, which no program can do. -/
  next : let pg : BitVec 5 := (rk.busAddress s).extractLsb' 13 5
    let odd := (rk.busAddress s).toNat % 2
    (mapBase s (pg + 1) + odd) % 2 ^ 22 / 2 = (mapBase s pg + 0o17776 + odd) % 2 ^ 22 / 2

theorem unibusMap_base (hubm : s.cfg.hasUbm = true) (hbme : s.mmu.mmr3 &&& mmr3Bme ≠ 0)
    (uba : BitVec 32) : (unibusMap s uba).toNat =
      (mapBase s (uba.extractLsb' 13 5) + uba.toNat % 2 ^ 13) % 2 ^ 22 := by
  have hpage : uba.extractLsb' 13 5 = (0o37 : BitVec 5) ↔ uba.toNat / 2 ^ 13 % 32 = 31 := by
    rw [← BitVec.toNat_inj, BitVec.extractLsb'_toNat, Nat.shiftRight_eq_div_pow]
    rfl
  rw [unibusMap_mapped hubm hbme]
  unfold mapBase
  split
  · rw [if_pos (hpage.2 ‹_›)]
    omega
  · rw [if_neg (mt hpage.1 ‹_›)]

theorem rkBus_lt (s : Cpu) : (rk.busAddress s).toNat < 2 ^ 18 := by
  have hbus : (rk.busAddress s).toNat = _ := extended_toNat s.dev.rk.rkcs s.dev.rk.rkba
  have hlt := s.dev.rk.rkba.isLt
  omega

theorem rkBus_add (s : Cpu) {i : ℕ} (hi : i < 3) :
    (rk.busAddress s + BitVec.ofNat 32 (i * 2)).toNat = (rk.busAddress s).toNat + 2 * i := by
  have hlt := rkBus_lt s
  rw [BitVec.toNat_add, BitVec.toNat_ofNat]
  omega

theorem rkPhysical_toNat (s : Cpu) (i : ℕ) : (rk.physical s i).toNat =
    (unibusMap s (rk.busAddress s + BitVec.ofNat 32 (i * 2))).toNat % 2 ^ 22 / 2 :=
  memIndex_toNat _

/-- Two words that follow each other in one page are at different places. -/
theorem rkPhysical_ne (s : Cpu) {i : ℕ} (hi : i < 2)
    (hpage : ((rk.busAddress s).toNat + 2 * i) % 2 ^ 13 < 8190) :
    rk.physical s i ≠ rk.physical s (i + 1) := by
  intro h
  -- the addresses on 18 bits, which the map sees
  let a : BitVec 32 := BitVec.ofNat 32 (((rk.busAddress s).toNat + 2 * i) % 2 ^ 18)
  let b : BitVec 32 := BitVec.ofNat 32 (((rk.busAddress s).toNat + 2 * (i + 1)) % 2 ^ 18)
  have ha : a.toNat = ((rk.busAddress s).toNat + 2 * i) % 2 ^ 18 := by
    rw [BitVec.toNat_ofNat]
    omega
  have hb : b.toNat = ((rk.busAddress s).toNat + 2 * (i + 1)) % 2 ^ 18 := by
    rw [BitVec.toNat_ofNat]
    omega
  have hmapa : unibusMap s (rk.busAddress s + BitVec.ofNat 32 (i * 2)) = unibusMap s a := by
    apply unibusMap_mod
    rw [rkBus_add s (by omega), ha]
    omega
  have hmapb : unibusMap s (rk.busAddress s + BitVec.ofNat 32 ((i + 1) * 2)) = unibusMap s b := by
    apply unibusMap_mod
    rw [rkBus_add s (by omega), hb]
    omega
  have hdist := unibusMap_page s (a := a) (b := b) (by omega) (by omega) (by omega)
  have hword := congrArg BitVec.toNat h
  rw [rkPhysical_toNat, rkPhysical_toNat, hmapa, hmapb] at hword
  omega

/-- The first two words are at one place exactly where the map makes two pages meet. -/
theorem rkPhysical_one_iff (s : Cpu) : rk.physical s 1 = rk.physical s 0 ↔ MeetsNextPage s := by
  have hlt := rkBus_lt s
  by_cases hlast : (rk.busAddress s).toNat % 2 ^ 13 / 2 = 4095
  swap
  · have hne := rkPhysical_ne s (i := 0) (by decide) (by omega)
    exact iff_of_false hne.symm fun h => hlast h.last
  by_cases hmapped : s.cfg.hasUbm = true ∧ s.mmu.mmr3 &&& mmr3Bme ≠ 0
  · have hzero : rk.busAddress s + BitVec.ofNat 32 (0 * 2) = rk.busAddress s := by
      rw [Nat.zero_mul]
      exact BitVec.add_zero _
    have hnext : (rk.busAddress s + BitVec.ofNat 32 (1 * 2)).extractLsb' 13 5 =
        (rk.busAddress s).extractLsb' 13 5 + (1 : BitVec 5) := by
      apply BitVec.eq_of_toNat_eq
      have hone : (1 : BitVec 5).toNat = 1 := rfl
      rw [BitVec.toNat_add, BitVec.extractLsb'_toNat, BitVec.extractLsb'_toNat,
        Nat.shiftRight_eq_div_pow, Nat.shiftRight_eq_div_pow, rkBus_add s (by decide), hone]
      omega
    have hwords : rk.physical s 1 = rk.physical s 0 ↔
        (mapBase s ((rk.busAddress s).extractLsb' 13 5 + (1 : BitVec 5)) +
            (rk.busAddress s).toNat % 2) % 2 ^ 22 / 2 =
          (mapBase s ((rk.busAddress s).extractLsb' 13 5) + 0o17776 +
            (rk.busAddress s).toNat % 2) % 2 ^ 22 / 2 := by
      rw [← BitVec.toNat_inj, rkPhysical_toNat, rkPhysical_toNat,
        unibusMap_base hmapped.1 hmapped.2, unibusMap_base hmapped.1 hmapped.2, hzero, hnext,
        rkBus_add s (by decide)]
      omega
    exact hwords.trans ⟨fun h => ⟨hmapped, hlast, h⟩, fun h => h.next⟩
  · refine iff_of_false (fun h => ?_) fun h => hmapped h.mapped
    have hoff : s.cfg.hasUbm = false ∨ s.mmu.mmr3 &&& mmr3Bme = 0 := by
      rw [not_and_or, Bool.not_eq_true, not_not] at hmapped
      exact hmapped
    have hword := congrArg BitVec.toNat h
    rw [rkPhysical_toNat, rkPhysical_toNat, unibusMap_direct hoff, unibusMap_direct hoff,
      rkBus_add s (by decide), rkBus_add s (by decide)] at hword
    omega

/-- No three words are at one place. -/
theorem rkPhysical_fixed_iff (s : Cpu) {n : ℕ} (hn : 0 < n) :
    (∀ i < n, rk.physical s i = rk.physical s 0) ↔ n = 1 ∨ n = 2 ∧ MeetsNextPage s := by
  constructor
  · intro h
    by_cases hone : n = 1
    · exact .inl hone
    have hmeets := (rkPhysical_one_iff s).1 (h 1 (by omega))
    refine .inr ⟨?_, hmeets⟩
    by_contra htwo
    -- the third word follows the second in its page
    have hne := rkPhysical_ne s (i := 1) (by decide) (by have := hmeets.last; omega)
    exact hne ((h 1 (by omega)).trans (h 2 (by omega)).symm)
  · rintro (rfl | ⟨rfl, hmeets⟩) i hi
    · rw [show i = 0 by omega]
    · obtain rfl | rfl : i = 0 ∨ i = 1 := by omega
      · rfl
      · exact (rkPhysical_one_iff s).2 hmeets

/-- An RK11 with a sector of disk, asked to read two words with the increment inhibited. -/
def rkInhibited : Cpu :=
  let s := rkAttach cpuCreate (some fun _ => 0) 256
  { s with
    dev.rk.rkcs := 0o4004
    dev.rk.rkwc := 0o177776 }

end

end Pdp11
