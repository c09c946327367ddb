import Pdp11.State

namespace Pdp11

/-! The physical addresses of the Unibus, with its map and without. -/

theorem toNat_and_low (x : BitVec 32) {mask : BitVec 32} {n : ℕ} (h : mask.toNat = 2 ^ n - 1) :
    (x &&& mask).toNat = x.toNat % 2 ^ n := by
  rw [BitVec.toNat_and, h, Nat.and_two_pow_sub_one_eq_mod]

theorem unibusMap_direct {s : Cpu} (h : s.cfg.hasUbm = false ∨ s.mmu.mmr3 &&& mmr3Bme = 0)
    (uba : BitVec 32) : (unibusMap s uba).toNat = uba.toNat % 2 ^ 18 := by
  have hoff : !s.cfg.hasUbm ∨ s.mmu.mmr3 &&& mmr3Bme = 0 := by
    rw [Bool.not_eq_true']
    exact h
  unfold unibusMap
  rw [if_pos hoff]
  exact toNat_and_low uba rfl

theorem unibusMap_mapped {s : Cpu} (hubm : s.cfg.hasUbm = true) (hbme : s.mmu.mmr3 &&& mmr3Bme ≠ 0)
    (uba : BitVec 32) :
    (unibusMap s uba).toNat =
      if uba.toNat / 2 ^ 13 % 32 = 31 then 0o17760000 + uba.toNat % 2 ^ 13
      else ((s.dev.ubMap (uba.extractLsb' 13 5)).toNat + uba.toNat % 2 ^ 13) % 2 ^ 22 := by
  have hon : ¬(!s.cfg.hasUbm ∨ s.mmu.mmr3 &&& mmr3Bme = 0) := by
    rw [hubm]
    rintro (h | h)
    · cases h
    · exact hbme h
  have hpage : uba.extractLsb' 13 5 = 0o37 ↔ uba.toNat / 2 ^ 13 % 32 = 31 := by
    rw [← BitVec.toNat_inj, BitVec.extractLsb'_toNat, Nat.shiftRight_eq_div_pow]
    rfl
  have hoff : (uba &&& 0o17777).toNat = uba.toNat % 2 ^ 13 := toNat_and_low uba rfl
  have hadd (x : BitVec 32) : ((x + (uba &&& 0o17777)) &&& pamask22).toNat =
      (x.toNat + uba.toNat % 2 ^ 13) % 2 ^ 22 := by
    rw [toNat_and_low (n := 22) _ rfl, BitVec.toNat_add, hoff]
    omega
  unfold unibusMap
  rw [if_neg hon]
  dsimp only
  split
  · rw [if_pos (hpage.1 ‹_›), hadd]
    have htop : (iopageTop : BitVec 32).toNat = 0o17760000 := rfl
    rw [htop]
    omega
  · rw [if_neg (mt hpage.2 ‹_›), hadd]

/-- The Unibus has 18 address bits. -/
theorem unibusMap_mod (s : Cpu) {x y : BitVec 32} (h : x.toNat % 2 ^ 18 = y.toNat % 2 ^ 18) :
    unibusMap s x = unibusMap s y := by
  have hmask (z : BitVec 32) (n : ℕ) : (z &&& BitVec.ofNat 32 (2 ^ n - 1)).toNat =
      z.toNat &&& ((2 ^ n - 1) % 2 ^ 32) := by
    rw [BitVec.toNat_and, BitVec.toNat_ofNat]
  have hwhole : x &&& 0o777777 = y &&& 0o777777 := by
    apply BitVec.eq_of_toNat_eq
    refine (hmask x 18).trans ((?_ : _ = _).trans (hmask y 18).symm)
    show x.toNat &&& (2 ^ 18 - 1) = y.toNat &&& (2 ^ 18 - 1)
    rw [Nat.and_two_pow_sub_one_eq_mod, Nat.and_two_pow_sub_one_eq_mod, h]
  have hoff : x &&& 0o17777 = y &&& 0o17777 := by
    apply BitVec.eq_of_toNat_eq
    refine (hmask x 13).trans ((?_ : _ = _).trans (hmask y 13).symm)
    show x.toNat &&& (2 ^ 13 - 1) = y.toNat &&& (2 ^ 13 - 1)
    rw [Nat.and_two_pow_sub_one_eq_mod, Nat.and_two_pow_sub_one_eq_mod]
    omega
  have hpg : x.extractLsb' 13 5 = y.extractLsb' 13 5 := by
    apply BitVec.eq_of_toNat_eq
    rw [BitVec.extractLsb'_toNat, BitVec.extractLsb'_toNat, Nat.shiftRight_eq_div_pow,
      Nat.shiftRight_eq_div_pow]
    omega
  unfold unibusMap
  dsimp only
  rw [hwhole, hpg, hoff]

/-- In one page, physical addresses are as far apart as bus addresses. -/
theorem unibusMap_page (s : Cpu) {a b : BitVec 32} (ha : a.toNat < 2 ^ 18) (hb : b.toNat < 2 ^ 18)
    (hpage : a.toNat / 2 ^ 13 = b.toNat / 2 ^ 13) :
    ((unibusMap s a).toNat + b.toNat) % 2 ^ 22 = ((unibusMap s b).toNat + a.toNat) % 2 ^ 22 := by
  by_cases hoff : s.cfg.hasUbm = false ∨ s.mmu.mmr3 &&& mmr3Bme = 0
  · rw [unibusMap_direct hoff, unibusMap_direct hoff]
    omega
  · obtain ⟨hubm, hbme⟩ := not_or.1 hoff
    rw [Bool.not_eq_false] at hubm
    have hreg : a.extractLsb' 13 5 = b.extractLsb' 13 5 := by
      apply BitVec.eq_of_toNat_eq
      rw [BitVec.extractLsb'_toNat, BitVec.extractLsb'_toNat, Nat.shiftRight_eq_div_pow,
        Nat.shiftRight_eq_div_pow, hpage]
    rw [unibusMap_mapped hubm hbme, unibusMap_mapped hubm hbme, hreg, hpage]
    split
    · omega
    · omega

theorem unibusMap_page_inj (s : Cpu) {a b : BitVec 32} (ha : a.toNat < 2 ^ 18)
    (hb : b.toNat < 2 ^ 18) (hpage : a.toNat / 2 ^ 13 = b.toNat / 2 ^ 13)
    (h : unibusMap s a = unibusMap s b) : a = b := by
  have hdist := unibusMap_page s ha hb hpage
  rw [h] at hdist
  exact BitVec.eq_of_toNat_eq (by omega)

end Pdp11
