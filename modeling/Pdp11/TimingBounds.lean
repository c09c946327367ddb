import Pdp11.Step
import Mathlib.Data.List.GetD
import Mathlib.Data.Nat.Basic
import Mathlib.Order.Basic
import Mathlib.Tactic.SplitIfs
import Mathlib.Tactic.Common

namespace Pdp11

/-! No instruction takes as long as a period of the line clock. -/

theorem byMode_toNat_le {table : List (BitVec 32)} {n : ℕ} (h : ∀ t ∈ table, t.toNat ≤ n)
    (mode : Field3) : (byMode table mode).toNat ≤ n := by
  unfold byMode
  by_cases hm : mode.toNat < table.length
  · rw [List.getD_eq_getElem _ _ hm]
    exact h _ (List.getElem_mem hm)
  · rw [List.getD_eq_default _ _ (not_lt.1 hm)]
    exact Nat.zero_le n

theorem addrNs_le (mode : Field3) : (addrNs mode).toNat ≤ 1050 := byMode_toNat_le (by simp) mode

theorem movNsReg_le (mode : Field3) : (movNsReg mode).toNat ≤ 2100 :=
  byMode_toNat_le (by simp) mode

theorem movNsMem_le (mode : Field3) : (movNsMem mode).toNat ≤ 2100 :=
  byMode_toNat_le (by simp) mode

theorem efDouble_ns (cls : TimingClass) (smode sreg dmode dreg : Field3) :
    (efDouble cls smode sreg dmode dreg).ns.toNat ≤ 2100 := by
  have hr := movNsReg_le dmode
  have hm := movNsMem_le dmode
  unfold efDouble
  split_ifs <;> first | exact hr | exact hm | simp

theorem efSingle_ns (cls : TimingClass) (dmode dreg : Field3) (bytemode : Bool) :
    (efSingle cls dmode dreg bytemode).ns.toNat ≤ 2100 := by
  unfold efSingle
  cases cls <;> grind

theorem plus_ns {t u : Timing} {n k : ℕ} (ht : t.ns.toNat ≤ n) (hu : u.ns.toNat ≤ k) :
    (t.plus u).ns.toNat ≤ n + k := by
  have h : (t.plus u).ns = t.ns + u.ns := rfl
  rw [h, BitVec.toNat_add]
  exact (Nat.mod_le _ _).trans (Nat.add_le_add ht hu)

theorem doubleTiming_ns (top : BitVec 4) (smode sreg dmode dreg : Field3) :
    (doubleTiming top smode sreg dmode dreg).ns.toNat ≤ 4350 := by
  have hs := addrNs_le smode
  have hd := addrNs_le dmode
  unfold doubleTiming
  extract_lets bytemode cls t u t'
  refine plus_ns (n := 2250) ?_ (efDouble_ns _ _ _ _ _)
  have ht : t.ns.toNat ≤ 1050 := hs
  have hp : u.ns.toNat ≤ 1050 + 1050 := plus_ns ht hd
  show (ite _ _ _ : Timing).ns.toNat ≤ 2250
  split
  · split
    · exact plus_ns hp (k := 150) (by simp)
    · omega
  · omega

theorem eisTiming_ns (op dmode : Field3) : (eisTiming op dmode).ns.toNat ≤ 4350 := by
  have hd := addrNs_le dmode
  have he (ef : BitVec 32) (h : ef.toNat ≤ 3300) : (addrNs dmode + ef).toNat ≤ 4350 := by
    rw [BitVec.toNat_add]
    omega
  refine he _ ?_
  split_ifs <;> simp

theorem singleTiming_ns (base : BitVec 9) (dmode dreg : Field3) (bytemode : Bool) :
    (singleTiming base dmode dreg bytemode).ns.toNat ≤ 4350 := by
  have hd := addrNs_le dmode
  unfold singleTiming
  extract_lets cls t t'
  have ht : t'.ns.toNat ≤ 1200 := by
    show (ite _ _ _ : Timing).ns.toNat ≤ 1200
    split
    · exact plus_ns hd (k := 150) (by simp)
    · exact hd.trans (by omega)
  exact (plus_ns ht (efSingle_ns cls dmode dreg bytemode)).trans (by omega)

theorem instrTiming_ns (word : Word) : (instrTiming word).ns.toNat ≤ 4350 := by
  have table {l : List (BitVec 32)} (h : ∀ t ∈ l, t.toNat ≤ 4350) (mode : Field3) :
      (byMode l mode).toNat ≤ 4350 := byMode_toNat_le h mode
  have hd := addrNs_le (word.extractLsb' 3 3)
  unfold instrTiming
  dsimp only
  split_ifs
  · exact doubleTiming_ns _ _ _ _ _
  · exact table (by simp) _
  · exact table (by simp) _
  · exact eisTiming_ns _ _
  · show (450 + _ : BitVec 32).toNat ≤ _
    rw [BitVec.toNat_add]
    simp
    omega
  · show (_ + 1500 : BitVec 32).toNat ≤ _
    rw [BitVec.toNat_add]
    simp
    omega
  · exact table (by simp) _
  · exact singleTiming_ns _ _ _ _
  · simp

theorem instrNs_le (s : Cpu) (word : Word) : (instrNs s word).toNat ≤ 4350 := by
  unfold instrNs
  split_ifs
  · simp
  · simp
  · simp
  · simp
  · exact instrTiming_ns word

end Pdp11
