import Pdp11.References
import Pdp11.BusOps

namespace Pdp11

/-! The kernel stack limit as ordinary integers place it. -/

/-- The check of a stack pointer against the limit, with sums that do not wrap: nothing from the
yellow boundary on, the yellow trap armed in the zone below it, the red abort below that. -/
def LimitChecked (s : Cpu) (sp : Word) : Prop :=
  ∀ events : List Event, checkStackLimit sp ⟨s, events⟩ =
    if s.sys.stklim.toNat + 0o400 ≤ sp.toNat then .ok () ⟨s, events⟩
    else if s.sys.stklim.toNat + 0o340 ≤ sp.toNat then .ok () ⟨stackYellow s, events⟩
    else (cpuBusFault vecBus : M Unit) ⟨stackRed s, events⟩

/-- The yellow trap is armed already, and recorded in CPUERR. -/
def YellowArmed (s : Cpu) : Prop :=
  s.ctl.stackYellowPending = true ∧ s.sys.cpuerr &&& cpuerrYel ≠ 0

theorem stackYellow_eq_self {s : Cpu} : stackYellow s = s ↔ YellowArmed s := by
  have hbit : s.sys.cpuerr ||| cpuerrYel = s.sys.cpuerr ↔ s.sys.cpuerr &&& cpuerrYel ≠ 0 :=
    BitMask.or_twoPow_eq_self (i := 3) (by decide)
  constructor
  · intro h
    exact ⟨congrArg (·.ctl.stackYellowPending) h.symm, hbit.1 (congrArg (·.sys.cpuerr) h)⟩
  · intro h
    unfold stackYellow
    rw [hbit.2 h.2, ← h.1]

theorem boundary_le {stklim : Word} (off sp : Word) (h : stklim.toNat + off.toNat < 2 ^ 16) :
    stklim + off ≤ sp ↔ stklim.toNat + off.toNat ≤ sp.toNat := by
  rw [BitVec.le_def, BitVec.toNat_add, Nat.mod_eq_of_lt h]

section
variable {s : Cpu} {sp : Word}

theorem checkStackLimit_kernel (hstklr : s.cfg.hasStklr = true) (hstklf : s.cfg.hasStklf = false)
    (hkernel : s.mode = 0) (hpush : s.ctl.inTrapPush = false) (events : List Event) :
    checkStackLimit sp ⟨s, events⟩ =
      if s.sys.stklim + stklYel ≤ sp then .ok () ⟨s, events⟩
      else if s.sys.stklim + stklRed ≤ sp then .ok () ⟨stackYellow s, events⟩
      else (cpuBusFault vecBus : M Unit) ⟨stackRed s, events⟩ := by
  have hexempt : stackExempt s = false := by simp [stackExempt, hkernel, hpush]
  rw [checkStackLimit_apply, stackZone]
  simp only [hexempt, hstklr, hstklf, Bool.false_eq_true, if_false, if_true]
  split_ifs <;> rfl

/-- The limit is kept as ordinary integers place it exactly when it is not the topmost one; there
the boundary wraps to zero, and nothing is checked at all. -/
theorem limitChecked_iff {model : Model} (hcfg : s.cfg = (cpuAlloc model).cfg)
    (hmodel : s.cfg.hasStklr = true) (hkernel : s.mode = 0) (hpush : s.ctl.inTrapPush = false)
    (hlim : s.sys.stklim &&& 0o377 = 0) :
    LimitChecked s sp ↔ s.sys.stklim ≠ 0o177400 ∨ (0o177740 ≤ sp ∧ YellowArmed s) := by
  have hstklf : s.cfg.hasStklf = false := by
    rw [hcfg] at hmodel ⊢
    cases model <;> first | rfl | exact absurd hmodel (by decide)
  have hlow : s.sys.stklim.toNat % 256 = 0 := by
    rw [← Nat.and_two_pow_sub_one_eq_mod _ 8]
    exact congrArg BitVec.toNat hlim
  have hlt := s.sys.stklim.isLt
  unfold LimitChecked
  simp only [checkStackLimit_kernel hmodel hstklf hkernel hpush]
  by_cases htop : s.sys.stklim = 0o177400
  · rw [htop]
    -- the sum of limit and yellow zone is zero, so every SP is above it
    have hwrap : (0o177400 : Word) + stklYel ≤ sp := BitVec.le_def.2 (Nat.zero_le sp.toNat)
    have hsp := sp.isLt
    have hnat : (0o177400 : Word).toNat = 65280 := rfl
    have htopsp : (0o177740 : Word) ≤ sp ↔ 65504 ≤ sp.toNat := BitVec.le_def
    simp only [if_pos hwrap, hnat, ne_eq, not_true_eq_false, false_or]
    constructor
    · intro h
      have h0 := h []
      rw [if_neg (by omega)] at h0
      by_cases hzone : 65280 + 0o340 ≤ sp.toNat
      · rw [if_pos hzone] at h0
        have hs : s = stackYellow s := congrArg Machine.cpu (EStateM.Result.ok.inj h0).2
        exact ⟨htopsp.2 (by omega), stackYellow_eq_self.1 hs.symm⟩
      · rw [if_neg hzone] at h0
        cases h0
    · rintro ⟨hzone, harmed⟩ events
      rw [htopsp] at hzone
      rw [if_neg (by omega), if_pos (by omega), stackYellow_eq_self.2 harmed]
  · refine iff_of_true (fun events => ?_) (.inl htop)
    have hne : s.sys.stklim.toNat ≠ 65280 := fun h => htop (BitVec.eq_of_toNat_eq h)
    have hyellow : (stklYel : Word).toNat = 0o400 := rfl
    have hred : (stklRed : Word).toNat = 0o340 := rfl
    simp only [boundary_le stklYel sp (show s.sys.stklim.toNat + _ < _ by omega),
      boundary_le stklRed sp (show s.sys.stklim.toNat + _ < _ by omega), hyellow,
      hred]

end

/-- An 11/70 whose program stored a limit. -/
def limitedCpu (limit : Word) : Cpu := (BusOp.write 0o177774 limit).apply (cpuCreateModel .m1170)

theorem limitedCpu_reached (limit : Word) : Reached .m1170 (limitedCpu limit) :=
  (Reached.create .m1170).next _

/-- Under a limit of 01000 the limit is kept at every stack pointer. -/
theorem middle_limit_checked : LimitChecked (limitedCpu 0o1000) 0o1376 :=
  (@limitChecked_iff (limitedCpu 0o1000) 0o1376 .m1170 rfl rfl rfl rfl rfl).2
    (.inl (by decide))

/-- Under the topmost limit a Kernel push at the bottom of memory is not refused. -/
theorem topmost_limit_unchecked :
    ¬∀ (model : Model) (s : Cpu) (sp : Word), Reached model s → s.cfg.hasStklr = true →
      s.mode = 0 → s.ctl.inTrapPush = false → s.sys.stklim &&& 0o377 = 0 → LimitChecked s sp := by
  intro h
  have hc := h .m1170 (limitedCpu 0o177400) 0 (limitedCpu_reached _) rfl rfl rfl rfl []
  have hstklim : (limitedCpu 0o177400).sys.stklim = 0o177400 := rfl
  rw [checkStackLimit_kernel rfl rfl rfl rfl, hstklim, if_pos (by decide), if_neg (by decide),
    if_neg (by decide)] at hc
  cases hc

end Pdp11
