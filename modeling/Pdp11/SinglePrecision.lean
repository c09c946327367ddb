import Pdp11.StepViews

namespace Pdp11

open FaultState

/-! Single precision ignores the low halves of the accumulators. -/

/-! ## The high halves -/

/-- The high halves of the accumulators are seen, and everything else. -/
def highView : View := ⟨id, id, highHalf, id, fun _ _ => rfl⟩

/-- Two machines that are equal except in the low 32 bits of the accumulators. -/
structure SameButLows (s t : Cpu) : Prop where
  rest : t = { s with fp.fac := t.fp.fac }
  high : ∀ r, (t.fp.fac r).extractLsb' 32 32 = (s.fp.fac r).extractLsb' 32 32

theorem highHalf_eq_iff {a b : BitVec 64} :
    highHalf a = highHalf b ↔ a.extractLsb' 32 32 = b.extractLsb' 32 32 := by
  have hhigh (v : BitVec 64) : (v >>> 32).setWidth 32 = v.extractLsb' 32 32 :=
    BitVec.setWidth_ushiftRight_eq_extractLsb
  constructor
  · intro h
    rw [← hhigh, ← highHalf_high, h, highHalf_high, hhigh]
  · intro h
    have hwide (v : BitVec 64) : v >>> 32 = ((v >>> 32).setWidth 32).setWidth 64 := by
      apply BitVec.eq_of_toNat_eq
      have hv := v.isLt
      rw [BitVec.toNat_setWidth, BitVec.toNat_setWidth, BitVec.toNat_ushiftRight,
        Nat.shiftRight_eq_div_pow]
      omega
    unfold highHalf
    rw [hwide a, hwide b, hhigh, hhigh, h]

/-- A machine with other accumulators. -/
def refill (fac : Field3 → BitVec 64) (s : Cpu) : Cpu := { s with fp.fac := fac }

theorem view_highView (s : Cpu) : view highView s = refill (fun r => highHalf (s.fp.fac r)) s := rfl

theorem refill_refill (fac fac' : Field3 → BitVec 64) (s : Cpu) :
    refill fac (refill fac' s) = refill fac s := rfl

theorem view_highView_iff {s t : Cpu} : view highView s = view highView t ↔ SameButLows s t := by
  rw [view_highView, view_highView]
  constructor
  · intro h
    refine ⟨?_, fun r => ?_⟩
    · have hrest : refill t.fp.fac t = refill t.fp.fac s := by
        rw [← refill_refill, ← h, refill_refill]
      exact hrest
    · have hfac := congrArg (fun u : Cpu => u.fp.fac r) h
      exact (highHalf_eq_iff.mp hfac).symm
  · intro h
    have hfac : (fun r => highHalf (s.fp.fac r)) = fun r => highHalf (t.fp.fac r) :=
      funext fun r => highHalf_eq_iff.mpr (h.high r).symm
    have hrest : t = refill t.fp.fac s := h.rest
    rw [hfac, hrest, refill_refill]

/-! ## A call of the step -/

/-- The call executes an LDCff' from an accumulator. -/
def ConvertsRegister (s : Cpu) : Prop :=
  ∃ word m, Fetches s word m ∧ m.cpu.cfg.hasFpp = true ∧ RegisterLdcff word

theorem Fetches.keepsFp {s : Cpu} {word : Word} {m : Machine} (h : Fetches s word m) :
    m.cpu.fp = s.fp := by
  have hfetch := (keepsFp_operand operand_fetch).of_ok h.fetched
  have hbegin (u : Cpu) : (beginInstr u).fp = u.fp := by
    unfold beginInstr
    dsimp only
    split <;> rfl
  have harm : (armTrace s).fp = s.fp := by
    unfold armTrace
    split <;> rfl
  rw [hfetch, hbegin, harm]

/-- A call in single precision keeps two machines equal but for the low halves. -/
theorem SameButLows.step {s t : Cpu} (h : SameButLows s t) (hsingle : s.fp.fps &&& fpsD = 0)
    (hregister : ¬ConvertsRegister s) : SameButLows (cpuStep s).cpu (cpuStep t).cpu := by
  rw [← view_highView_iff] at h ⊢
  refine (cpuStep_view h fun word m m' hfetch hm => ?_).1.cpu
  have hfps : m.cpu.fp.fps = s.fp.fps := congrArg FpRegs.fps hfetch.keepsFp
  refine agree_execute (.inr ⟨rfl, hsingle⟩) ⟨hm, hfps⟩ (.inr ?_)
  rintro ⟨hfpp, hldcff⟩
  exact hregister ⟨word, m, hfetch, hfpp, hldcff⟩

/-! ## Runs -/

/-- Two machines that differ in the low halves of the accumulators run alike in single precision. -/
theorem single_ignores_lows {s t : Cpu} (n : ℕ) (h : SameButLows s t)
    (hsingle : ∀ k < n, (cpuRun s k).fp.fps &&& fpsD = 0)
    (hregister : ∀ k < n, ¬ConvertsRegister (cpuRun s k)) :
    SameButLows (cpuRun s n) (cpuRun t n) := by
  induction n with
  | zero => exact h
  | succ n ih =>
    have hrun : SameButLows (cpuRun s n) (cpuRun t n) :=
      ih (fun k hk => hsingle k (Nat.lt_succ_of_lt hk)) fun k hk =>
        hregister k (Nat.lt_succ_of_lt hk)
    exact hrun.step (hsingle n n.lt_succ_self) (hregister n n.lt_succ_self)

/-- An 11/70 with `ADDF AC1,AC0` and `STF AC0,@#1000` at location 0, and `low` under the one in AC1. -/
def addsSingle (low : BitVec 32) : Cpu :=
  { cpuCreate with
    fp.fac := fun r => if r = 1 then (0x40800000 : BitVec 32) ++ low else 0x4100000000000000
    mem := fun i => if i = 0 then 0o172001 else if i = 1 then 0o174037 else if i = 2 then 0o1000 else 0 }

theorem addsSingle_alike : SameButLows (cpuRun (addsSingle 0) 2) (cpuRun (addsSingle 0xFFFFFFFF) 2) := by
  have hfetched (word : Word) {s : Cpu}
      (hvalue : value? (fetch ⟨beginInstr (armTrace s), [.setjmp]⟩) = some word)
      (hmajor : word.extractLsb' 8 4 ≠ (0o17 : BitVec 4)) : ¬ConvertsRegister s := by
    rintro ⟨word', m, h, -, hldcff⟩
    have hfetch := eq_ok_of_value hvalue
    rw [h.fetched] at hfetch
    cases hfetch
    exact hmajor hldcff.major
  refine single_ignores_lows 2 ⟨rfl, fun r => ?_⟩ (by decide +kernel) fun k hk => ?_
  · revert r
    decide +kernel
  · interval_cases k
    · exact hfetched 0o172001 (by decide +kernel) (by decide)
    · exact hfetched 0o174037 (by decide +kernel) (by decide)

end Pdp11
