import Pdp11.Schedule
import Pdp11.IntegerOrder
import Pdp11.Lib.BitMask

namespace Pdp11

open FaultState BitMask

/-! Emulated time under the execution of instructions. -/

/-- JMP and JSR with a register for destination, which have no address to jump to and trap as
reserved instructions. -/
def RegisterJump (word : Word) : Prop :=
  (word &&& 0o177700 = 0o000100 ∨ word &&& 0o177000 = 0o004000) ∧ word.extractLsb' 3 3 = 0#3

instance (word : Word) : Decidable (RegisterJump word) := inferInstanceAs (Decidable (_ ∧ _))

/-! ## The least time of an instruction -/

/-- Below half the range, a sum is at least its second summand. -/
theorem le_add_toNat {x y : BitVec 32} {n : ℕ} (hx : x.toNat < 2 ^ 31) (hy : y.toNat < 2 ^ 31)
    (h : n ≤ y.toNat) : n ≤ (x + y).toNat := by
  rw [BitVec.toNat_add]
  omega

theorem efDouble_pos (cls : TimingClass) (smode sreg dmode dreg : Field3) :
    150 ≤ (efDouble cls smode sreg dmode dreg).ns.toNat := by
  have hr : 150 ≤ (movNsReg dmode).toNat := by
    revert dmode
    decide
  have hm : 150 ≤ (movNsMem dmode).toNat := by
    revert dmode
    decide
  unfold efDouble
  split_ifs <;> first | exact hr | exact hm | simp

theorem efSingle_pos (cls : TimingClass) (dmode dreg : Field3) (bytemode : Bool) :
    150 ≤ (efSingle cls dmode dreg bytemode).ns.toNat := by
  unfold efSingle
  cases cls <;> grind

theorem doubleTiming_pos (top : BitVec 4) (smode sreg dmode dreg : Field3) :
    150 ≤ (doubleTiming top smode sreg dmode dreg).ns.toNat := by
  have hs := addrNs_le smode
  have hd := addrNs_le dmode
  unfold doubleTiming
  extract_lets bytemode cls t u t'
  have hp : u.ns.toNat ≤ 1050 + 1050 := plus_ns hs hd
  have ht' : t'.ns.toNat ≤ 2250 := by
    show (ite _ _ _ : Timing).ns.toNat ≤ 2250
    split
    · split
      · exact plus_ns hp (k := 150) (by simp)
      · omega
    · exact hs.trans (by omega)
  have he := efDouble_ns cls smode sreg dmode dreg
  apply le_add_toNat
  · omega
  · omega
  · exact efDouble_pos cls smode sreg dmode dreg

theorem eisTiming_pos (op dmode : Field3) : 150 ≤ (eisTiming op dmode).ns.toNat := by
  have hd := addrNs_le dmode
  have he (ef : BitVec 32) (h : ef.toNat ≤ 3300) (h' : 150 ≤ ef.toNat) :
      150 ≤ (addrNs dmode + ef).toNat := by
    apply le_add_toNat
    · omega
    · omega
    · exact h'
  refine he _ ?_ ?_
  · split_ifs <;> simp
  · split_ifs <;> simp

theorem singleTiming_pos (base : BitVec 9) (dmode dreg : Field3) (bytemode : Bool) :
    150 ≤ (singleTiming base dmode dreg bytemode).ns.toNat := by
  have hd := addrNs_le dmode
  unfold singleTiming
  extract_lets cls t t'
  have ht : t'.ns.toNat ≤ 1200 := by
    show (ite _ _ _ : Timing).ns.toNat ≤ 1200
    split
    · exact plus_ns hd (k := 150) (by simp)
    · exact hd.trans (by omega)
  have he := efSingle_ns cls dmode dreg bytemode
  apply le_add_toNat
  · omega
  · omega
  · exact efSingle_pos cls dmode dreg bytemode

/-- Every word but a register jump has a positive entry in its table. -/
theorem instrTiming_pos {word : Word} (h : ¬RegisterJump word) :
    150 ≤ (instrTiming word).ns.toNat := by
  have hjump {l : List (BitVec 32)} (hl : ∀ mode : Field3, mode ≠ 0 → 150 ≤ (byMode l mode).toNat)
      (hw : word &&& 0o177700 = 0o000100 ∨ word &&& 0o177000 = 0o004000) :
      150 ≤ (byMode l (word.extractLsb' 3 3)).toNat :=
    hl _ fun hm => h ⟨hw, hm⟩
  have hd := addrNs_le (word.extractLsb' 3 3)
  unfold instrTiming
  dsimp only
  split_ifs with h1 hjmp hjsr
  · exact doubleTiming_pos _ _ _ _ _
  · exact hjump (by decide) (.inl hjmp)
  · exact hjump (by decide) (.inr hjsr)
  · exact eisTiming_pos _ _
  · rw [BitVec.add_comm]
    apply le_add_toNat
    · omega
    · decide
    · decide
  · apply le_add_toNat
    · omega
    · decide
    · decide
  · generalize (word.extractLsb' 3 3 : Field3) = mode
    revert mode
    decide
  · exact singleTiming_pos _ _ _ _
  · decide

/-! ## Register jumps -/

/-- `JMP Rn`. -/
def jmpRegister (n : Field3) : Word := 0o000100 + n.setWidth 16

/-- `JSR Rl, Rn`. -/
def jsrRegister (l n : Field3) : Word :=
  (0o004000 : Word) + (l.setWidth 16 <<< 6 : Word) + n.setWidth 16

theorem registerJump_cases {word : Word} (h : RegisterJump word) :
    (∃ n, word = jmpRegister n) ∨ ∃ l n, word = jsrRegister l n := by
  obtain ⟨hw, hm⟩ := h
  have hmode := congrArg BitVec.toNat hm
  rw [BitVec.extractLsb'_toNat, Nat.shiftRight_eq_div_pow] at hmode
  change word.toNat / 8 % 8 = 0 at hmode
  rcases hw with hw | hw
  · refine .inl ⟨BitVec.ofNat 3 word.toNat, BitVec.eq_of_toNat_eq ?_⟩
    have hsum := toNat_and_add_and_not word 0o177700
    have hlow : (word &&& ~~~(0o177700 : Word)).toNat = word.toNat % 64 := by
      simpa using toNat_and_field word (i := 0) (n := 6) (by decide)
    have hbase : (0o000100 : Word).toNat = 64 := rfl
    rw [hw, hlow] at hsum
    change 64 + word.toNat % 64 = word.toNat at hsum
    simp only [jmpRegister, BitVec.toNat_add, BitVec.toNat_setWidth, BitVec.toNat_ofNat]
    omega
  · refine .inr ⟨BitVec.ofNat 3 (word.toNat / 64), BitVec.ofNat 3 word.toNat,
      BitVec.eq_of_toNat_eq ?_⟩
    have hsum := toNat_and_add_and_not word 0o177000
    have hlow : (word &&& ~~~(0o177000 : Word)).toNat = word.toNat % 512 := by
      simpa using toNat_and_field word (i := 0) (n := 9) (by decide)
    have hbase : (0o004000 : Word).toNat = 2048 := rfl
    rw [hw, hlow] at hsum
    change 2048 + word.toNat % 512 = word.toNat at hsum
    simp only [jsrRegister, BitVec.toNat_add, BitVec.toNat_shiftLeft, BitVec.toNat_setWidth,
      BitVec.toNat_ofNat, Nat.shiftLeft_eq]
    omega

theorem instrNs_registerJump (s : Cpu) {word : Word} (h : RegisterJump word) :
    instrNs s word = 0 := by
  have hjmp (n : Field3) : isBranch (highByte (jmpRegister n)) = false ∧
      jmpRegister n &&& 0o177000 ≠ 0o077000 ∧ (instrTiming (jmpRegister n)).ns = 0 := by
    revert n
    decide
  have hjsr (l n : Field3) : isBranch (highByte (jsrRegister l n)) = false ∧
      jsrRegister l n &&& 0o177000 ≠ 0o077000 ∧ (instrTiming (jsrRegister l n)).ns = 0 := by
    revert l n
    decide
  have hplain : isBranch (highByte word) = false ∧ word &&& 0o177000 ≠ 0o077000 ∧
      (instrTiming word).ns = 0 := by
    rcases registerJump_cases h with ⟨n, rfl⟩ | ⟨l, n, rfl⟩
    · exact hjmp n
    · exact hjsr l n
  obtain ⟨hb, hsob, hns⟩ := hplain
  rw [instrNs, hb, if_neg Bool.false_ne_true, if_neg hsob, hns]

theorem instrNs_pos (s : Cpu) {word : Word} (h : ¬RegisterJump word) :
    150 ≤ (instrNs s word).toNat := by
  unfold instrNs
  split_ifs
  · decide
  · decide
  · decide
  · decide
  · exact instrTiming_pos h

/-! ## The extra time of a trap -/

/-- The extra time of the instruction stays. -/
def ExtraKept (m m' : Machine) : Prop := m'.cpu.acct.eisExtraNs = m.cpu.acct.eisExtraNs

namespace ExtraKept

theorem refl (m : Machine) : ExtraKept m m := rfl

theorem trans (m₁ m₂ m₃ : Machine) (h : ExtraKept m₁ m₂) (h' : ExtraKept m₂ m₃) :
    ExtraKept m₁ m₃ := Eq.trans h' h

variable {α : Type} {x : M α}

theorem read (h : ReadBuilt x) : Respects ExtraKept x := by
  intro m
  have hk := (read_kept h m).rest
  rw [ExtraKept, hk]

theorem modify {f : Cpu → Cpu} (h : ∀ s, (f s).acct.eisExtraNs = s.acct.eisExtraNs) :
    Respects ExtraKept (modifyCpu f) := fun m => h m.cpu

theorem ioWrite (a value : Word) : Respects ExtraKept (ioWrite a value) := by
  intro m
  rw [ioWrite_apply]
  cases h : ioWriteReg m.cpu a value with
  | none => rfl
  | some s' => exact congrArg Accounting.eisExtraNs (ioWriteReg_step m.cpu a value s' h).1.acct

theorem reference (h : RefBuilt x) : Respects ExtraKept x := by
  apply h.respects refl trans
  intro α x hx
  cases hx with
  | read hx => exact read (.op hx)
  | ioWrite a value => exact ioWrite a value
  | mem f => exact modify fun _ => rfl

theorem stackLimit (sp : Word) : Respects ExtraKept (checkStackLimit sp) := by
  intro m
  rw [checkStackLimit_apply]
  cases stackZone m.cpu sp <;> rfl

theorem push (value : Word) : Respects ExtraKept (pushWord value) := by
  have hget (i : Field3) : Respects ExtraKept (getReg i) := refl
  have hadd : Respects ExtraKept (addReg regSp (-2)) := modify fun _ => rfl
  exact hadd.bind trans fun _ => (hget _).bind trans fun _ => (stackLimit _).bind trans fun _ =>
    (hget _).bind trans fun _ => reference (ref_cpuWriteWord _ _)

theorem fetch : Respects ExtraKept fetch := by
  have hget (i : Field3) : Respects ExtraKept (getReg i) := refl
  have hadd : Respects ExtraKept (addReg regPc 2) := modify fun _ => rfl
  have hword (va : Word) : Respects ExtraKept (cpuFetchWord va) :=
    fun m => read (read_cpuReadWordGen va m.cpu.mode false) m
  exact (hget _).bind trans fun _ => (hword _).bind trans fun _ => hadd.bind trans fun _ =>
    respects_pure refl _

/-- A trap takes no extra time. -/
theorem doTrap (vector : Word) : Respects ExtraKept (doTrap vector) := by
  have hget : Respects ExtraKept getCpu := refl
  have hread (va : Word) : Respects ExtraKept (cpuReadWordGen va 0 true) :=
    read (read_cpuReadWordGen va 0 true)
  have hlog (e : Event) : Respects ExtraKept (emit e) := refl
  have hpsw (psw : Cpu → Word) : Respects ExtraKept (modifyCpu fun s => putPsw s (psw s)) := by
    apply modify
    intro s
    rw [putPsw_eq]
  have hctl (b : Bool) : Respects ExtraKept (modifyCpu fun s => { s with ctl.inTrapPush := b }) :=
    modify fun _ => rfl
  have hset (value : Word) : Respects ExtraKept (setReg regPc value) := modify fun _ => rfl
  have hdone : Respects ExtraKept
      (modifyCpu fun s => { s with mmu.mmr0 := s.mmu.mmr0 ||| mmr0Ic }) := modify fun _ => rfl
  refine hget.bind trans fun _ => (hlog _).bind trans fun _ => (hread _).bind trans fun _ =>
    (hread _).bind trans fun _ => (hpsw fun _ => _).bind trans fun _ =>
    (hctl true).bind trans fun _ => (push _).bind trans fun _ => (push _).bind trans fun _ =>
    (hctl false).bind trans fun _ => (hset _).bind trans fun _ => hdone.bind trans fun _ =>
    hget.bind trans fun _ => ?_
  unfold whenM
  split
  · exact stackLimit _
  · exact respects_pure refl ()

end ExtraKept

/-- A base below those of the single-operand instructions. -/
theorem trySingleOp_low {word : Word} {base : BitVec 9} (h : word.extractLsb' 6 9 = base)
    (hlow : base.toNat < 40) (hne : base ≠ 3) : trySingleOp word = none := by
  have hother (k : BitVec 9) (hk : 40 ≤ k.toNat) : base ≠ k := by
    rintro rfl
    omega
  have hrange : ¬0o050#9 ≤ base := by
    rw [BitVec.le_def]
    exact not_le.2 hlow
  unfold trySingleOp
  rw [h]
  dsimp only
  rw [if_neg fun hb => hne hb.1, if_neg fun hb => hother _ (by decide) hb.1,
    if_neg (hother _ (by decide)), if_neg (hother _ (by decide)), if_neg fun hb => hrange hb.1,
    if_neg fun hb => hother _ (by decide) hb.2]

theorem decodeOperand_register {spec : BitVec 6} (h : spec.extractLsb' 3 3 = 0#3) :
    decodeOperand spec false = pure (.reg (spec.extractLsb' 0 3)) := by
  unfold decodeOperand
  exact if_pos h

theorem execute_jmpRegister (n : Field3) : execute (jmpRegister n) = doTrap vecReserved := by
  have hbase : (jmpRegister n).extractLsb' 6 9 = 1#9 := by
    revert n
    decide
  have hbranch : isBranch (highByte (jmpRegister n)) = false := by
    revert n
    decide
  have hrange : 0o000100 ≤ jmpRegister n ∧ jmpRegister n ≤ 0o000177 := by
    revert n
    decide
  have hspec : (dstSpec (jmpRegister n)).extractLsb' 3 3 = 0#3 := by
    revert n
    decide
  rw [execute_misc hbase (by decide), decodeMisc, trySingleOp_low hbase (by decide) (by decide)]
  dsimp only
  rw [hbranch, if_neg Bool.false_ne_true, if_pos hrange]
  rw [opJmp, decodeOperand_register hspec]
  rfl

theorem execute_jsrRegister (l n : Field3) :
    execute (jsrRegister l n) = doTrap vecReserved := by
  have hbase : (jsrRegister l n).extractLsb' 6 9 = 0o040#9 + l.setWidth 9 := by
    revert l n
    decide
  have hbranch : isBranch (highByte (jsrRegister l n)) = false := by
    revert l n
    decide
  have hlt : ¬jsrRegister l n ≤ 0o000277 := by
    revert l n
    decide
  have hmask : jsrRegister l n &&& 0o177000 = 0o004000 := by
    revert l n
    decide
  have hspec : (dstSpec (jsrRegister l n)).extractLsb' 3 3 = 0#3 := by
    revert l n
    decide
  have hfield : ∀ k : Field3, (0o040#9 + k.setWidth 9).toNat < 40 ∧
      0o040#9 + k.setWidth 9 ≠ 3 := by decide
  obtain ⟨hlow, hne⟩ := hfield l
  -- every narrower range ends below the word
  have hle {k : Word} (hk : k ≤ 0o000277) : ¬jsrRegister l n ≤ k :=
    fun hw => hlt (BitVec.le_trans hw hk)
  rw [execute_misc hbase (by omega), decodeMisc, trySingleOp_low hbase hlow hne]
  dsimp only
  rw [hbranch, if_neg Bool.false_ne_true, if_neg fun hw => hle (by decide) hw.2,
    if_neg fun hw => hle (by decide) hw.2, if_neg fun hw => hle (by decide) hw.2,
    if_neg fun hw => hle (by decide) hw.2, if_pos hmask]
  rw [opJsr, decodeOperand_register hspec]
  rfl

theorem execute_registerJump {word : Word} (h : RegisterJump word) :
    execute word = doTrap vecReserved := by
  rcases registerJump_cases h with ⟨n, rfl⟩ | ⟨l, n, rfl⟩
  · exact execute_jmpRegister n
  · exact execute_jsrRegister l n

/-! ## One completed instruction -/

/-- The word a step fetches and completes: nothing is dispatched before it, nothing aborts it. -/
def completedWord (s : Cpu) : Option Word :=
  if s.ctl.halted = true ∨ pendingDispatch s ≠ none ∨ s.ctl.waiting = true then none
  else value? (fetchExecute (instrStart s))

/-- The emulated time between two states, which the counter keeps modulo `2^64`. -/
def elapsed (s t : Cpu) : ℕ := (t.acct.timeNs - s.acct.timeNs).toNat

theorem completedWord_run {s : Cpu} {word : Word} (h : completedWord s = some word) :
    ∃ m, fetchExecute (instrStart s) = .ok word m ∧
      (cpuStep s).cpu = finishInstr word m.cpu := by
  unfold completedWord at h
  split at h
  · cases h
  · next hn =>
    rw [not_or, not_or, not_not] at hn
    obtain ⟨hhalted, hp, hw⟩ := hn
    have hx := eq_ok_of_value h
    refine ⟨_, hx, ?_⟩
    rw [cpuStep_instr (by simpa using hhalted) hp (by simpa using hw), stepInstr_complete hx]
    rfl

/-- A completed instruction takes its base time and the extra time it set, of which a register jump
has neither. -/
theorem completed_elapsed {s : Cpu} {word : Word} (h : completedWord s = some word) :
    ∃ m : Machine, elapsed s (cpuStep s).cpu =
        (instrNs m.cpu word).toNat + m.cpu.acct.eisExtraNs.toNat ∧
      (RegisterJump word → m.cpu.acct.eisExtraNs = 0) := by
  obtain ⟨m, hx, hc⟩ := completedWord_run h
  obtain ⟨m₁, hfetch, hex⟩ := fetchExecute_ok hx
  obtain ⟨-, htime, hextra⟩ := beginInstr_dev (armTrace s)
  have hf := (Built.respects ScheduleKept.refl ScheduleKept.trans kept_core
    (core_of_basic basic_fetch)).of_ok hfetch
  have he := (Built.respects ScheduleKept.refl ScheduleKept.trans kept_core
    (core_execute word)).of_ok hex
  have harm : (armTrace s).acct = s.acct := by
    unfold armTrace
    split <;> rfl
  have hm : m.cpu.acct.timeNs = s.acct.timeNs := by
    rw [he.time, hf.time, htime, harm]
  have hzero : (beginInstr (armTrace s)).acct.eisExtraNs ≤ 6150 := by
    rw [hextra]
    decide
  have hle : m.cpu.acct.eisExtraNs.toNat ≤ 6150 := he.extra (hf.extra hzero)
  have hn := instrNs_le m.cpu word
  refine ⟨m, ?_, fun hj => ?_⟩
  · have hns : (instrNs m.cpu word + m.cpu.acct.eisExtraNs).toNat =
        (instrNs m.cpu word).toNat + m.cpu.acct.eisExtraNs.toNat := by
      rw [BitVec.toNat_add]
      omega
    have ht : (cpuStep s).cpu.acct.timeNs =
        s.acct.timeNs + (instrNs m.cpu word + m.cpu.acct.eisExtraNs).setWidth 64 := by
      rw [hc, finishInstr, serviceDueEvents_acct, ← hm]
      rfl
    rw [elapsed, ht, BitVec.add_comm, BitVec.add_sub_cancel, BitVec.toNat_setWidth, hns]
    omega
  · have hkept : ExtraKept m₁ m := by
      rw [execute_registerJump hj] at hex
      exact (ExtraKept.doTrap vecReserved).of_ok hex
    -- fetching reads a word and moves PC
    have hfetched : ExtraKept ⟨beginInstr (armTrace s), [.setjmp]⟩ m₁ :=
      ExtraKept.fetch.of_ok hfetch
    exact Eq.trans hkept (Eq.trans hfetched hextra)

theorem elapsed_iff {s : Cpu} {word : Word} (h : completedWord s = some word) :
    150 ≤ elapsed s (cpuStep s).cpu ↔ ¬RegisterJump word := by
  obtain ⟨m, he, hzero⟩ := completed_elapsed h
  rw [he]
  constructor
  · intro hle hj
    rw [instrNs_registerJump m.cpu hj, hzero hj] at hle
    exact absurd hle (by decide)
  · intro hj
    have hpos := instrNs_pos m.cpu hj
    omega

/-! ## Runs -/

/-- The step completes an instruction other than a register jump. -/
def Advances (s : Cpu) : Prop := ∃ word ∈ completedWord s, ¬RegisterJump word

instance (s : Cpu) : Decidable (Advances s) :=
  inferInstanceAs (Decidable (∃ word ∈ completedWord s, ¬RegisterJump word))

/-- The instructions other than register jumps that a run completes. -/
def advanced (s : Cpu) : ℕ → ℕ
  | 0 => 0
  | n + 1 => advanced s n + if Advances (cpuRun s n) then 1 else 0

/-- The emulated time of a run. -/
def runElapsed (s : Cpu) : ℕ → ℕ
  | 0 => 0
  | n + 1 => runElapsed s n + elapsed (cpuRun s n) (cpuRun s (n + 1))

theorem advanced_le (s : Cpu) (n : ℕ) : 150 * advanced s n ≤ runElapsed s n := by
  induction n with
  | zero => exact le_rfl
  | succ n ih =>
    rw [advanced, runElapsed]
    split
    · next h =>
      obtain ⟨word, hw, hj⟩ := h
      have hstep : 150 ≤ elapsed (cpuRun s n) (cpuRun s (n + 1)) := (elapsed_iff hw).2 hj
      omega
    · omega

/-- Within the range of the schedule no step turns time back. -/
theorem cpuStep_time_le {s : Cpu} (h : ScheduleExact s) (ht : s.acct.timeNs.toNat < 2 ^ 63) :
    s.acct.timeNs.toNat ≤ (cpuStep s).cpu.acct.timeNs.toNat := by
  obtain hr | ⟨m, word, hr, hc, -⟩ | ⟨hc, -⟩ :=
    cpuStep_outcome ScheduleKept.refl ScheduleKept.trans kept_step s
  · exact (congrArg BitVec.toNat hr.time).ge
  · have hn := instrNs_le m.cpu word
    have he : m.cpu.acct.eisExtraNs.toNat ≤ 6150 := hr.extra h.extra
    have htime : m.cpu.acct.timeNs = s.acct.timeNs := hr.time
    have hc' : (finishInstr word m.cpu).acct.timeNs =
        s.acct.timeNs + (instrNs m.cpu word + m.cpu.acct.eisExtraNs).setWidth 64 := by
      rw [finishInstr, serviceDueEvents_acct, ← htime]
      rfl
    have hns : (instrNs m.cpu word + m.cpu.acct.eisExtraNs).toNat < 2 ^ 32 := BitVec.isLt _
    rw [hc, hc', BitVec.toNat_add, BitVec.toNat_setWidth]
    omega
  · rw [hc]
    unfold idleSkip
    dsimp only
    split
    · rw [serviceDueEvents_acct]
      split
      · next hlt => exact BitVec.le_of_lt hlt
      · exact le_rfl
    · exact le_rfl

/-- Below `2^63` ns the counter itself shows the time of a run. -/
theorem cpuRun_time {s : Cpu} (h : Reachable s) (n : ℕ)
    (hr : ∀ i ≤ n, (cpuRun s i).acct.timeNs.toNat < 2 ^ 63) :
    Reachable (cpuRun s n) ∧
      (cpuRun s n).acct.timeNs.toNat = s.acct.timeNs.toNat + runElapsed s n := by
  induction n with
  | zero => exact ⟨h, rfl⟩
  | succ n ih =>
    obtain ⟨hn, hsum⟩ := ih fun i hi => hr i (by omega)
    obtain ⟨hexact, hlt⟩ := hn.exact
    have hle := cpuStep_time_le hexact hlt
    have hstep : elapsed (cpuRun s n) (cpuRun s (n + 1)) =
        (cpuRun s (n + 1)).acct.timeNs.toNat - (cpuRun s n).acct.timeNs.toNat :=
      BitVec.toNat_sub_of_le hle
    refine ⟨.step hn (hr (n + 1) le_rfl), ?_⟩
    change (cpuRun s n).acct.timeNs.toNat ≤ (cpuRun s (n + 1)).acct.timeNs.toNat at hle
    rw [runElapsed, hstep]
    omega

/-- A completed instruction advances emulated time by at least 150 ns exactly when it is not JMP or
JSR to a register. Whatever a run does besides, its other completed instructions each add their
150 ns, and when they make up the time to a moment the line clock has ticked past it and no
completion due by it is outstanding. -/
theorem time_advances_iff (s : Cpu) :
    (∀ word, completedWord s = some word →
      (150 ≤ elapsed s (cpuStep s).cpu ↔ ¬RegisterJump word)) ∧
    (∀ n, 150 * advanced s n ≤ runElapsed s n) ∧
    (Reachable s → ∀ (n : ℕ) (moment : Time),
      (∀ i ≤ n, (cpuRun s i).acct.timeNs.toNat < 2 ^ 63) →
      moment.toNat ≤ s.acct.timeNs.toNat + 150 * advanced s n →
      moment ≤ (cpuRun s n).acct.timeNs ∧ moment < (cpuRun s n).dev.clkNextNs ∧
        ∀ p ∈ completions (cpuRun s n).dev, p.1 = true → moment < p.2) := by
  refine ⟨fun word => elapsed_iff, advanced_le s, ?_⟩
  intro h n moment hr hm
  obtain ⟨hn, hsum⟩ := cpuRun_time h n hr
  have hsteps := advanced_le s n
  have hle : moment ≤ (cpuRun s n).acct.timeNs := by
    rw [BitVec.le_def]
    omega
  obtain ⟨hexact, -⟩ := hn.exact
  have hnext := EventSchedule.lt_nextTick (by decide : 0 < clkPeriodNs.toNat)
    (cpuRun s n).acct.timeNs.toNat
  rw [BitVec.le_def] at hle
  refine ⟨hle, ?_, fun p hp hb => ?_⟩
  · rw [BitVec.lt_def, hexact.clock]
    exact lt_of_le_of_lt hle hnext
  · exact lt_of_le_of_lt hle (hexact.later p hp hb)

/-- `JMP R0`, and a zero vector for the trap. -/
def jumping : Cpu :=
  { cpuCreate with
    regs.r := Function.update resetRegs.r regSp 0o1000
    mem := fun i => if i = 0 then 0o000100 else 0 }

/-- `JMP R0` completes, its trap leads back to it, and the time stays. -/
theorem jump_stands_still : ¬∀ (s : Cpu) (word : Word), completedWord s = some word →
    150 ≤ elapsed s (cpuStep s).cpu := by
  intro h
  have hword : completedWord jumping = some 0o000100 := by decide +kernel
  have hns : elapsed jumping (cpuStep jumping).cpu = 0 := by decide +kernel
  have hle := h jumping _ hword
  rw [hns] at hle
  exact absurd hle (by decide)

/-- `BR .`. -/
def branching : Cpu := { cpuCreate with mem := fun _ => 0o000777 }

/-- `BR .` takes its 600 ns. -/
theorem branch_advances : 150 ≤ elapsed branching (cpuStep branching).cpu := by
  exact ((time_advances_iff branching).1 0o000777 (by decide +kernel)).2 (by decide)

end Pdp11
