import Pdp11.IntegerOrder
import Pdp11.Lib.ShiftSteps

namespace Pdp11

open FaultState ShiftSteps

/-! ASH and ASHC against single-place shifts. -/

/-! ## The closed formulas -/

/-- The low six bits of a shift operand, read as a signed count. -/
def shiftPlaces (value : Word) : ℤ := (value.extractLsb' 0 6 : BitVec 6).toInt

theorem shiftPlaces_eq (value : Word) :
    shiftPlaces value =
      if (value &&& 0o77).toNat < 32 then ((value &&& 0o77).toNat : ℤ)
      else (value &&& 0o77).toNat - 64 := by
  have hcode : (value.extractLsb' 0 6 : BitVec 6).toNat = (value &&& 0o77).toNat := by
    rw [BitVec.extractLsb'_toNat, BitVec.toNat_and, Nat.shiftRight_zero]
    exact (Nat.and_two_pow_sub_one_eq_mod value.toNat 6).symm
  rw [shiftPlaces, BitVec.toInt_eq_toNat_cond, hcode]
  split_ifs <;> omega

theorem shiftCode_lt (value : Word) : (value &&& 0o77).toNat < 64 := by
  have h : (value &&& 0o77).toNat = value.toNat % 64 := by
    rw [BitVec.toNat_and]
    exact Nat.and_two_pow_sub_one_eq_mod value.toNat 6
  omega

/-- What a shift formula gives, in a register of `w` bits. -/
structure ShiftIs {w : ℕ} (out : Shift) (t : Shifted w) : Prop where
  dst : out.dst.setWidth w = t.value
  v : out.v = t.changed
  c : out.c = t.out

section
variable (x : BitVec 32) {n : ℕ}

theorem ashc_left (h0 : 0 < n) (hn : n ≤ 31) : ShiftIs (ashcShift x n) (shift x n) := by
  have hform : ashcShift x n =
      ⟨x <<< n, (x.sshiftRight (32 - n) ||| ((if x.msb then -1 else 0 : BitVec 32) <<< n)) ≠
        (if (x <<< n).slt 0 then -1 else 0),
        (x.sshiftRight (32 - n) ||| ((if x.msb then -1 else 0 : BitVec 32) <<< n)) &&& 1 ≠ 0⟩ := by
    rw [ashcShift, if_neg (by omega), if_pos hn]
  have hsigns := sshiftRight_or_signs x (n := 32 - n) (by omega)
  rw [show 32 - (32 - n) = n by omega] at hsigns
  have hslt : (x <<< n).slt 0 = (x <<< n).msb := BitVec.slt_zero_eq_msb
  rw [hform, hsigns, hslt, shift_left]
  refine ⟨?_, (left_changed_eq x h0 (by omega)).symm, ?_⟩
  · rw [left_value]
    exact BitVec.setWidth_eq _
  · obtain ⟨k, rfl⟩ : ∃ k, n = k + 1 := ⟨n - 1, by omega⟩
    dsimp only
    rw [BitMask.and_one_ne_zero (by decide), left_out, getLsbD_top x (by omega) (by omega)]
    rfl

/-- The right shifts, by the places left to 64. -/
theorem shiftRight_eq (h0 : 0 < n) (hn : n ≤ 31) :
    shiftRight x (64 - n) = ⟨x.sshiftRight n, false, (x.sshiftRight (n - 1)).getLsbD 0⟩ := by
  have hsigns := sshiftRight_or_signs x (n := n) (by omega)
  rw [← BitMask.and_one_ne_zero (by decide), ← hsigns, shiftRight, show 64 - (64 - n) = n by omega,
    show 63 - (64 - n) = n - 1 by omega, show 64 - n - 32 = 32 - n by omega]

/-- Thirty-two places to the right leave the sign alone. -/
theorem sign_fill {w : ℕ} (hw : w ≤ 32) (y : BitVec w) :
    (if y.msb then -1 else 0 : BitVec 32).setWidth w = y.sshiftRight 32 := by
  apply BitVec.eq_of_getLsbD_eq
  intro j hj
  have hout : ¬32 + j < w := by omega
  have hin : j < 32 := by omega
  have hones : (-1 : BitVec 32) = BitVec.allOnes 32 := rfl
  rw [BitVec.getLsbD_sshiftRight, if_neg hout, BitVec.getLsbD_setWidth, hones]
  cases y.msb with
  | false => simp
  | true =>
    rw [if_pos rfl, BitVec.getLsbD_allOnes]
    simp [hj, hin]

/-- Every shift of a pair is that many single places. -/
theorem ashcShift_steps (sh : ℕ) (hsh : sh < 64) :
    ShiftIs (ashcShift x sh) (shift x (if sh < 32 then (sh : ℤ) else sh - 64)) := by
  by_cases h0 : sh = 0
  · subst h0
    exact ⟨BitVec.setWidth_eq _, rfl, rfl⟩
  by_cases hleft : sh ≤ 31
  · rw [if_pos (by omega)]
    exact ashc_left x (by omega) hleft
  -- to the right, by 64 - sh places
  obtain ⟨n, hn, rfl⟩ : ∃ n, n < 32 ∧ sh = 64 - (n + 1) := ⟨63 - sh, by omega, by omega⟩
  have hcount : (if 64 - (n + 1) < 32 then ((64 - (n + 1) : ℕ) : ℤ) else (64 - (n + 1) : ℕ) - 64) =
      -((n + 1 : ℕ) : ℤ) := by
    rw [if_neg (by omega)]
    omega
  rw [hcount, shift_right x (by omega)]
  by_cases hall : n = 31
  · subst hall
    refine ⟨?_, (right_changed x 32).symm, ?_⟩
    · rw [right_value]
      exact sign_fill le_rfl x
    · rw [right_out, BitVec.getLsbD_sshiftRight, if_pos (by decide)]
      exact BitVec.msb_eq_getLsbD_last x
  · have hform : ashcShift x (64 - (n + 1)) = shiftRight x (64 - (n + 1)) := by
      rw [ashcShift, if_neg h0, if_neg hleft, if_neg (by omega)]
    rw [hform, shiftRight_eq x (by omega) (by omega)]
    refine ⟨?_, (right_changed x _).symm, (right_out x n).symm⟩
    rw [right_value]
    exact BitVec.setWidth_eq _

end

section
variable (r : Word) {n : ℕ}

theorem low_word (x : BitVec 32) : x &&& 0o177777 = (x.setWidth 16).setWidth 32 := by
  apply BitVec.eq_of_toNat_eq
  rw [BitVec.toNat_and, BitVec.toNat_setWidth, BitVec.toNat_setWidth]
  exact (Nat.and_two_pow_sub_one_eq_mod x.toNat 16).trans (by omega)

theorem signExtend_low : (r.signExtend 32).setWidth 16 = r := by
  have h := setWidth_sshiftRight r (show 16 ≤ 32 by decide) 0
  rwa [BitVec.sshiftRight_zero, BitVec.sshiftRight_zero] at h

theorem shiftLeft_low (n : ℕ) : (r.signExtend 32 <<< n).setWidth 16 = r <<< n := by
  rw [BitVec.setWidth_shiftLeft_of_le (by decide), signExtend_low]

theorem ash_left (h0 : 0 < n) (hn : n ≤ 15) : ShiftIs (ashShift (r.signExtend 32) n) (shift r n) := by
  have hlow : (r.signExtend 32).sshiftRight (16 - n) &&& 0o177777 =
      (r.sshiftRight (16 - n)).setWidth 32 := by
    rw [low_word, setWidth_sshiftRight r (by decide)]
  have hsign : decide (r.signExtend 32 <<< n &&& 0o100000 ≠ 0) = (r <<< n).msb := by
    rw [← shiftLeft_low, BitVec.msb_eq_getLsbD_last, Bool.eq_iff_iff, decide_eq_true_eq,
      BitVec.getLsbD_setWidth]
    exact BitMask.and_twoPow_ne_zero (i := 15) (by decide)
  have hform : ashShift (r.signExtend 32) n =
      ⟨r.signExtend 32 <<< n, (r.sshiftRight (16 - n)).setWidth 32 ≠
        (if (r <<< n).msb then 0o177777 else 0 : BitVec 32),
        (r.sshiftRight (16 - n)).setWidth 32 &&& (1 : BitVec 32) ≠ 0⟩ := by
    rw [ashShift, if_neg (by omega), if_pos hn, ← hlow, ← hsign]
    simp only [decide_eq_true_eq]
  have hfill : (if (r <<< n).msb then 0o177777 else 0 : BitVec 32) =
      (if (r <<< n).msb then -1 else 0 : Word).setWidth 32 := by
    cases (r <<< n).msb <;> rfl
  have hinj (y z : Word) : y.setWidth 32 ≠ z.setWidth 32 ↔ y ≠ z :=
    not_congr ⟨fun h => by simpa using congrArg (BitVec.setWidth 16) h, fun h => by rw [h]⟩
  rw [hform, shift_left]
  refine ⟨?_, ?_, ?_⟩
  · rw [left_value]
    exact shiftLeft_low r n
  · rw [left_changed_eq r h0 (by omega), hfill, decide_eq_decide, hinj]
  · obtain ⟨k, rfl⟩ : ∃ k, n = k + 1 := ⟨n - 1, by omega⟩
    dsimp only
    rw [BitMask.and_one_ne_zero (by decide), left_out, BitVec.getLsbD_setWidth,
      getLsbD_top r (by omega) (by omega)]
    rfl

/-- Sixteen places or more to the left lose every bit. -/
theorem ash_out (h0 : 16 ≤ n) (hn : n ≤ 31) : ShiftIs (ashShift (r.signExtend 32) n) (shift r n) := by
  have hform : ashShift (r.signExtend 32) n =
      ⟨0, r.signExtend 32 ≠ 0, (r.signExtend 32 <<< (n - 16)) &&& 1 ≠ 0⟩ := by
    rw [ashShift, if_neg (by omega), if_neg (by omega), if_pos hn]
  rw [hform, shift_left]
  refine ⟨?_, ?_, ?_⟩
  · rw [left_value, BitVec.shiftLeft_eq_zero h0]
    rfl
  · have hout : r.getMsbD n = false := by simp [BitVec.getMsbD, show ¬n < 16 by omega]
    have hzero : r.signExtend 32 = 0 ↔ r = 0 := by
      constructor
      · intro h
        rw [← signExtend_low r, h]
        rfl
      · rintro rfl
        rfl
    rw [Bool.eq_iff_iff, left_changed, decide_eq_true_eq, ne_eq, hzero, hout]
    constructor
    · intro h
      by_contra hall
      apply h
      apply BitVec.eq_of_getLsbD_eq
      intro j hj
      have hbit : r.getMsbD (15 - j) = false := by
        by_contra hb
        exact hall ⟨15 - j, by omega, hb⟩
      rw [BitVec.getMsbD, show 16 - 1 - (15 - j) = j by omega] at hbit
      simpa [show 15 - j < 16 by omega] using hbit
    · rintro ⟨k, -, hk⟩ rfl
      exact hk (by simp [BitVec.getMsbD])
  · obtain ⟨k, rfl⟩ : ∃ k, n = k + 1 := ⟨n - 1, by omega⟩
    dsimp only
    rw [BitMask.and_one_ne_zero (by decide), left_out, BitVec.getLsbD_shiftLeft, BitVec.getMsbD]
    -- only the sixteenth place shifts a bit of the register out
    by_cases h15 : k = 15
    · subst h15
      rw [BitVec.getLsbD_signExtend]
      simp
    · simp [show ¬k < 16 by omega, show ¬k ≤ 15 by omega]

/-- Every shift of a register is that many single places. -/
theorem ashShift_steps (sh : ℕ) (hsh : sh < 64) :
    ShiftIs (ashShift (r.signExtend 32) sh) (shift r (if sh < 32 then (sh : ℤ) else sh - 64)) := by
  by_cases h0 : sh = 0
  · subst h0
    exact ⟨signExtend_low r, rfl, rfl⟩
  by_cases hleft : sh ≤ 15
  · rw [if_pos (by omega)]
    exact ash_left r (by omega) hleft
  by_cases hlost : sh ≤ 31
  · rw [if_pos (by omega)]
    exact ash_out r (by omega) hlost
  obtain ⟨n, hn, rfl⟩ : ∃ n, n < 32 ∧ sh = 64 - (n + 1) := ⟨63 - sh, by omega, by omega⟩
  have hcount : (if 64 - (n + 1) < 32 then ((64 - (n + 1) : ℕ) : ℤ) else (64 - (n + 1) : ℕ) - 64) =
      -((n + 1 : ℕ) : ℤ) := by
    rw [if_neg (by omega)]
    omega
  have hmsb : (r.signExtend 32).msb = r.msb := msb_signExtend r (by decide) (by decide)
  rw [hcount, shift_right r (by omega)]
  -- a count of -32 has its own branch
  by_cases hall : n = 31
  · subst hall
    have hform : ashShift (r.signExtend 32) (64 - (31 + 1)) =
        ⟨if r.msb then -1 else 0, false, r.msb⟩ := by
      rw [← hmsb]
      rfl
    rw [hform]
    refine ⟨?_, (right_changed r 32).symm, ?_⟩
    · rw [right_value]
      exact sign_fill (by decide) r
    · rw [right_out, BitVec.getLsbD_sshiftRight, if_neg (show ¬31 + 0 < 16 by decide)]
      simp
  · have hform : ashShift (r.signExtend 32) (64 - (n + 1)) =
        shiftRight (r.signExtend 32) (64 - (n + 1)) := by
      rw [ashShift, if_neg h0, if_neg hleft, if_neg hlost, if_neg (by omega)]
    rw [hform, shiftRight_eq _ (by omega) (by omega)]
    refine ⟨?_, (right_changed r _).symm, ?_⟩
    · rw [right_value]
      exact setWidth_sshiftRight r (by decide) _
    · rw [right_out, ← setWidth_sshiftRight r (show 16 ≤ 32 by decide), BitVec.getLsbD_setWidth]
      simp

end

/-! ## Decoding -/

/-- The top seven bits of an opcode. -/
theorem opcode_eq {word k : Word} (h : word &&& 0o177000 = k) : word.toNat / 512 = k.toNat / 512 := by
  have hbits : word.extractLsb' 9 7 = k.extractLsb' 9 7 := by
    rw [← h, BitVec.extractLsb'_and]
    exact (BitVec.and_allOnes).symm
  have hn := congrArg BitVec.toNat hbits
  rw [BitVec.extractLsb'_toNat, BitVec.extractLsb'_toNat, Nat.shiftRight_eq_div_pow,
    Nat.shiftRight_eq_div_pow] at hn
  have hw := word.isLt
  have hk := k.isLt
  omega

/-- The words 07xxxx are none of the instructions decoded before the EIS group. -/
theorem execute_eis (word : Word) (h : word.toNat / 4096 = 7) :
    execute word = decodeMisc word ∧ trySingleOp word = none ∧ isBranch (highByte word) = false ∧
      ∀ k : Word, k ≤ 0o000277 → ¬word ≤ k := by
  have htop : word.extractLsb' 12 4 = 7#4 := by
    apply BitVec.eq_of_toNat_eq
    rw [BitVec.extractLsb'_toNat, Nat.shiftRight_eq_div_pow]
    show word.toNat / 2 ^ 12 % 2 ^ 4 = 7
    omega
  have hbase : (word.extractLsb' 6 9 : BitVec 9).toNat = word.toNat / 64 % 512 := by
    rw [BitVec.extractLsb'_toNat, Nat.shiftRight_eq_div_pow]
  have hne (k : BitVec 9) (hk : k.toNat < 448) : word.extractLsb' 6 9 ≠ k := by
    intro he
    rw [he] at hbase
    omega
  -- the nine bits are above every single-operand code
  have hhigh : ¬word.extractLsb' 6 9 ≤ 0o063#9 := by
    rw [BitVec.le_def, hbase]
    show ¬word.toNat / 64 % 512 ≤ 51
    omega
  have hbyte : (highByte word).toNat = word.toNat / 256 % 256 := by
    unfold highByte
    rw [BitVec.extractLsb'_toNat, Nat.shiftRight_eq_div_pow]
  refine ⟨by simp [execute, htop], ?_, ?_, ?_⟩
  · unfold trySingleOp
    dsimp only
    rw [if_neg fun hb => hne _ (by decide) hb.1, if_neg fun hb => hne _ (by decide) hb.1,
      if_neg (hne _ (by decide)), if_neg (hne _ (by decide)), if_neg fun hb => hhigh hb.2,
      if_neg fun hb => hne _ (by decide) hb.2]
  · refine decide_eq_false ?_
    simp only [BitVec.le_def, hbyte, not_or, not_and]
    show (1 ≤ _ → ¬_ ≤ 7) ∧ (128 ≤ _ → ¬_ ≤ 135)
    omega
  · intro k hk hw
    have hk' : k.toNat ≤ 191 := hk
    have hw' : word.toNat ≤ k.toNat := hw
    omega

section
variable {word : Word}

theorem execute_ash (h : word &&& 0o177000 = 0o072000) :
    execute word = orReserved (·.hasEis) (opAsh word) := by
  have hop := opcode_eq h
  have hnat : (0o072000 : Word).toNat / 512 = 58 := rfl
  obtain ⟨hmisc, htry, hbranch, hle⟩ := execute_eis word (by omega)
  rw [hmisc, decodeMisc, htry]
  dsimp only
  rw [hbranch, if_neg Bool.false_ne_true, if_neg fun hw => hle _ (by decide) hw.2,
    if_neg fun hw => hle _ (by decide) hw.2, if_neg fun hw => hle _ (by decide) hw.2,
    if_neg fun hw => hle _ (by decide) hw.2, h, if_neg (by decide), if_neg (by decide),
    if_neg (by decide), if_pos rfl]

theorem execute_ashc (h : word &&& 0o177000 = 0o073000) :
    execute word = orReserved (·.hasEis) (opAshc word) := by
  have hop := opcode_eq h
  have hnat : (0o073000 : Word).toNat / 512 = 59 := rfl
  obtain ⟨hmisc, htry, hbranch, hle⟩ := execute_eis word (by omega)
  rw [hmisc, decodeMisc, htry]
  dsimp only
  rw [hbranch, if_neg Bool.false_ne_true, if_neg fun hw => hle _ (by decide) hw.2,
    if_neg fun hw => hle _ (by decide) hw.2, if_neg fun hw => hle _ (by decide) hw.2,
    if_neg fun hw => hle _ (by decide) hw.2, h, if_neg (by decide), if_neg (by decide),
    if_neg (by decide), if_neg (by decide), if_pos rfl]

end

theorem orReserved_apply {cap : Config → Bool} {act : M Unit} {m : Machine}
    (h : cap m.cpu.cfg = true) : orReserved cap act m = act m := by
  have hrun : orReserved cap act m = (if cap m.cpu.cfg then act else doTrap vecReserved) m := rfl
  rw [hrun, h]
  rfl

/-! ## Instructions -/

/-- The codes of a shift: N and Z of the whole result, V for a change of sign, C the last bit out. -/
def shiftCodes {w : ℕ} (t : Shifted w) : Codes := ⟨t.value.msb, t.value = 0, t.changed, t.out⟩

/-- A state whose codes follow a result of `w` bits. -/
theorem codes_setNzvc {s : Cpu} (h : s.ctl.ccFrozen = false) (n z v c : Bool) :
    codes (setNzvc s n z v c) = ⟨n, z, v, c⟩ := by
  rw [setNzvc, codes_setC (by simp [h]), codes_setV (by simp [h]), codes_setZ (by simp [h]),
    codes_setN h]

theorem codes_setVFromNc {s : Cpu} (h : s.ctl.ccFrozen = false) :
    codes (setVFromNc s) = { codes s with v := (codes s).n != (codes s).c } := codes_setV h

/-- The codes of a word, N and Z. -/
theorem codes_word {s : Cpu} (h : s.ctl.ccFrozen = false) (x : Word) :
    codes (setNz s x false) = { codes s with n := x.msb, z := x = 0 } := by
  rw [codes_setNz h, ← signBit_eq, BitVec.msb_eq_getLsbD_last]
  apply Codes.ext <;> dsimp only
  · rfl
  · rw [decide_eq_decide, unsignedValue, BitVec.toNat_setWidth]
    constructor
    · intro hx
      exact BitVec.eq_of_toNat_eq ((Nat.mod_eq_of_lt x.isLt).symm.trans hx)
    · rintro rfl
      rfl

section
variable {s : Cpu} {word value : Word} {op : Operand} {m m₁ m₂ m' : Machine}

/-- Reading the shift count leaves the codes free. -/
theorem Executed.count_free (h : Executed s word m m')
    (hop : decodeOperand (dstSpec word) false m = .ok op m₁)
    (hvalue : readOperand op false m₁ = .ok value m₂) :
    m₂.cpu.ctl.ccFrozen = false ∧ m₂.cpu.cfg = s.cfg := by
  have hk₁ := (status_operand (operand_decodeOperand (dstSpec word) false)).of_ok hop
  have hk₂ := (status_operand (operand_readOperand op false)).of_ok hvalue
  obtain ⟨-, hfrozen, hcfg⟩ := h.start
  exact ⟨by rw [hk₂.frozen, hk₁.frozen, hfrozen], by rw [hk₂.cfg, hk₁.cfg, hcfg]⟩

/-- What ASH makes of the register and the status, the shift count read. -/
def ashCpu (s : Cpu) (reg : Field3) (value : Word) : Cpu :=
  let sh := (value &&& 0o77).toNat
  let out := ashShift ((s.regs.r reg).signExtend 32) sh
  let s := { s with
    acct.eisExtraNs := shiftExtraNs sh
    regs.r := Function.update s.regs.r reg (out.dst.setWidth 16) }
  setFlag (setFlag (setNz s (out.dst.setWidth 16) false) pswV out.v) pswC out.c

theorem opAsh_apply (hop : decodeOperand (dstSpec word) false m = .ok op m₁)
    (hvalue : readOperand op false m₁ = .ok value m₂) :
    opAsh word m = .ok () { m₂ with cpu := ashCpu m₂.cpu (regField word) value } := by
  rw [opAsh, bind_ok hop, bind_ok hvalue]
  rfl

theorem opAsh_steps (hfree : m₂.cpu.ctl.ccFrozen = false)
    (hop : decodeOperand (dstSpec word) false m = .ok op m₁)
    (hvalue : readOperand op false m₁ = .ok value m₂) (hrun : opAsh word m = .ok () m') :
    let t := shift (m₂.cpu.regs.r (regField word)) (shiftPlaces value)
    m'.cpu.regs.r (regField word) = t.value ∧ codes m'.cpu = shiftCodes t := by
  intro t
  let reg := regField word
  let sh := (value &&& 0o77).toNat
  let out := ashShift ((m₂.cpu.regs.r reg).signExtend 32) sh
  let u : Cpu := { m₂.cpu with
    acct := { m₂.cpu.acct with eisExtraNs := shiftExtraNs sh }
    regs := { m₂.cpu.regs with
      r := Function.update m₂.cpu.regs.r reg (out.dst.setWidth 16) } }
  have hsh : sh < 64 := shiftCode_lt value
  have hout : ShiftIs out t := by
    have h := ashShift_steps (m₂.cpu.regs.r reg) sh hsh
    rwa [← shiftPlaces_eq] at h
  have hcpu : m'.cpu = setFlag (setFlag (setNz u (out.dst.setWidth 16) false) pswV out.v) pswC
      out.c := by
    rw [opAsh_apply hop hvalue] at hrun
    cases hrun
    rfl
  have hu : u.ctl.ccFrozen = false := hfree
  rw [hcpu]
  constructor
  · rw [setFlag_r, setFlag_r, setNz, setFlag_r, setFlag_r]
    show Function.update m₂.cpu.regs.r reg (out.dst.setWidth 16) reg = _
    rw [Function.update_self, hout.dst]
  · rw [codes_setC (by simp [hu]), codes_setV (by simp [hu]), codes_word hu, hout.dst, hout.v,
      hout.c]
    rfl

theorem halves_append (x : BitVec 32) :
    ((x >>> 16).setWidth 16 : Word) ++ (x.setWidth 16 : Word) = x := by
  apply BitVec.eq_of_getLsbD_eq
  intro i hi
  rw [BitVec.getLsbD_append]
  by_cases hlow : i < 16
  · simp [hlow]
  · simp [hlow, show i - 16 < 16 by omega, show 16 + (i - 16) = i by omega]

theorem append_eq_zero (hi lo : Word) : hi ||| lo = 0 ↔ hi ++ lo = (0 : BitVec 32) := by
  have hzero : (0 : BitVec 32) = (0 : Word) ++ (0 : Word) := rfl
  constructor
  · intro h
    obtain ⟨rfl, rfl⟩ := BitVec.or_eq_zero_iff.1 h
    rfl
  · intro h
    rw [hzero] at h
    have hlo : lo = 0 := by
      have := congrArg (BitVec.setWidth 16) h
      rwa [BitVec.setWidth_append_eq_right, BitVec.setWidth_append_eq_right] at this
    subst hlo
    rw [(BitVec.append_left_inj _).1 h]
    rfl

/-- The halves of a pair after both are stored. -/
theorem update_pair (r : Field3 → Word) {reg : Field3} (heven : reg.getLsbD 0 = false)
    (hi lo : Word) :
    let r' := Function.update (Function.update r reg hi) (pairReg reg) lo
    r' reg = hi ∧ r' (pairReg reg) = lo := by
  have hne : reg ≠ pairReg reg := by
    revert heven
    revert reg
    decide
  dsimp only
  rw [Function.update_self, Function.update_of_ne hne, Function.update_self]
  exact ⟨rfl, rfl⟩

/-- What ASHC makes of the registers and the status, the shift count read. -/
def ashcCpu (s : Cpu) (reg : Field3) (value : Word) : Cpu :=
  let sh := (value &&& 0o77).toNat
  let out := ashcShift (s.regs.r reg ++ s.regs.r (pairReg reg)) sh
  let hi : Word := (out.dst >>> 16).setWidth 16
  let lo : Word := out.dst.setWidth 16
  let s := { s with
    acct.eisExtraNs := shiftExtraNs sh
    regs.r := Function.update (Function.update s.regs.r reg hi) (pairReg reg) lo }
  setNzvc s (hi &&& 0o100000 ≠ 0) (hi ||| lo = 0) out.v out.c

theorem opAshc_apply (hop : decodeOperand (dstSpec word) false m = .ok op m₁)
    (hvalue : readOperand op false m₁ = .ok value m₂) :
    opAshc word m = .ok () { m₂ with cpu := ashcCpu m₂.cpu (regField word) value } := by
  rw [opAshc, bind_ok hop, bind_ok hvalue]
  rfl

theorem opAshc_steps (hfree : m₂.cpu.ctl.ccFrozen = false)
    (heven : (regField word).getLsbD 0 = false)
    (hop : decodeOperand (dstSpec word) false m = .ok op m₁)
    (hvalue : readOperand op false m₁ = .ok value m₂) (hrun : opAshc word m = .ok () m') :
    let pair (r : Field3 → Word) : BitVec 32 := r (regField word) ++ r (pairReg (regField word))
    let t := shift (pair m₂.cpu.regs.r) (shiftPlaces value)
    pair m'.cpu.regs.r = t.value ∧ codes m'.cpu = shiftCodes t := by
  intro pair t
  let reg := regField word
  let sh := (value &&& 0o77).toNat
  let out := ashcShift (pair m₂.cpu.regs.r) sh
  let hi : Word := (out.dst >>> 16).setWidth 16
  let lo : Word := out.dst.setWidth 16
  let u : Cpu := { m₂.cpu with
    acct := { m₂.cpu.acct with eisExtraNs := shiftExtraNs sh }
    regs := { m₂.cpu.regs with
      r := Function.update (Function.update m₂.cpu.regs.r reg hi) (pairReg reg) lo } }
  have hout : ShiftIs out t := by
    have h := ashcShift_steps (pair m₂.cpu.regs.r) sh (shiftCode_lt value)
    rwa [← shiftPlaces_eq] at h
  have hcpu : m'.cpu = setNzvc u (hi &&& 0o100000 ≠ 0) (hi ||| lo = 0) out.v out.c := by
    rw [opAshc_apply hop hvalue] at hrun
    cases hrun
    rfl
  have hu : u.ctl.ccFrozen = false := hfree
  have hdst : out.dst = t.value := by
    rw [← hout.dst]
    exact (BitVec.setWidth_eq _).symm
  have hjoin : hi ++ lo = t.value := by
    rw [← hdst]
    exact halves_append out.dst
  rw [hcpu]
  constructor
  · have hr : (setNzvc u (hi &&& 0o100000 ≠ 0) (hi ||| lo = 0) out.v out.c).regs.r = u.regs.r := by
      simp [setNzvc]
    obtain ⟨hhi, hlo⟩ := update_pair m₂.cpu.regs.r heven hi lo
    rw [hr]
    show u.regs.r reg ++ u.regs.r (pairReg reg) = t.value
    rw [show u.regs.r reg = hi from hhi, show u.regs.r (pairReg reg) = lo from hlo, hjoin]
  · rw [codes_setNzvc hu, hout.v, hout.c]
    apply Codes.ext <;> dsimp only [shiftCodes]
    · have hsign := and_msb_ne_zero false hi
      rw [← hjoin, BitVec.msb_append, if_neg (show ¬16 = 0 by decide)]
      exact hsign.trans (BitVec.msb_eq_getLsbD_last hi).symm
    · rw [decide_eq_decide, ← hjoin]
      exact append_eq_zero hi lo

end

/-- ASH and ASHC leave what as many single places leave: the whole result and its N and Z, the last
bit out in C, and in V whether any place to the left changed the sign. -/
theorem shifts_eq_single_places {s : Cpu} {word value : Word} {op : Operand} {m m₁ m₂ m' : Machine}
    (h : Executed s word m m') (heis : s.cfg.hasEis = true)
    (hop : decodeOperand (dstSpec word) false m = .ok op m₁)
    (hvalue : readOperand op false m₁ = .ok value m₂) :
    let pair (r : Field3 → Word) : BitVec 32 := r (regField word) ++ r (regField word + 1)
    (word &&& 0o177000 = 0o072000 →
      let t := shift (m₂.cpu.regs.r (regField word)) (shiftPlaces value)
      (cpuStep s).cpu.regs.r (regField word) = t.value ∧ codes (cpuStep s).cpu = shiftCodes t) ∧
    (word &&& 0o177000 = 0o073000 → (regField word).getLsbD 0 = false →
      let t := shift (pair m₂.cpu.regs.r) (shiftPlaces value)
      pair (cpuStep s).cpu.regs.r = t.value ∧ codes (cpuStep s).cpu = shiftCodes t) := by
  intro pair
  obtain ⟨hfree, -⟩ := h.count_free hop hvalue
  have hcap : m.cpu.cfg.hasEis = true := by rw [h.start.2.2, heis]
  have hcodes : codes (cpuStep s).cpu = codes m'.cpu := codes_congr h.regs
  constructor
  · intro hword t
    have hrun := h.executed
    rw [execute_ash hword, orReserved_apply hcap] at hrun
    rw [hcodes, h.regs]
    exact opAsh_steps hfree hop hvalue hrun
  · intro hword heven t
    have hrun := h.executed
    rw [execute_ashc hword, orReserved_apply hcap] at hrun
    have hpair : pairReg (regField word) = regField word + 1 := by
      revert heven
      generalize regField word = reg
      revert reg
      decide
    have hsteps := opAshc_steps hfree heven hop hvalue hrun
    rw [hpair] at hsteps
    rw [hcodes, h.regs]
    exact hsteps

theorem lowest_shifted :
    ((cpuStep (twoWords 0o072001)).cpu.regs.r 0 = (shift (0o100000 : Word) 1).value ∧
      codes (cpuStep (twoWords 0o072001)).cpu = shiftCodes (shift (0o100000 : Word) 1)) ∧
    ((cpuStep (twoWords 0o073001)).cpu.regs.r 0 ++ (cpuStep (twoWords 0o073001)).cpu.regs.r 1 =
        (shift (0o20000000001 : BitVec 32) 1).value ∧
      codes (cpuStep (twoWords 0o073001)).cpu =
        shiftCodes (shift (0o20000000001 : BitVec 32) 1)) := by
  constructor
  · exact (@shifts_eq_single_places (twoWords 0o072001) 0o072001 1 (.reg 1) _ _ _ _
      ⟨rfl, rfl, rfl, rfl, rfl⟩ rfl rfl rfl).1 rfl
  · exact (@shifts_eq_single_places (twoWords 0o073001) 0o073001 1 (.reg 1) _ _ _ _
      ⟨rfl, rfl, rfl, rfl, rfl⟩ rfl rfl rfl).2 rfl rfl

end Pdp11
