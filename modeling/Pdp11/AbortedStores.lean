import Pdp11.NestedFaults
import Pdp11.StatusStore
import Pdp11.UnitEffects

namespace Pdp11

open FaultState

/-! Stores that abort: which condition codes the trap of the abort saves. -/

/-! ## The codes an instruction sets -/

section
variable (bytemode : Bool) (old : Codes)

/-- N and Z of a result. -/
def resultCodes (r : Word) : Codes :=
  { old with n := signedValue bytemode r < 0, z := unsignedValue bytemode r = 0 }

def sumCodes (x y : Word) : Codes :=
  { resultCodes bytemode old (x + y) with
    v := Overflows bytemode (signedValue bytemode x + signedValue bytemode y)
    c := 2 ^ operandWidth bytemode ≤ unsignedValue bytemode x + unsignedValue bytemode y }

def differenceCodes (x y : Word) : Codes :=
  { resultCodes bytemode old (x - y) with
    v := Overflows bytemode (signedValue bytemode x - signedValue bytemode y)
    c := unsignedValue bytemode x < unsignedValue bytemode y }

/-- A shift or rotate with the bit that leaves: V is N against C. -/
def placeCodes (r : Word) (out : Bool) : Codes :=
  { resultCodes bytemode old r with
    v := decide (signedValue bytemode r < 0) != out
    c := out }

def Codes.carry : Word := if old.c then 1 else 0

/-- The codes after an instruction of one operand `d`. -/
def SingleStore.codes (op : SingleStore) (model : Model) (d : Word) : Codes :=
  match op with
  | .clr => ⟨false, true, false, false⟩
  | .com => { resultCodes bytemode old (~~~d) with v := false, c := true }
  | .inc => { sumCodes bytemode old d 1 with c := old.c }
  | .dec => { differenceCodes bytemode old d 1 with c := old.c }
  | .neg => differenceCodes bytemode old 0 d
  | .adc => sumCodes bytemode old d old.carry
  | .sbc => differenceCodes bytemode old d old.carry
  | .ror => placeCodes bytemode old
      (((d &&& widthMask bytemode) >>> 1) ||| if old.c then widthMsb bytemode else 0) (d.getLsbD 0)
  | .rol => placeCodes bytemode old ((d <<< 1) ||| old.carry) (signBit bytemode d)
  | .asr => placeCodes bytemode old
      (((d &&& widthMask bytemode) >>> 1) ||| (d &&& widthMsb bytemode)) (d.getLsbD 0)
  | .asl => placeCodes bytemode old (d <<< 1) (signBit bytemode d)
  | .swab => ⟨d.getLsbD 15, d >>> 8 = 0, old.v && decide (model = .m1120), false⟩
  | .sxt => { old with z := !old.n, v := false }

end

section
variable {s : Cpu} {bytemode : Bool}

theorem signedValue_congr {x y : Word} (h : unsignedValue bytemode x = unsignedValue bytemode y) :
    signedValue bytemode x = signedValue bytemode y := by
  rw [signedValue_eq, signedValue_eq, h]

theorem resultCodes_mask (old : Codes) (r : Word) :
    resultCodes bytemode old (r &&& widthMask bytemode) = resultCodes bytemode old r := by
  unfold resultCodes
  rw [signedValue_congr (masked_value bytemode r), masked_value]

theorem codes_setNz_result (h : s.ctl.ccFrozen = false) (r : Word) :
    codes (setNz s (r &&& widthMask bytemode) bytemode) = resultCodes bytemode (codes s) r := by
  rw [codes_setNz h, ← resultCodes_mask]
  rfl

theorem codes_sum (h : s.ctl.ccFrozen = false) (x y : Word) :
    codes (aluAdd s x y bytemode).2 = sumCodes bytemode (codes s) x y := by
  rw [aluAdd_eq, codes_setC (by simp [h]), codes_setV (by simp [h]), codes_setNz_result h]
  rfl

theorem codes_difference (h : s.ctl.ccFrozen = false) (x y : Word) :
    codes (aluSub s x y bytemode).2 = differenceCodes bytemode (codes s) x y := by
  rw [aluSub_eq, codes_setC (by simp [h]), codes_setV (by simp [h]), codes_setNz_result h]
  rfl

/-- INC and DEC keep C. -/
theorem codes_keepCarry {out : Word × Cpu} (h : out.2.ctl.ccFrozen = false) :
    codes (keepCarry s out).2 = { codes out.2 with c := (codes s).c } := codes_setC h

/-- A shift or rotate: C is set first, then N and Z, then V from both. -/
theorem codes_place (bytemode : Bool) (h : s.ctl.ccFrozen = false) (r : Word) (out : Bool) :
    codes (setVFromNc (setNz (setFlag s pswC out) r bytemode)) =
      placeCodes bytemode (codes s) r out := by
  rw [codes_setVFromNc (by simp [h]), codes_setNz (by simp [h]), codes_setC h]
  rfl

theorem placeCodes_mask (old : Codes) (r : Word) (out : Bool) :
    placeCodes bytemode old (r &&& widthMask bytemode) out = placeCodes bytemode old r out := by
  unfold placeCodes
  rw [resultCodes_mask, signedValue_congr (masked_value bytemode r)]

theorem setFlag_cfg (flag : Word) (on : Bool) : (setFlag s flag on).cfg = s.cfg := by
  unfold setFlag
  split <;> rfl

theorem swab_low (d : Word) : ((d <<< 8) ||| (d >>> 8)) &&& (0o377 : Word) = d >>> 8 := by
  apply BitVec.eq_of_toNat_eq
  have hd := d.isLt
  have hlow : ((d <<< 8).toNat ||| (d >>> 8).toNat) % 2 ^ 8 = (d >>> 8).toNat := by
    rw [Nat.or_mod_two_pow, BitVec.toNat_shiftLeft, BitVec.toNat_ushiftRight, Nat.shiftLeft_eq,
      Nat.shiftRight_eq_div_pow]
    have hleft : d.toNat * 2 ^ 8 % 2 ^ 16 % 2 ^ 8 = 0 := by omega
    rw [hleft, Nat.zero_or]
    omega
  rw [BitVec.toNat_and, BitVec.toNat_or]
  exact (Nat.and_two_pow_sub_one_eq_mod _ 8).trans hlow

theorem swab_sign (d : Word) :
    decide (((d <<< 8) ||| (d >>> 8)) &&& (0o200 : Word) ≠ 0) = d.getLsbD 15 := by
  rw [Bool.eq_iff_iff, decide_eq_true_eq]
  refine (BitMask.and_twoPow_ne_zero (i := 7) (by decide)).trans ?_
  simp

/-- The single-operand instructions set the codes of their operand. -/
theorem codes_singleStore (h : s.ctl.ccFrozen = false) (op : SingleStore) (d : Word) :
    codes (singleOpAlu s op.base d bytemode).2.2 =
      op.codes bytemode (codes s) s.cfg.model d := by
  have hmsb := and_msb_ne_zero bytemode d
  have hlow : decide (d &&& 1 ≠ 0) = d.getLsbD 0 := BitMask.and_one_ne_zero (by decide) d
  cases op with
  | clr =>
    show codes (setFlag (setFlag (setFlag (setFlag s pswN false) pswZ true) pswV false) pswC
      false) = _
    rw [codes_setC (by simp [h]), codes_setV (by simp [h]), codes_setZ (by simp [h]), codes_setN h]
    rfl
  | com =>
    show codes (setFlag (setFlag (setNz s (~~~d &&& widthMask bytemode) bytemode) pswV false) pswC
      true) = _
    rw [codes_setC (by simp [h]), codes_setV (by simp [h]), codes_setNz_result h]
    rfl
  -- INC and DEC are sums that keep C
  | inc =>
    rw [show SingleStore.inc.base = 0o052 from rfl, inc_eq]
    dsimp only
    rw [codes_keepCarry (by rw [aluAdd_eq]; simp [h]), codes_sum h]
    rfl
  | dec =>
    rw [show SingleStore.dec.base = 0o053 from rfl, dec_eq]
    dsimp only
    rw [codes_keepCarry (by rw [aluSub_eq]; simp [h]), codes_difference h]
    rfl
  | neg =>
    rw [show SingleStore.neg.base = 0o054 from rfl, neg_eq]
    exact codes_difference h 0 d
  | adc =>
    rw [show SingleStore.adc.base = 0o055 from rfl, adc_eq]
    exact codes_sum h d (carryIn s)
  | sbc =>
    rw [show SingleStore.sbc.base = 0o056 from rfl, sbc_eq]
    exact codes_difference h d (carryIn s)
  -- the rotates and shifts set V from the N and C they leave
  | ror =>
    have hplace := codes_place bytemode h
      (((d &&& widthMask bytemode) >>> 1) ||| if flagSet s pswC then widthMsb bytemode else 0)
      (d &&& 1 ≠ 0)
    rw [hlow] at hplace
    refine Eq.trans ?_ hplace
    rw [← hlow]
    rfl
  | rol =>
    have hplace := codes_place bytemode h
      (((d <<< 1) ||| carryIn s) &&& widthMask bytemode) (d &&& widthMsb bytemode ≠ 0)
    rw [hmsb, placeCodes_mask] at hplace
    refine Eq.trans ?_ hplace
    rw [← hmsb]
    rfl
  | asr =>
    have hplace := codes_place bytemode h
      (((d &&& widthMask bytemode) >>> 1) ||| (d &&& widthMsb bytemode)) (d &&& 1 ≠ 0)
    rw [hlow] at hplace
    refine Eq.trans ?_ hplace
    rw [← hlow]
    rfl
  | asl =>
    have hplace := codes_place bytemode h
      ((d <<< 1) &&& widthMask bytemode) (d &&& widthMsb bytemode ≠ 0)
    rw [hmsb, placeCodes_mask] at hplace
    refine Eq.trans ?_ hplace
    rw [← hmsb]
    rfl
  | swab =>
    let result : Word := (d <<< 8) ||| (d >>> 8)
    let t := setFlag (setFlag s pswN (result &&& 0o200 ≠ 0)) pswZ (result &&& 0o377 = 0)
    have hfree : t.ctl.ccFrozen = false := by simp [t, h]
    have hnz : codes t = { codes s with n := d.getLsbD 15, z := d >>> 8 = 0 } := by
      have hz : result &&& (0o377 : Word) = d >>> 8 := swab_low d
      have hn : decide (result &&& 0o200 ≠ 0) = d.getLsbD 15 := swab_sign d
      rw [codes_setZ (by simp [h]), codes_setN h, hz, hn]
    have hmodel : t.cfg.model = s.cfg.model := by rw [setFlag_cfg, setFlag_cfg]
    show codes (setFlag (if t.cfg.model ≠ .m1120 then setFlag t pswV false else t) pswC false) = _
    -- the 11/20 leaves V as it was
    by_cases hm : s.cfg.model = .m1120
    · rw [if_neg (by rw [hmodel]; exact not_not.2 hm), codes_setC hfree, hnz]
      simp [SingleStore.codes, hm]
    · rw [if_pos (by rwa [hmodel]), codes_setC (by simp [hfree]), codes_setV hfree, hnz]
      simp [SingleStore.codes, hm]
  | sxt =>
    show codes (setFlag (setFlag s pswZ (!flagSet s pswN)) pswV false) = _
    rw [codes_setV (by simp [h]), codes_setZ h]
    rfl

end

/-! ## A store that faults -/

section
variable {m m' : Machine}

theorem ioWrite_error {a value : Word} (h : ioWrite a value m = .error () m') :
    m'.cpu.regs = m.cpu.regs := by
  rw [ioWrite_apply] at h
  cases hs : ioWriteReg m.cpu a value with
  | none =>
    rw [hs] at h
    cases h
    rfl
  | some t =>
    rw [hs] at h
    cases h

theorem ioWriteByte_error {pa : PhysAddr} {value : Byte} (h : ioWriteByte pa value m = .error () m') :
    m'.cpu.regs = m.cpu.regs := by
  have hread := read_kept (.op (.ioRead (pa.setWidth 16 &&& 0o177776)))
  obtain h | ⟨w, m1, hw, h⟩ := bind_eq_error.1 h
  · rw [(hread.of_error h).rest]
  · refine (ioWrite_error h).trans ?_
    rw [(hread.of_ok hw).rest]

theorem captureRef_regs (va : Word) (isWrite : Bool) (mode : Mode) (dspace : Bool) (s : Cpu) :
    (captureRef va isWrite mode dspace s).regs = s.regs := by
  unfold captureRef captureMmu
  split <;> rfl

theorem markRef_regs (va : Word) (isWrite : Bool) (mode : Mode) (dspace : Bool) (s : Cpu) :
    (markRef va isWrite mode dspace s).regs = s.regs := by
  rw [markRef_rest]

theorem cpuWriteWord_error {va value : Word} (h : cpuWriteWord va value m = .error () m') :
    m'.cpu.regs = m.cpu.regs := by
  have hmode : cpuWriteWord va value m = cpuWriteWordMode va m.cpu.mode true value m := rfl
  rw [hmode, cpuWriteWordMode_apply] at h
  split at h
  · unfold refusal at h
    split at h
    · cases h
      rfl
    · cases h
      exact captureRef_regs _ _ _ _ _
  · refine Eq.trans ?_ (markRef_regs va true m.cpu.mode true m.cpu)
    unfold writePhysical at h
    split at h
    · exact ioWrite_error h
    · split at h
      · cases h
        rfl
      · cases h

theorem cpuWriteByte_error {va : Word} {value : Byte} (h : cpuWriteByte va value m = .error () m') :
    m'.cpu.regs = m.cpu.regs := by
  rw [cpuWriteByte_apply] at h
  split at h
  · cases h
    exact captureRef_regs _ _ _ _ _
  · refine Eq.trans ?_ (markRef_regs va true m.cpu.mode true m.cpu)
    unfold writeBytePhysical at h
    split at h
    · exact ioWriteByte_error h
    · split at h
      · cases h
        rfl
      · cases h

/-- A store that faults leaves the registers and the PSW. -/
theorem writeOperand_error (dst : Operand) {bytemode : Bool} {value : Word}
    (h : writeOperand dst bytemode value m = .error () m') : m'.cpu.regs = m.cpu.regs := by
  cases dst with
  | reg r => cases bytemode <;> cases h
  | imm v a =>
    cases bytemode with
    | false => exact cpuWriteWord_error h
    | true => exact cpuWriteByte_error h
  | mem a =>
    cases bytemode with
    | false => exact cpuWriteWord_error h
    | true => exact cpuWriteByte_error h

theorem store_error {op : StoreOp} {dst : Operand} {bytemode : Bool} {result : Word}
    (h : op.store dst bytemode result m = .error () m') : m'.cpu.regs = m.cpu.regs := by
  cases op with
  | mov =>
    cases dst with
    | reg r => cases bytemode <;> cases h
    | imm v a => exact writeOperand_error (.imm v a) h
    | mem a => exact writeOperand_error (.mem a) h
  | _ => exact writeOperand_error dst h

/-- A storing instruction that faults with its operands read has faulted in its store, after the
codes it sets before that. -/
theorem perform_error {op : StoreOp} {bytemode : Bool} {o : DoubleOp}
    (h : op.perform bytemode o m = .error () m') :
    m'.cpu.regs = (op.compute bytemode m.cpu o).2.regs := by
  obtain h | ⟨result, m1, hcompute, h⟩ := bind_eq_error.1 h
  · cases h
  cases hcompute
  obtain h | ⟨_, m2, -, h⟩ := bind_eq_error.1 h
  · exact store_error h
  · cases h

end

/-! ## The trap of the abort -/

/-- Events are only added. -/
def Appends (m m' : Machine) : Prop := ∃ es, m'.events = m.events ++ es

theorem appends_programs : ProgramRelation Appends := by
  apply DeviceRelation.programs
  refine ⟨⟨?_, fun _ _ _ h => h, fun m a p _ => ⟨[], (List.append_nil _).symm⟩⟩,
    fun m a value s' _ => ⟨[_], rfl⟩⟩
  rintro m m' m'' ⟨es, hes⟩ ⟨es', hes'⟩
  exact ⟨es ++ es', by rw [hes', hes, List.append_assoc]⟩

/-- The PSW that the first trap of a call saves. -/
def savedPsw (es : List Event) : Option Word :=
  es.findSome? fun e => match e with
    | .dispatch _ psw _ => some psw
    | _ => none

theorem savedPsw_of_vectors {es : List Event} (h : vectorsOf es = []) : savedPsw es = none := by
  unfold savedPsw
  rw [List.findSome?_eq_none_iff]
  intro e he
  have hnone := List.filterMap_eq_nil_iff.1 h e he
  cases e with
  | dispatch vector psw pc => cases hnone
  | _ => rfl

theorem Appends.of_logged {m m' : Machine} (h : PswLogged m m') : Appends m m' :=
  h.imp fun _ h => h.1

theorem Appends.savedPsw {m m' : Machine} (h : Appends m m') {psw : Word}
    (hm : savedPsw m.events = some psw) : Pdp11.savedPsw m'.events = some psw := by
  obtain ⟨es, hes⟩ := h
  rw [hes, Pdp11.savedPsw, List.findSome?_append]
  rw [Pdp11.savedPsw] at hm
  rw [hm]
  rfl

theorem doTrap_appends (vector : Word) (m : Machine) :
    Appends (dispatching vector m) (final (doTrap vector m)) := by
  have htrans := appends_programs.trans
  have hread (va : Word) : Respects Appends (cpuReadWordGen va 0 true) :=
    fun m => .of_logged (pswLogged_ref (ofRead (read_cpuReadWordGen va 0 true)) m)
  have hmodify (f : Cpu → Cpu) : Respects Appends (modifyCpu f) :=
    fun m => ⟨[], (List.append_nil _).symm⟩
  have hpush (value : Word) : Respects Appends (pushWord value) :=
    fun m => .of_logged (pswLogged_push value m)
  have htail (newPc : Word) : Respects Appends (trapPush m.cpu.regs.psw (m.cpu.regs.r regPc) newPc) :=
    (hpush _).bind htrans fun _ => (hpush _).bind htrans fun _ m =>
      .of_logged (pswLogged_trapEnd newPc m)
  rw [doTrap_apply]
  exact ((hread _).bind htrans fun newPc => (hread _).bind htrans fun _ =>
    (hmodify _).bind htrans fun _ => (hmodify _).bind htrans fun _ => htail newPc) _

/-- The handler of a fault that is not nested saves the PSW as the fault left it. -/
theorem abortHandler_saves {m : Machine} (hdepth : m.cpu.ctl.abortDepth = 0)
    (hfirst : vectorsOf m.events = []) :
    savedPsw (stepResult (abortHandler 9 m)).events = some m.cpu.regs.psw := by
  have hdispatch : savedPsw (dispatching m.cpu.ctl.abortVec (deeper m)).events =
      some m.cpu.regs.psw := by
    have hnone := savedPsw_of_vectors hfirst
    show savedPsw (m.events ++ [_]) = _
    rw [savedPsw, List.findSome?_append]
    rw [savedPsw] at hnone
    rw [hnone]
    rfl
  have htrap := (doTrap_appends m.cpu.ctl.abortVec (deeper m)).savedPsw hdispatch
  rw [abortHandler_eq 8 m (by omega)]
  cases ht : faultAttempt m with
  | ok a m1 =>
    obtain ⟨m2, hok, rfl⟩ := faultAttempt_ok ht
    rw [Retry.attempt_ok ht]
    rw [hok] at htrap
    exact htrap
  | error e m1 =>
    obtain ⟨-, -, -, hdeep⟩ := faultAttempt_flags ht
    rw [Retry.attempt_error ht, ← abortHandler_eq 7 m1 (by omega)]
    have herror := faultAttempt_error ht
    rw [herror] at htrap
    have hrest := (appends_programs.abortHandler 8 m1).savedPsw htrap
    generalize abortHandler 8 m1 = r at hrest ⊢
    cases r <;> exact hrest

/-! ## Restarting -/

theorem basic_perform (op : StoreOp) (bytemode : Bool) (o : DoubleOp) :
    BasicBuilt (op.perform bytemode o) := by
  refine (basic_liftCodes fun s => compute_codes op bytemode s o).bind fun result => ?_
  have hstore : BasicBuilt (op.store o.dst bytemode result) := by
    cases op with
    | mov => exact basic_writeMov _ _ _
    | _ => exact basic_writeOperand _ _ _
  refine hstore.bind fun _ => ?_
  cases op with
  | add => exact basic_codes fun s => .refl s
  | sub => exact basic_codes fun s => .refl s
  | single op => exact basic_codes fun s => .refl s
  | _ => exact basic_setNzV0 result bytemode

/-- A step whose storing instruction has read its operands, from machine `m` after the fetch, and
then aborts, in machine `m'`: its store has faulted. -/
structure AbortedStore (s : Cpu) (op : StoreOp) (word : Word) (bytemode : Bool) (m : Machine)
    (o : DoubleOp) (m₁ m' : Machine) : Prop where
  running : s.ctl.halted = false
  due : pendingDispatch s = none
  active : s.ctl.waiting = false
  fetched : fetch ⟨beginInstr (armTrace s), [.setjmp]⟩ = .ok word m
  encodes : op.Encodes word bytemode
  available : op.Available s.cfg
  operands : op.operands word bytemode m = .ok o m₁
  aborted : execute word m = .error () m'

/-- The trap of the abort saves the codes from before the instruction, and the instruction executed
again with the saved PSW does what it would have done without the fault, in any machine `t` that has
been repaired for it. -/
structure CodesIntact (s : Cpu) (psw : Word) : Prop where
  codes : codes { s with regs.psw := psw } = codes s
  restarts : ∀ t : Cpu, t.regs.psw = s.regs.psw → cpuStep { t with regs.psw := psw } = cpuStep t

/-- The instruction stores before it sets codes, or sets the codes that are there. -/
def StoreOp.KeepsCodes (op : StoreOp) (bytemode : Bool) (s : Cpu) (o : DoubleOp) : Prop :=
  match op with
  | .mov | .bic | .bis | .xor => True
  | .add => sumCodes false (codes s) o.d o.s = codes s
  | .sub => differenceCodes false (codes s) o.d o.s = codes s
  | .single op => op.codes bytemode (codes s) s.cfg.model o.d = codes s

section
variable {s : Cpu} {op : StoreOp} {word : Word} {bytemode : Bool} {m m₁ m' : Machine} {o : DoubleOp}

/-- A PSW is its codes and the bits above them. -/
theorem psw_of_codes {s t : Cpu} (h : CodesOnly s t) (hc : codes t = codes s) :
    t.regs.psw = s.regs.psw := by
  obtain ⟨psw, rfl, hpsw⟩ := h
  have hcode (i : ℕ) (hi : i < 16) (hflag : flagSet { s with regs.psw := psw } (BitVec.twoPow 16 i) =
      flagSet s (BitVec.twoPow 16 i)) : psw.getLsbD i = s.regs.psw.getLsbD i := by
    rw [flagSet, flagSet, decide_eq_decide] at hflag
    rw [Bool.eq_iff_iff]
    exact (BitMask.and_twoPow_ne_zero hi).symm.trans (hflag.trans (BitMask.and_twoPow_ne_zero hi))
  apply BitVec.eq_of_getLsbD_eq
  intro i hi
  match i with
  | 0 => exact hcode 0 hi (congrArg Codes.c hc)
  | 1 => exact hcode 1 hi (congrArg Codes.v hc)
  | 2 => exact hcode 2 hi (congrArg Codes.z hc)
  | 3 => exact hcode 3 hi (congrArg Codes.n hc)
  | j + 4 =>
    have hmask : ∀ j < 12, (~~~0o17 : Word).getLsbD (j + 4) = true := by decide
    have hbit : (psw &&& ~~~0o17).getLsbD (j + 4) = (s.regs.psw &&& ~~~0o17).getLsbD (j + 4) :=
      congrArg (fun x : Word => x.getLsbD (j + 4)) hpsw
    rw [BitVec.getLsbD_and, BitVec.getLsbD_and, hmask j (by omega), Bool.and_true,
      Bool.and_true] at hbit
    exact hbit

/-- What the store is given, and the codes with it. -/
theorem keepsCodes_iff (hfree : s.ctl.ccFrozen = false) :
    codes (op.compute bytemode s o).2 = codes s ↔ op.KeepsCodes bytemode s o := by
  cases op with
  | add => exact iff_of_eq (congrArg (· = codes s) (codes_sum hfree o.d o.s))
  | sub => exact iff_of_eq (congrArg (· = codes s) (codes_difference hfree o.d o.s))
  | single op => exact iff_of_eq (congrArg (· = codes s) (codes_singleStore hfree op o.d))
  | _ => exact iff_of_true rfl trivial

/-- The abort's trap saves the PSW with the codes the instruction set before its store. -/
theorem AbortedStore.saved (h : AbortedStore s op word bytemode m o m₁ m') :
    savedPsw (cpuStep s).events = some (op.compute bytemode m₁.cpu o).2.regs.psw := by
  have hstart := status_begin s
  have hfetch := (status_operand operand_fetch).of_ok h.fetched
  have hcfg : m.cpu.cfg = s.cfg := hfetch.cfg.trans hstart.2.2
  have hrun : fetchExecute (instrStart s) = .error () m' := by
    have hsplit : fetchExecute (instrStart s) = (do
        let word ← fetch
        execute word
        pure word : M Word) ⟨beginInstr (armTrace s), [.setjmp]⟩ := rfl
    rw [hsplit, bind_ok h.fetched, bind_error h.aborted]
  have hperform : op.perform bytemode o m₁ = .error () m' := by
    have haborted := h.aborted
    rwa [execute_perform h.encodes (by rw [hcfg]; exact h.available), bind_ok h.operands]
      at haborted
  have hvectors : vectorsOf m'.events = [] := by
    have h1 := (Undisturbed.basic basic_fetch).of_ok h.fetched
    have h2 := (Undisturbed.basic (ofOperand (operand_operands op word bytemode))).of_ok h.operands
    have h3 := (Undisturbed.basic (basic_perform op bytemode o)).of_error hperform
    exact h3.vectors.trans (h2.vectors.trans h1.vectors)
  have hdepth : m'.cpu.ctl.abortDepth = 0 :=
    (fetchExecute_error hrun).depth.trans (begin_flags s).2.2.2
  rw [cpuStep_instr h.running h.due h.active, stepInstr_abort hrun,
    abortHandler_saves hdepth hvectors, perform_error hperform]

/-- An aborted store leaves the codes intact exactly when the instruction stores before it sets
codes or sets those that are there. -/
theorem aborted_codes_iff (h : AbortedStore s op word bytemode m o m₁ m') :
    ∃ psw, savedPsw (cpuStep s).events = some psw ∧
      (CodesIntact s psw ↔ op.KeepsCodes bytemode s o) := by
  refine ⟨_, h.saved, ?_⟩
  obtain ⟨hpsw, hfree, hcfg⟩ := status_begin s
  have hfetch := (status_operand operand_fetch).of_ok h.fetched
  have hoperands := (status_operand (operand_operands op word bytemode)).of_ok h.operands
  have hcodes : CodesOnly m₁.cpu (op.compute bytemode m₁.cpu o).2 := compute_codes op bytemode _ o
  have hpsw₁ : m₁.cpu.regs.psw = s.regs.psw := hoperands.psw.trans (hfetch.psw.trans hpsw)
  have hsame : codes m₁.cpu = codes s := by
    unfold codes flagSet
    rw [hpsw₁]
  have hkeeps : op.KeepsCodes bytemode m₁.cpu o ↔ op.KeepsCodes bytemode s o := by
    unfold StoreOp.KeepsCodes
    rw [hsame, hoperands.cfg.trans (hfetch.cfg.trans hcfg)]
  rw [← hkeeps, ← keepsCodes_iff (hoperands.frozen.trans (hfetch.frozen.trans hfree))]
  constructor
  · intro hintact
    exact hintact.codes.trans hsame.symm
  · intro hkept
    have hback : (op.compute bytemode m₁.cpu o).2.regs.psw = s.regs.psw :=
      (psw_of_codes hcodes hkept).trans hpsw₁
    constructor
    · rw [hback]
    · rintro t ht
      rw [hback, ← ht]

end

/-- `BIS R0, @#20000` or `ADC @#20000` at location 0 with C set, on a page that may be read only. -/
def readOnlyPage (word : Word) : Cpu :=
  { cpuCreate with
    regs := { resetRegs with r := fun i => if i = regSp then 0o1000 else 0, psw := pswC }
    mmu :=
      { cpuCreate.mmu with
        mmr0 := 1
        pdr := fun i => if i &&& 7 = 1 then 0o077402 else 0o077406
        par := fun i => (i &&& 7).setWidth 16 * 0o200 }
    mem := fun i => if i = 0 then word else if i = 1 then 0o020000 else if i = 0o10000 then 5 else 0 }

theorem bis_codes_intact : ∃ psw, savedPsw (cpuStep (readOnlyPage 0o050037)).events = some psw ∧
    CodesIntact (readOnlyPage 0o050037) psw := by
  let begun : Machine := ⟨beginInstr (armTrace (readOnlyPage 0o050037)), [.setjmp]⟩
  have hfetch := eq_ok_of_value (r := fetch begun) (a := 0o050037) (by decide +kernel)
  obtain ⟨o, hoperands⟩ := eq_ok_final
    (r := StoreOp.bis.operands 0o050037 false (final (fetch begun))) (by decide +kernel)
  have haborted : execute 0o050037 (final (fetch begun)) =
      .error () (final (execute 0o050037 (final (fetch begun)))) := by
    obtain ⟨⟨⟩, h⟩ := eq_error_final (r := execute 0o050037 (final (fetch begun))) (by decide +kernel)
    exact h
  have haborts : AbortedStore (readOnlyPage 0o050037) .bis 0o050037 false _ o _ _ :=
    ⟨rfl, by decide +kernel, rfl, hfetch, rfl, (by rintro (h | h) <;> cases h), hoperands, haborted⟩
  obtain ⟨psw, hsaved, hintact⟩ := aborted_codes_iff haborts
  exact ⟨psw, hsaved, hintact.2 trivial⟩

/-- ADC takes its carry away before its store faults. -/
theorem adc_carry_lost : ¬∀ s op word bytemode m o m₁ m',
    AbortedStore s op word bytemode m o m₁ m' →
      ∃ psw, savedPsw (cpuStep s).events = some psw ∧ CodesIntact s psw := by
  intro h
  let begun : Machine := ⟨beginInstr (armTrace (readOnlyPage 0o005537)), [.setjmp]⟩
  have hfetch := eq_ok_of_value (r := fetch begun) (a := 0o005537) (by decide +kernel)
  obtain ⟨o, hoperands⟩ := eq_ok_final
    (r := StoreOp.operands (.single .adc) 0o005537 false (final (fetch begun))) (by decide +kernel)
  have haborted : execute 0o005537 (final (fetch begun)) =
      .error () (final (execute 0o005537 (final (fetch begun)))) := by
    obtain ⟨⟨⟩, h⟩ := eq_error_final (r := execute 0o005537 (final (fetch begun))) (by decide +kernel)
    exact h
  obtain ⟨psw, hsaved, hintact⟩ := h (readOnlyPage 0o005537) (.single .adc) 0o005537 false _ o _ _
    ⟨rfl, by decide +kernel, rfl, hfetch, ⟨rfl, rfl, (by rintro (h | h) <;> cases h)⟩,
      (by rintro (h | h) <;> cases h), hoperands, haborted⟩
  have hlost : savedPsw (cpuStep (readOnlyPage 0o005537)).events = some 0 := by decide +kernel
  obtain rfl : psw = 0 := Option.some.inj (hsaved.symm.trans hlost)
  have hcarry := congrArg Codes.c hintact.codes
  exact absurd hcarry (by decide +kernel)

end Pdp11
