import Pdp11.Shifts

namespace Pdp11

open FaultState

/-! A store to the PSW's own address decides the PSW. -/

/-! ## The storing instructions -/

/-- The storing instructions of one operand. -/
inductive SingleStore
  | clr | com | inc | dec | neg | adc | sbc | ror | rol | asr | asl | swab | sxt
  deriving DecidableEq, Repr

def SingleStore.base : SingleStore → BitVec 9
  | .clr => 0o050
  | .com => 0o051
  | .inc => 0o052
  | .dec => 0o053
  | .neg => 0o054
  | .adc => 0o055
  | .sbc => 0o056
  | .ror => 0o060
  | .rol => 0o061
  | .asr => 0o062
  | .asl => 0o063
  | .swab => 0o003
  | .sxt => 0o067

/-- The storing instructions. -/
inductive StoreOp
  | mov | bic | bis | add | sub | xor
  | single (op : SingleStore)
  deriving DecidableEq, Repr

/-- `word` is the instruction, in its byte or its word form if it has both. -/
def StoreOp.Encodes (op : StoreOp) (word : Word) (bytemode : Bool) : Prop :=
  match op with
  | .mov => word.extractLsb' 12 4 = if bytemode then 0o11 else 0o01
  | .bic => word.extractLsb' 12 4 = if bytemode then 0o14 else 0o04
  | .bis => word.extractLsb' 12 4 = if bytemode then 0o15 else 0o05
  | .add => word.extractLsb' 12 4 = 0o06 ∧ bytemode = false
  | .sub => word.extractLsb' 12 4 = 0o16 ∧ bytemode = false
  | .xor => word &&& 0o177000 = 0o074000 ∧ bytemode = false
  | .single op => word.extractLsb' 6 9 = op.base ∧ word.getLsbD 15 = bytemode ∧
      (op = .swab ∨ op = .sxt → bytemode = false)

/-- XOR and SXT are reserved on some models. -/
def StoreOp.Available (op : StoreOp) (cfg : Config) : Prop :=
  op = .xor ∨ op = .single .sxt → cfg.hasSxs = true

/-- The destination, and the values the result comes from. -/
def StoreOp.operands (op : StoreOp) (word : Word) (bytemode : Bool) : M DoubleOp :=
  match op with
  | .mov => do
    let src ← decodeOperand (srcSpec word) bytemode
    let s ← readOperand src bytemode
    let dst ← decodeOperand (dstSpec word) bytemode
    pure { dst, s, d := 0 }
  | .bic | .bis | .add | .sub => decodeDouble word bytemode
  | .xor => do
    let dst ← decodeOperand (dstSpec word) false
    let d ← readOperand dst false
    let s ← getReg (regField word)
    pure { dst, s, d }
  | .single _ => do
    let dst ← decodeOperand (dstSpec word) bytemode
    let d ← readOperand dst bytemode
    pure { dst, s := 0, d }

/-- The result, and the codes that are set before it is stored. -/
def StoreOp.compute (op : StoreOp) (bytemode : Bool) (s : Cpu) (o : DoubleOp) : Word × Cpu :=
  match op with
  | .mov => (o.s, s)
  | .bic => (o.d &&& ~~~o.s, s)
  | .bis => (o.d ||| o.s, s)
  | .add => aluAdd s o.d o.s false
  | .sub => aluSub s o.d o.s false
  | .xor => (o.d ^^^ o.s, s)
  | .single op =>
    let out := singleOpAlu s op.base o.d bytemode
    (out.1, out.2.2)

/-- The codes that are set after the result is stored. -/
def StoreOp.after (op : StoreOp) (bytemode : Bool) (result : Word) (s : Cpu) : Cpu :=
  match op with
  | .mov | .bic | .bis | .xor => setNzV0 s result bytemode
  | .add | .sub | .single _ => s

/-- MOVB to a register extends the sign; elsewhere all store alike. -/
def StoreOp.store (op : StoreOp) (dst : Operand) (bytemode : Bool) (result : Word) : M Unit :=
  match op with
  | .mov => writeMov dst bytemode result
  | _ => writeOperand dst bytemode result

/-! ## Decoding -/

theorem execute_mov {word : Word} {bytemode : Bool}
    (h : word.extractLsb' 12 4 = if bytemode then 0o11 else 0o01) :
    execute word = opMov word bytemode := by
  cases bytemode <;> simp only [if_true, Bool.false_eq_true, if_false] at h <;> simp [execute, h]

theorem execute_bic {word : Word} {bytemode : Bool}
    (h : word.extractLsb' 12 4 = if bytemode then 0o14 else 0o04) :
    execute word = opBic word bytemode := by
  cases bytemode <;> simp only [if_true, Bool.false_eq_true, if_false] at h <;> simp [execute, h]

theorem execute_bis {word : Word} {bytemode : Bool}
    (h : word.extractLsb' 12 4 = if bytemode then 0o15 else 0o05) :
    execute word = opBis word bytemode := by
  cases bytemode <;> simp only [if_true, Bool.false_eq_true, if_false] at h <;> simp [execute, h]

theorem execute_xor {word : Word} (h : word &&& 0o177000 = 0o074000) :
    execute word = orReserved (·.hasSxs) (opXor word) := by
  have hop := opcode_eq h
  have hnat : (0o074000 : Word).toNat / 512 = 60 := rfl
  obtain ⟨hmisc, htry, hbranch, hle⟩ := execute_eis word (by omega)
  rw [hmisc, decodeMisc, htry]
  dsimp only
  rw [hbranch, if_neg Bool.false_ne_true, if_neg fun hw => hle _ (by decide) hw.2,
    if_neg fun hw => hle _ (by decide) hw.2, if_neg fun hw => hle _ (by decide) hw.2,
    if_neg fun hw => hle _ (by decide) hw.2, h, if_neg (by decide), if_neg (by decide),
    if_neg (by decide), if_neg (by decide), if_neg (by decide), if_pos rfl]

theorem execute_singleStore {op : SingleStore} {word : Word} {bytemode : Bool} {m : Machine}
    (h : StoreOp.Encodes (.single op) word bytemode)
    (havail : StoreOp.Available (.single op) m.cpu.cfg) :
    execute word m = singleOp word op.base bytemode m := by
  obtain ⟨hbase, hbyte, hword⟩ := h
  have hregular (hlo : 0o050 ≤ op.base) (hhi : op.base ≤ 0o063) :
      execute word m = singleOp word op.base bytemode m := by
    rw [execute_single hbase hlo hhi, hbyte]
  cases op
  case swab =>
    obtain rfl := hword (.inl rfl)
    have htry : trySingleOp word = some (singleOp word 0o003 false) := by
      unfold trySingleOp
      dsimp only
      rw [hbase, hbyte, if_pos ⟨rfl, rfl⟩]
    rw [execute_misc hbase (by decide), decodeMisc, htry]
    rfl
  case sxt =>
    obtain rfl := hword (.inr rfl)
    have htry : trySingleOp word = some (orReserved (·.hasSxs) (singleOp word 0o067 false)) := by
      unfold trySingleOp
      dsimp only
      rw [hbase, hbyte, if_neg (by decide), if_neg (by decide), if_neg (by decide),
        if_neg (by decide), if_neg (by decide), if_pos (by decide)]
    rw [execute_misc hbase (by decide), decodeMisc, htry]
    exact orReserved_apply (havail (.inr rfl))
  all_goals exact hregular (by decide) (by decide)

/-! ## Execution -/

/-- A storing instruction that completes: operands, result and first codes, store, last codes. -/
structure StoreRun (op : StoreOp) (word : Word) (bytemode : Bool) (m m' : Machine) (o : DoubleOp)
    (m₁ m₂ : Machine) : Prop where
  operands : op.operands word bytemode m = .ok o m₁
  store : op.store o.dst bytemode (op.compute bytemode m₁.cpu o).1
    { m₁ with cpu := (op.compute bytemode m₁.cpu o).2 } = .ok () m₂
  after : m'.cpu = op.after bytemode (op.compute bytemode m₁.cpu o).1 m₂.cpu

theorem singleOpAlu_stores (op : SingleStore) (s : Cpu) (d : Word) (bytemode : Bool) :
    (singleOpAlu s op.base d bytemode).2.1 = true := by
  cases op <;> rfl

/-- A storing instruction from its operands on. -/
def StoreOp.perform (op : StoreOp) (bytemode : Bool) (o : DoubleOp) : M Unit := do
  let result ← liftCpu fun s => op.compute bytemode s o
  op.store o.dst bytemode result
  modifyCpu (op.after bytemode result)

theorem bind_modifyCpu_self (x : M Unit) : (do
    x
    modifyCpu fun s => s : M Unit) = x := by
  funext m
  rw [bind_apply]
  cases x m <;> rfl

/-- An instruction that sets no codes after its store ends with the store. -/
theorem perform_store (op : StoreOp) (bytemode : Bool) (o : DoubleOp)
    (hafter : ∀ result s, op.after bytemode result s = s) : op.perform bytemode o = (do
      let result ← liftCpu fun s => op.compute bytemode s o
      op.store o.dst bytemode result) := by
  have hself (result : Word) : op.after bytemode result = fun s => s := funext (hafter result)
  unfold StoreOp.perform
  simp only [hself, bind_modifyCpu_self]

theorem singleOp_perform (op : SingleStore) (word : Word) (bytemode : Bool) :
    singleOp word op.base bytemode =
      StoreOp.operands (.single op) word bytemode >>= StoreOp.perform (.single op) bytemode := by
  have hadder : singleOp word op.base bytemode = adderOp word bytemode fun s d =>
      ((singleOpAlu s op.base d bytemode).1, (singleOpAlu s op.base d bytemode).2.2) :=
    singleOp_eq_adderOp (fun s d => by rw [← singleOpAlu_stores op s d bytemode]) word
  rw [hadder]
  simp only [StoreOp.operands, bind_assoc_eq, pure_bind_eq,
    perform_store (.single op) bytemode _ fun _ _ => rfl]
  rfl

/-- Every storing instruction runs alike. -/
theorem execute_perform {op : StoreOp} {word : Word} {bytemode : Bool} {m : Machine}
    (h : op.Encodes word bytemode) (havail : op.Available m.cpu.cfg) :
    execute word m = (op.operands word bytemode >>= op.perform bytemode) m := by
  cases op with
  | mov =>
    rw [execute_mov h]
    simp only [StoreOp.operands, bind_assoc_eq, pure_bind_eq]
    rfl
  | bic =>
    rw [execute_bic h]
    rfl
  | bis =>
    rw [execute_bis h]
    rfl
  -- ADD and SUB set the codes before the store
  | add =>
    obtain ⟨hword, rfl⟩ := h
    have hstore (o : DoubleOp) := perform_store .add false o fun _ _ => rfl
    have hrun : opAdd word = decodeDouble word false >>= StoreOp.add.perform false := by
      rw [funext hstore]
      rfl
    rw [execute_add hword, hrun]
    rfl
  | sub =>
    obtain ⟨hword, rfl⟩ := h
    have hstore (o : DoubleOp) := perform_store .sub false o fun _ _ => rfl
    have hrun : opSub word = decodeDouble word false >>= StoreOp.sub.perform false := by
      rw [funext hstore]
      rfl
    rw [execute_sub hword, hrun]
    rfl
  | xor =>
    obtain ⟨hword, rfl⟩ := h
    rw [execute_xor hword, orReserved_apply (havail (.inl rfl))]
    simp only [StoreOp.operands, bind_assoc_eq, pure_bind_eq]
    rfl
  | single op =>
    rw [execute_singleStore h havail, singleOp_perform]

theorem execute_store {op : StoreOp} {word : Word} {bytemode : Bool} {m m' : Machine}
    (h : op.Encodes word bytemode) (havail : op.Available m.cpu.cfg)
    (hrun : execute word m = .ok () m') :
    ∃ o m₁ m₂, StoreRun op word bytemode m m' o m₁ m₂ := by
  rw [execute_perform h havail] at hrun
  obtain ⟨o, m1, ho, hrun⟩ := bind_eq_ok.1 hrun
  obtain ⟨result, mc, hcompute, hrun⟩ := bind_eq_ok.1 hrun
  cases hcompute
  obtain ⟨⟨⟩, m2, hstore, hrun⟩ := bind_eq_ok.1 hrun
  cases hrun
  exact ⟨o, m1, m2, ho, hstore, rfl⟩

theorem operand_operands (op : StoreOp) (word : Word) (bytemode : Bool) :
    OperandBuilt (op.operands word bytemode) := by
  cases op with
  | mov => exact (operand_decodeOperand _ _).bind fun _ => (operand_readOperand _ _).bind fun _ =>
      (operand_decodeOperand _ _).bind fun _ => .pure _
  | xor => exact (operand_decodeOperand _ _).bind fun _ => (operand_readOperand _ _).bind fun _ =>
      (operand_getReg _).bind fun _ => .pure _
  | single op => exact (operand_decodeOperand _ _).bind fun _ =>
      (operand_readOperand _ _).bind fun _ => .pure _
  | _ => exact operand_decodeDouble word bytemode

theorem compute_codes (op : StoreOp) (bytemode : Bool) (s : Cpu) (o : DoubleOp) :
    CodesOnly s (op.compute bytemode s o).2 := by
  cases op with
  | add => exact codesOnly_aluAdd s o.d o.s false
  | sub => exact codesOnly_aluSub s o.d o.s false
  | single op => exact codesOnly_singleOpAlu s op.base o.d bytemode
  | _ => exact .refl s

theorem CodesOnly.mode {s t : Cpu} (h : CodesOnly s t) : t.mode = s.mode := by
  obtain ⟨psw, rfl, hpsw⟩ := h
  exact BitMask.extractLsb'_eq hpsw 14 2 (by decide)

/-! ## The store -/

/-- The PSW after a store of `value` to its address. -/
def explicitPsw (s : Cpu) (value : Word) : Word :=
  (if s.cfg.hasExpt then value else (value &&& ~~~pswT) ||| (s.regs.psw &&& pswT)) &&& s.cfg.pswMask

/-- An explicit store leaves its PSW, and the codes frozen. -/
structure PswHolds (s : Cpu) (value : Word) (t : Cpu) : Prop where
  psw : t.regs.psw = explicitPsw s value
  frozen : t.ctl.ccFrozen = true

theorem pswWrite_holds (s : Cpu) (value : Word) : PswHolds s value (pswWrite s value) := ⟨rfl, rfl⟩

theorem isUbm_psw (s : Cpu) : isUbm s iopagePsw = false := by
  simp [isUbm]

theorem ioWriteReg_iopagePsw (s : Cpu) (value : Word) :
    ioWriteReg s iopagePsw value = some (pswWrite s value) := by
  unfold ioWriteReg
  rw [isUbm_psw, if_neg Bool.false_ne_true, if_pos rfl]

theorem ioReadReg_iopagePsw (s : Cpu) : ioReadReg s iopagePsw = some (s.regs.psw, s) := by
  unfold ioReadReg
  rw [isUbm_psw, if_neg Bool.false_ne_true, if_pos rfl]

theorem ioWrite_iopagePsw (m : Machine) (value : Word) : ioWrite iopagePsw value m =
    .ok () ⟨pswWrite m.cpu value, m.events ++ [.ioWrite iopagePsw value]⟩ := by
  rw [ioWrite_apply, ioWriteReg_iopagePsw]

section
variable {m m' : Machine} {va : Word}

/-- A page flag is no part of the PSW. -/
theorem explicitPsw_markRef (s : Cpu) (value : Word) (isWrite : Bool) (mode : Mode) (dspace : Bool) :
    explicitPsw (markRef va isWrite mode dspace s) value = explicitPsw s value := by
  rw [markRef_rest]
  rfl

theorem cpuWriteWord_psw {value : Word} (hpa : refPhysical m.cpu va m.cpu.mode true = 0o17777776)
    (h : cpuWriteWord va value m = .ok () m') : PswHolds m.cpu value m'.cpu := by
  have hmode : cpuWriteWord va value m = cpuWriteWordMode va m.cpu.mode true value m := rfl
  rw [hmode, cpuWriteWordMode_apply] at h
  by_cases hr : refused va true m.cpu.mode true m.cpu
  · rw [if_pos hr, refusal] at h
    split at h <;> cases h
  · have hio : isIopage 0o17777776 = true := by decide
    have haddr : (0o17777776 : PhysAddr).setWidth 16 = iopagePsw := rfl
    rw [if_neg hr, hpa, writePhysical, if_pos hio, haddr, ioWrite_iopagePsw] at h
    cases h
    obtain ⟨hpsw, hfrozen⟩ := pswWrite_holds (markRef va true m.cpu.mode true m.cpu) value
    exact ⟨hpsw.trans (explicitPsw_markRef _ _ _ _ _), hfrozen⟩

/-- A byte at the even address goes below the old high byte. -/
theorem cpuWriteByte_psw {value : Byte} (hpa : refPhysical m.cpu va m.cpu.mode true = 0o17777776)
    (h : cpuWriteByte va value m = .ok () m') :
    PswHolds m.cpu ((m.cpu.regs.psw &&& 0o177400) ||| value.setWidth 16) m'.cpu := by
  rw [cpuWriteByte_apply, hpa] at h
  split at h
  · cases h
  · let m1 : Machine := { m with cpu := markRef va true m.cpu.mode true m.cpu }
    have hio : isIopage 0o17777776 = true := by decide
    have hread : ioRead iopagePsw m1 = .ok m1.cpu.regs.psw m1 := by
      rw [ioRead_apply, ioReadReg_iopagePsw]
    have hbyte : ioWriteByte 0o17777776 value m1 = (ioRead iopagePsw >>= fun w =>
        ioWrite iopagePsw ((w &&& 0o177400) ||| value.setWidth 16) : M Unit) m1 := rfl
    rw [writeBytePhysical, if_pos hio, hbyte, bind_ok hread, ioWrite_iopagePsw] at h
    cases h
    have hpsw : m1.cpu.regs.psw = m.cpu.regs.psw := by
      show (markRef va true m.cpu.mode true m.cpu).regs.psw = _
      rw [markRef_rest]
    obtain ⟨hholds, hfrozen⟩ := pswWrite_holds m1.cpu
      ((m1.cpu.regs.psw &&& 0o177400) ||| value.setWidth 16)
    refine ⟨hholds.trans ?_, hfrozen⟩
    rw [hpsw]
    exact explicitPsw_markRef _ _ _ _ _

end

/-- The operand is no register. -/
def Operand.InMemory : Operand → Prop
  | .reg _ => False
  | .imm _ _ => True
  | .mem _ => True

/-- What a store of `result` puts at the PSW's address. -/
def storedPsw (bytemode : Bool) (psw result : Word) : Word :=
  if bytemode then (psw &&& 0o177400) ||| (result &&& 0o377) else result

theorem store_psw {op : StoreOp} {dst : Operand} {bytemode : Bool} {result : Word} {m m' : Machine}
    (hdst : dst.InMemory) (hpa : refPhysical m.cpu dst.addr m.cpu.mode true = 0o17777776)
    (h : op.store dst bytemode result m = .ok () m') :
    PswHolds m.cpu (storedPsw bytemode m.cpu.regs.psw result) m'.cpu := by
  have hwrite : writeOperand dst bytemode result m = .ok () m' := by
    cases dst with
    | reg r => exact hdst.elim
    | _ => cases op <;> exact h
  have hlow : (result.setWidth 8).setWidth 16 = result &&& 0o377 := by
    apply BitVec.eq_of_toNat_eq
    rw [BitVec.toNat_setWidth, BitVec.toNat_setWidth, BitVec.toNat_and,
      show (0o377 : Word).toNat = 2 ^ 8 - 1 from rfl, Nat.and_two_pow_sub_one_eq_mod]
    omega
  cases dst with
  | reg r => exact hdst.elim
  | imm v a =>
    cases bytemode with
    | false => exact cpuWriteWord_psw hpa hwrite
    | true =>
      have hbyte := cpuWriteByte_psw hpa hwrite
      rw [hlow] at hbyte
      exact hbyte
  | mem a =>
    cases bytemode with
    | false => exact cpuWriteWord_psw hpa hwrite
    | true =>
      have hbyte := cpuWriteByte_psw hpa hwrite
      rw [hlow] at hbyte
      exact hbyte

/-! ## The instruction -/

theorem setFlag_of_frozen {s : Cpu} (h : s.ctl.ccFrozen = true) (flag : Word) (on : Bool) :
    setFlag s flag on = s := if_pos h

/-- Frozen codes are not set any more. -/
theorem after_of_frozen {s : Cpu} (h : s.ctl.ccFrozen = true) (op : StoreOp) (bytemode : Bool)
    (result : Word) : op.after bytemode result s = s := by
  have hcodes : setNzV0 s result bytemode = s := by
    rw [setNzV0, setNz, setFlag_of_frozen h, setFlag_of_frozen h, setFlag_of_frozen h]
  cases op <;> first | exact hcodes | rfl

/-- Bits outside the codes are the same before and after the codes are set. -/
theorem CodesOnly.explicit {s t : Cpu} (h : CodesOnly s t) (bytemode : Bool) (result : Word) :
    explicitPsw t (storedPsw bytemode t.regs.psw result) =
      explicitPsw s (storedPsw bytemode s.regs.psw result) := by
  obtain ⟨psw, rfl, hpsw⟩ := h
  have ht : psw &&& pswT = s.regs.psw &&& pswT := BitMask.and_eq hpsw (by decide)
  have hhigh : psw &&& 0o177400 = s.regs.psw &&& 0o177400 := BitMask.and_eq hpsw (by decide)
  unfold explicitPsw storedPsw
  dsimp only
  rw [ht, hhigh]

/-- An explicit store to the PSW wins: after a storing instruction whose destination is the PSW's
address the PSW is the result, a byte merged with the old high byte, with T kept unless the model
has EXPT, and cut to the bits of the model. -/
theorem psw_store_wins {s : Cpu} {word : Word} {bytemode : Bool} {op : StoreOp} {m m' : Machine}
    (h : Executed s word m m') (hop : op.Encodes word bytemode) (havail : op.Available s.cfg) :
    ∃ o m₁, op.operands word bytemode m = .ok o m₁ ∧
      (o.dst.InMemory → refPhysical m₁.cpu o.dst.addr m₁.cpu.mode true = 0o17777776 →
        (cpuStep s).cpu.regs.psw = explicitPsw s
          (storedPsw bytemode s.regs.psw (op.compute bytemode m₁.cpu o).1)) := by
  obtain ⟨hpsw, -, hcfg⟩ := h.start
  obtain ⟨o, m1, m2, hrun⟩ := execute_store hop (by rwa [hcfg]) h.executed
  refine ⟨o, m1, hrun.operands, fun hdst hpa => ?_⟩
  have hk := (status_operand (operand_operands op word bytemode)).of_ok hrun.operands
  have hc := compute_codes op bytemode m1.cpu o
  have hsame : refPhysical (op.compute bytemode m1.cpu o).2 o.dst.addr
      (op.compute bytemode m1.cpu o).2.mode true = 0o17777776 := by
    rw [hc.mode, ← hpa]
    obtain ⟨psw, hs, -⟩ := hc
    rw [hs]
    rfl
  have hholds := store_psw hdst hsame hrun.store
  have hstart : explicitPsw m1.cpu (storedPsw bytemode m1.cpu.regs.psw
      (op.compute bytemode m1.cpu o).1) = explicitPsw s (storedPsw bytemode s.regs.psw
      (op.compute bytemode m1.cpu o).1) := by
    unfold explicitPsw
    rw [hk.psw, hk.cfg, hpsw, hcfg]
  rw [h.regs, hrun.after, after_of_frozen hholds.frozen, hholds.psw]
  exact (hc.explicit bytemode _).trans hstart

/-- MOV #0340, @#177776. -/
def pswStorer : Cpu :=
  { cpuCreate with
    mem := fun i => if i = 0 then 0o012737 else if i = 1 then 0o340 else if i = 2 then 0o177776 else 0 }

theorem pswStorer_stores : (cpuStep pswStorer).cpu.regs.psw = 0o340 := by
  let begun : Machine := ⟨beginInstr (armTrace pswStorer), [.setjmp]⟩
  have hfetch := eq_ok_of_value (r := fetch begun) (a := 0o012737) (by decide +kernel)
  obtain ⟨⟨⟩, hexecute⟩ :=
    eq_ok_final (r := execute 0o012737 (final (fetch begun))) (by decide +kernel)
  obtain ⟨o, m₁, hoperands, hwins⟩ := psw_store_wins
    ⟨rfl, rfl, rfl, hfetch, hexecute⟩ (show StoreOp.mov.Encodes 0o012737 false from rfl)
    (by rintro (h | h) <;> cases h)
  have hvalue : (value? (StoreOp.mov.operands 0o012737 false (final (fetch begun)))).map
      (fun o => (o.dst, o.s)) = some (.mem 0o177776, 0o340) := by decide +kernel
  have hpa : refPhysical (final (StoreOp.mov.operands 0o012737 false (final (fetch begun)))).cpu
      0o177776 (final (StoreOp.mov.operands 0o012737 false (final (fetch begun)))).cpu.mode true =
        0o17777776 := by decide +kernel
  rw [hoperands] at hvalue hpa
  simp only [value?, Option.map_some, Option.some.injEq, Prod.mk.injEq] at hvalue
  obtain ⟨hdst, hs⟩ := hvalue
  have hpa : refPhysical m₁.cpu o.dst.addr m₁.cpu.mode true = 0o17777776 := by
    rw [hdst]
    exact hpa
  have hstored := hwins (by rw [hdst]; trivial) hpa
  rw [hstored]
  show explicitPsw pswStorer o.s = _
  rw [hs]
  rfl

end Pdp11
