import Pdp11.MicroOps

namespace Pdp11

open FaultState

/-! Every instruction is a program over the primitive effects. -/

abbrev OperandBuilt {α : Type} (x : M α) : Prop := Built OperandOp α x

abbrev BasicBuilt {α : Type} (x : M α) : Prop := Built BasicOp α x

abbrev ActiveBuilt {α : Type} (x : M α) : Prop := Built ActiveOp α x

abbrev UserBuilt {α : Type} (x : M α) : Prop := Built UserOp α x

abbrev CoreBuilt {α : Type} (x : M α) : Prop := Built CoreOp α x

/-- Reading operands is part of ordinary programs. -/
theorem ofOperand {α : Type} {x : M α} (h : OperandBuilt x) : BasicBuilt x := by
  refine h.subst fun hx => .op ?_
  cases hx with
  | get => exact .get
  | regs f => exact .regs f
  | track reg delta => exact .track reg delta
  | stackLimit sp => exact .stackLimit sp
  | fetchWord va => exact .fetchWord va
  | readWord va => exact .readWord va
  | readByte va => exact .readByte va

/-- An ordinary program does not wait. -/
theorem ofBasic {α : Type} {x : M α} (h : BasicBuilt x) : ActiveBuilt x :=
  h.subst fun hx => .op (.basic hx)

section Composition

variable {P : (α : Type) → M α → Prop}

theorem built_whenM {c : Prop} [Decidable c] {act : M Unit} (h : Built P Unit act) :
    Built P Unit (whenM c act) :=
  .ite h (.pure ())

/-- A function that returns a value and changes the CPU is a read, a change and a return. -/
theorem liftCpu_eq {α : Type} (f : Cpu → α × Cpu) :
    liftCpu f = (do
      let s ← getCpu
      modifyCpu fun s => (f s).2
      pure (f s).1) := rfl

end Composition

/-! ## Registers and codes -/

theorem operand_getReg (i : Field3) : OperandBuilt (getReg i) :=
  (Built.op .get).bind fun _ => .pure _

theorem operand_addReg (i : Field3) (delta : Word) : OperandBuilt (addReg i delta) :=
  .op (.regs fun s => Function.update s.regs.r i (s.regs.r i + delta))

theorem operand_track (reg : Field3) (delta : Word) :
    OperandBuilt (modifyCpu (mmr1Track reg delta)) := .op (.track reg delta)

theorem basic_getReg (i : Field3) : BasicBuilt (getReg i) := ofOperand (operand_getReg i)

theorem basic_setReg (i : Field3) (value : Word) : BasicBuilt (setReg i value) :=
  .op (.regs fun s => Function.update s.regs.r i value)

theorem basic_addReg (i : Field3) (delta : Word) : BasicBuilt (addReg i delta) :=
  ofOperand (operand_addReg i delta)

theorem basic_codes {f : Cpu → Cpu} (h : ∀ s, CodesOnly s (f s)) : BasicBuilt (modifyCpu f) :=
  .op (.codes f h)

theorem basic_liftCodes {α : Type} {f : Cpu → α × Cpu} (h : ∀ s, CodesOnly s (f s).2) :
    BasicBuilt (liftCpu f) := by
  rw [liftCpu_eq]
  exact (Built.op .get).bind fun _ => (basic_codes h).bind fun _ => .pure _

theorem basic_setNzV0 (result : Word) (bytemode : Bool) :
    BasicBuilt (modifyCpu fun s => setNzV0 s result bytemode) :=
  basic_codes fun s => codesOnly_setNzV0 s result bytemode

theorem basic_getFp : BasicBuilt getFp := (Built.op .get).bind fun _ => .pure _

theorem basic_setFps (f : Word → Word) : BasicBuilt (setFps f) := .op (.fp _)

theorem basic_setFac (r : Field3) (v : BitVec 64) : BasicBuilt (setFac r v) := .op (.fp _)

/-! ## Operands -/

theorem operand_fetch : OperandBuilt fetch :=
  (operand_getReg _).bind fun _ => (Built.op (.fetchWord _)).bind fun _ =>
    (operand_addReg _ _).bind fun _ => .pure _

theorem operand_checkDecrement (reg : Field3) : OperandBuilt (checkDecrement reg) :=
  (operand_getReg _).bind fun _ => built_whenM (.op (.stackLimit _))

theorem operand_decodeOperand (spec : BitVec 6) (bytemode : Bool) :
    OperandBuilt (decodeOperand spec bytemode) := by
  refine .ite (.pure _) (.ite ?_ (.ite (.ite ?_ ?_) (.ite (.ite ?_ ?_) (.ite ?_ (.ite ?_
    (.ite ?_ ?_))))))
  · exact (operand_getReg _).bind fun _ => .pure _
  · exact (operand_getReg _).bind fun _ => operand_fetch.bind fun _ => .pure _
  · exact (operand_getReg _).bind fun _ => (operand_addReg _ _).bind fun _ =>
      (operand_track _ _).bind fun _ => .pure _
  · exact operand_fetch.bind fun _ => .pure _
  · exact (operand_getReg _).bind fun _ => (Built.op (.readWord _)).bind fun _ =>
      (operand_addReg _ _).bind fun _ => (operand_track _ _).bind fun _ => .pure _
  · exact (operand_addReg _ _).bind fun _ => (operand_getReg _).bind fun _ =>
      (operand_track _ _).bind fun _ => (operand_checkDecrement _).bind fun _ => .pure _
  · exact (operand_addReg _ _).bind fun _ => (operand_checkDecrement _).bind fun _ =>
      (operand_getReg _).bind fun _ => (Built.op (.readWord _)).bind fun _ =>
      (operand_track _ _).bind fun _ => .pure _
  · exact operand_fetch.bind fun _ => (operand_getReg _).bind fun _ => .pure _
  · exact operand_fetch.bind fun _ => (operand_getReg _).bind fun _ =>
      (Built.op (.readWord _)).bind fun _ => .pure _

theorem operand_readOperand (op : Operand) (bytemode : Bool) : OperandBuilt (readOperand op bytemode) :=
    by
  cases op with
  | reg r => exact (operand_getReg r).bind fun _ => .pure _
  | imm value addr => exact .pure _
  | mem addr => exact .ite ((Built.op (.readByte _)).bind fun _ => .pure _) (.op (.readWord _))

theorem operand_decodeDouble (word : Word) (bytemode : Bool) :
    OperandBuilt (decodeDouble word bytemode) :=
  (operand_decodeOperand _ _).bind fun _ => (operand_readOperand _ _).bind fun _ =>
    (operand_decodeOperand _ _).bind fun _ => (operand_readOperand _ _).bind fun _ => .pure _

theorem operand_popWord : OperandBuilt popWord :=
  (operand_getReg _).bind fun _ => (Built.op (.readWord _)).bind fun _ =>
    (operand_addReg _ _).bind fun _ => .pure _

theorem basic_fetch : BasicBuilt fetch := ofOperand operand_fetch

theorem basic_decodeOperand (spec : BitVec 6) (bytemode : Bool) :
    BasicBuilt (decodeOperand spec bytemode) := ofOperand (operand_decodeOperand spec bytemode)

theorem basic_readOperand (op : Operand) (bytemode : Bool) : BasicBuilt (readOperand op bytemode) :=
  ofOperand (operand_readOperand op bytemode)

theorem basic_decodeDouble (word : Word) (bytemode : Bool) :
    BasicBuilt (decodeDouble word bytemode) := ofOperand (operand_decodeDouble word bytemode)

theorem basic_popWord : BasicBuilt popWord := ofOperand operand_popWord

theorem basic_writeOperand (op : Operand) (bytemode : Bool) (value : Word) :
    BasicBuilt (writeOperand op bytemode value) := by
  cases op with
  | reg r => exact .ite ((basic_getReg r).bind fun _ => basic_setReg _ _) (basic_setReg _ _)
  | imm _ addr => exact .ite (.op (.writeByte _ _)) (.op (.writeWord _ _))
  | mem addr => exact .ite (.op (.writeByte _ _)) (.op (.writeWord _ _))

theorem basic_pushWord (value : Word) : BasicBuilt (pushWord value) :=
  (basic_addReg _ _).bind fun _ => (basic_getReg _).bind fun _ =>
    (Built.op (.stackLimit _)).bind fun _ => (basic_getReg _).bind fun _ => .op (.writeWord _ _)

/-! ## Double and single operand instructions -/

theorem basic_writeMov (dst : Operand) (bytemode : Bool) (value : Word) :
    BasicBuilt (writeMov dst bytemode value) := by
  unfold writeMov
  split
  · exact basic_setReg _ _
  · exact basic_writeOperand _ _ _

theorem basic_opMov (word : Word) (bytemode : Bool) : BasicBuilt (opMov word bytemode) :=
  (basic_decodeOperand _ _).bind fun _ => (basic_readOperand _ _).bind fun _ =>
    (basic_decodeOperand _ _).bind fun _ => (basic_writeMov _ _ _).bind fun _ => basic_setNzV0 _ _

theorem basic_opCmp (word : Word) (bytemode : Bool) : BasicBuilt (opCmp word bytemode) :=
  (basic_decodeDouble _ _).bind fun _ => basic_codes fun _ => codesOnly_aluSub _ _ _ _

theorem basic_opAdd (word : Word) : BasicBuilt (opAdd word) :=
  (basic_decodeDouble _ _).bind fun _ =>
    (basic_liftCodes fun _ => codesOnly_aluAdd _ _ _ _).bind fun _ => basic_writeOperand _ _ _

theorem basic_opSub (word : Word) : BasicBuilt (opSub word) :=
  (basic_decodeDouble _ _).bind fun _ =>
    (basic_liftCodes fun _ => codesOnly_aluSub _ _ _ _).bind fun _ => basic_writeOperand _ _ _

theorem basic_opBit (word : Word) (bytemode : Bool) : BasicBuilt (opBit word bytemode) :=
  (basic_decodeDouble _ _).bind fun _ => basic_setNzV0 _ _

theorem basic_opBic (word : Word) (bytemode : Bool) : BasicBuilt (opBic word bytemode) :=
  (basic_decodeDouble _ _).bind fun _ => (basic_writeOperand _ _ _).bind fun _ => basic_setNzV0 _ _

theorem basic_opBis (word : Word) (bytemode : Bool) : BasicBuilt (opBis word bytemode) :=
  (basic_decodeDouble _ _).bind fun _ => (basic_writeOperand _ _ _).bind fun _ => basic_setNzV0 _ _

theorem basic_singleOp (word : Word) (base : BitVec 9) (bytemode : Bool) :
    BasicBuilt (singleOp word base bytemode) := by
  refine (basic_decodeOperand _ _).bind fun dst => (basic_readOperand _ _).bind fun d => ?_
  refine .bind (basic_liftCodes fun s => ?_) fun _ => built_whenM (basic_writeOperand _ _ _)
  exact codesOnly_singleOpAlu s base d bytemode

theorem basic_opMark (word : Word) : BasicBuilt (opMark word) :=
  (basic_getReg _).bind fun _ => (basic_getReg _).bind fun _ => (basic_setReg _ _).bind fun _ =>
    (Built.op (.readWord _)).bind fun _ => (basic_setReg _ _).bind fun _ => basic_setReg _ _

/-! ## EIS -/

theorem shiftExtraNs_le (value : Word) : shiftExtraNs (value &&& 0o77).toNat ≤ 6150 := by
  have h : (value &&& 0o77).toNat < 64 := by
    rw [BitVec.toNat_and]
    exact Nat.lt_of_le_of_lt Nat.and_le_right (by decide)
  have bound : ∀ n : Fin 64, shiftExtraNs n ≤ 6150 := by decide
  exact bound ⟨_, h⟩

theorem basic_opMul (word : Word) : BasicBuilt (opMul word) :=
  (basic_decodeOperand _ _).bind fun _ => (basic_readOperand _ _).bind fun _ =>
    (basic_getReg _).bind fun _ => (basic_setReg _ _).bind fun _ => (basic_setReg _ _).bind fun _ =>
    basic_codes fun s => codesOnly_setNzvc s _ _ _ _

theorem basic_opDiv (word : Word) : BasicBuilt (opDiv word) := by
  refine (basic_decodeOperand _ _).bind fun _ => (basic_readOperand _ _).bind fun _ =>
    (basic_getReg _).bind fun _ => (basic_getReg _).bind fun _ => ?_
  refine .ite (basic_codes fun s => codesOnly_setNzvc s _ _ _ _) ?_
  refine (Built.op (.extra _ (by decide))).bind fun _ => .ite ?_ (.ite ?_ ?_)
  · exact basic_codes fun s => ((((CodesOnly.refl s).setV _).setN _).setZ _).setC _
  · exact basic_codes fun s => ((((CodesOnly.refl s).setN _).setV _).setZ _).setC _
  · refine (basic_codes fun s => (CodesOnly.refl s).setN _).bind fun _ =>
      (basic_setReg _ _).bind fun _ => (basic_setReg _ _).bind fun _ => ?_
    exact basic_codes fun s => (((CodesOnly.refl s).setZ _).setV _).setC _

theorem basic_opAsh (word : Word) : BasicBuilt (opAsh word) :=
  (basic_decodeOperand _ _).bind fun _ => (basic_readOperand _ _).bind fun _ =>
    (Built.op (.extra _ (shiftExtraNs_le _))).bind fun _ => (basic_getReg _).bind fun _ =>
    (basic_setReg _ _).bind fun _ =>
    basic_codes fun s => (((CodesOnly.refl s).setNz _ _).setV _).setC _

theorem basic_opAshc (word : Word) : BasicBuilt (opAshc word) :=
  (basic_decodeOperand _ _).bind fun _ => (basic_readOperand _ _).bind fun _ =>
    (Built.op (.extra _ (shiftExtraNs_le _))).bind fun _ => (basic_getReg _).bind fun _ =>
    (basic_getReg _).bind fun _ => (basic_setReg _ _).bind fun _ => (basic_setReg _ _).bind fun _ =>
    basic_codes fun s => codesOnly_setNzvc s _ _ _ _

theorem basic_opXor (word : Word) : BasicBuilt (opXor word) :=
  (basic_decodeOperand _ _).bind fun _ => (basic_readOperand _ _).bind fun _ =>
    (basic_getReg _).bind fun _ => (basic_writeOperand _ _ _).bind fun _ => basic_setNzV0 _ _

/-! ## Control transfer -/

theorem active_trap (vector : Word) : ActiveBuilt (doTrap vector) := .op (.trap vector)

theorem active_orReserved {cap : Config → Bool} {act : M Unit} (h : ActiveBuilt act) :
    ActiveBuilt (orReserved cap act) :=
  (Built.op (.basic .get)).bind fun _ => .ite h (active_trap _)

theorem basic_opBranch (word : Word) : BasicBuilt (opBranch word) :=
  (Built.op .get).bind fun _ => built_whenM (basic_addReg _ _)

theorem active_opJmp (word : Word) : ActiveBuilt (opJmp word) := by
  refine (ofBasic (basic_decodeOperand _ _)).bind fun dst => ?_
  cases dst with
  | reg r => exact active_trap _
  | imm _ _ => exact (Built.op (.basic .get)).bind fun _ => ofBasic (basic_setReg _ _)
  | mem _ => exact (Built.op (.basic .get)).bind fun _ => ofBasic (basic_setReg _ _)

theorem basic_jsrLink (reg : Field3) (target : Word) :
    BasicBuilt (do
      let link ← getReg reg
      pushWord link
      let pc ← getReg regPc
      setReg reg pc
      setReg regPc target) :=
  (basic_getReg _).bind fun _ => (basic_pushWord _).bind fun _ => (basic_getReg _).bind fun _ =>
    (basic_setReg _ _).bind fun _ => basic_setReg _ _

theorem active_opJsr (word : Word) : ActiveBuilt (opJsr word) := by
  refine (ofBasic (basic_decodeOperand _ _)).bind fun dst => ?_
  cases dst with
  | reg r => exact active_trap _
  | imm _ _ => exact (Built.op (.basic .get)).bind fun _ => ofBasic (basic_jsrLink _ _)
  | mem _ => exact (Built.op (.basic .get)).bind fun _ => ofBasic (basic_jsrLink _ _)

theorem basic_opRts (word : Word) : BasicBuilt (opRts word) :=
  (basic_getReg _).bind fun _ => (basic_setReg _ _).bind fun _ => basic_popWord.bind fun _ =>
    basic_setReg _ _

theorem basic_opSob (word : Word) : BasicBuilt (opSob word) :=
  (basic_addReg _ _).bind fun _ => (basic_getReg _).bind fun _ => built_whenM (basic_addReg _ _)

theorem codesOnly_opCcops (word : Word) (s : Cpu) :
    CodesOnly s { s with regs.psw :=
      if word &&& 0o20 ≠ 0 then s.regs.psw ||| (word &&& 0o17)
      else s.regs.psw &&& ~~~(word &&& 0o17) } := by
  have h : (word &&& 0o17) &&& ~~~0o17 = 0 := by
    rw [BitVec.and_assoc]
    exact BitVec.and_zero
  split
  · exact codesOnly_or s h
  · exact codesOnly_andNot s h

theorem basic_opCcops (word : Word) : BasicBuilt (opCcops word) :=
  basic_codes (codesOnly_opCcops word)

theorem active_opMfpt : ActiveBuilt opMfpt :=
  (Built.op (.basic .get)).bind fun _ => .ite (ofBasic (basic_setReg _ _)) (active_trap _)

theorem active_trySingleOp {word : Word} {act : M Unit} (h : trySingleOp word = some act) :
    ActiveBuilt act := by
  simp only [trySingleOp] at h
  split_ifs at h <;> cases h
  · exact ofBasic (basic_singleOp _ _ _)
  · exact active_orReserved (ofBasic (basic_opMark _))
  · exact .op (.mfp _ _)
  · exact .op (.mtp _ _)
  · exact ofBasic (basic_singleOp _ _ _)
  · exact active_orReserved (ofBasic (basic_singleOp _ _ _))

/-- The words whose instructions act on the machine as a whole: HALT, RTI, RESET and RTT. -/
def IsMachineWord (word : Word) : Prop := word = 0 ∨ word = 2 ∨ word = 5 ∨ word = 6

instance (word : Word) : Decidable (IsMachineWord word) := inferInstanceAs (Decidable (_ ∨ _))

theorem active_decodeMisc {word : Word} (h : ¬IsMachineWord word) (h1 : word ≠ 1) :
    ActiveBuilt (decodeMisc word) := by
  obtain ⟨h0, h2, h5, h6⟩ : word ≠ 0 ∧ word ≠ 2 ∧ word ≠ 5 ∧ word ≠ 6 := by
    simpa only [IsMachineWord, not_or] using h
  unfold decodeMisc
  split
  · next act hact => exact active_trySingleOp hact
  · refine .ite (ofBasic (basic_opBranch _)) <| .ite (active_opJmp _) <|
      .ite (ofBasic (basic_opRts _)) <|
      .ite (active_orReserved (.op (.spl _))) <| .ite (ofBasic (basic_opCcops _)) <|
      .ite (active_opJsr _) <|
      .ite (active_orReserved (ofBasic (basic_opMul _))) <|
      .ite (active_orReserved (ofBasic (basic_opDiv _))) <|
      .ite (active_orReserved (ofBasic (basic_opAsh _))) <|
      .ite (active_orReserved (ofBasic (basic_opAshc _))) <|
      .ite (active_orReserved (ofBasic (basic_opXor _))) <|
      .ite (active_orReserved (ofBasic (basic_opSob _))) <|
      .ite (active_trap _) <| .ite (active_trap _) ?_
    rw [if_neg h2, if_neg h6]
    refine .ite active_opMfpt <| .ite (active_trap _) <| .ite (active_trap _) ?_
    rw [if_neg h0, if_neg h1, if_neg h5]
    exact .ite (active_trap _) (.pure _)

/-! ## Floating point -/

theorem fpExecNs_le (major : BitVec 4) (subop : BitVec 2) (dbl : Bool) :
    fpExecNs major subop dbl ≤ 6150 := by
  revert major subop dbl
  decide

theorem active_postFpe (fec : ℕ) (entryPc : Word) : ActiveBuilt (postFpe fec entryPc) :=
  (Built.op (.basic (.fp _))).bind fun _ => (ofBasic basic_getFp).bind fun _ =>
  built_whenM (active_trap _)

theorem operand_getFp : OperandBuilt getFp := (Built.op .get).bind fun _ => .pure _

theorem operand_decodeFp (spec : BitVec 6) (lenWords : ℕ) :
    OperandBuilt (decodeFp spec lenWords) := by
  refine .ite (.pure _) (.ite ?_ (.ite (.ite ?_ ?_) (.ite (.ite ?_ ?_) (.ite ?_ (.ite ?_
    (.ite ?_ ?_))))))
  · exact (operand_getReg _).bind fun _ => .pure _
  · exact operand_fetch.bind fun _ => .pure _
  · exact (operand_getReg _).bind fun _ => (operand_addReg _ _).bind fun _ => .pure _
  · exact operand_fetch.bind fun _ => .pure _
  · exact (operand_getReg _).bind fun _ => (Built.op (.readWord _)).bind fun _ =>
      (operand_addReg _ _).bind fun _ => .pure _
  · exact (operand_addReg _ _).bind fun _ => (operand_getReg _).bind fun _ => .pure _
  · exact (operand_addReg _ _).bind fun _ => (operand_getReg _).bind fun _ =>
      (Built.op (.readWord _)).bind fun _ => .pure _
  · exact operand_fetch.bind fun _ => (operand_getReg _).bind fun _ => .pure _
  · exact operand_fetch.bind fun _ => (operand_getReg _).bind fun _ =>
      (Built.op (.readWord _)).bind fun _ => .pure _

theorem operand_readFp (o : FpOp) (lenWords : ℕ) : OperandBuilt (readFp o lenWords) := by
  cases o with
  | reg r => exact operand_getFp.bind fun _ => .pure _
  | imm value => exact .pure _
  | mem addr =>
    refine (Built.op (.readWord _)).bind fun _ => (Built.op (.readWord _)).bind fun _ => .ite ?_ ?_
    · exact (Built.op (.readWord _)).bind fun _ => (Built.op (.readWord _)).bind fun _ => .pure _
    · exact .pure _

theorem basic_decodeFp (spec : BitVec 6) (lenWords : ℕ) : BasicBuilt (decodeFp spec lenWords) :=
  ofOperand (operand_decodeFp spec lenWords)

theorem basic_readFp (o : FpOp) (lenWords : ℕ) : BasicBuilt (readFp o lenWords) :=
  ofOperand (operand_readFp o lenWords)

theorem basic_writeWords (addr : Word) (lenWords : ℕ) (v : BitVec 64) :
    BasicBuilt (do
      cpuWriteWord addr (v.extractLsb' 48 16)
      cpuWriteWord (addr + 2) (v.extractLsb' 32 16)
      whenM (lenWords = 4) do
        cpuWriteWord (addr + 4) (v.extractLsb' 16 16)
        cpuWriteWord (addr + 6) (v.extractLsb' 0 16)) :=
  (Built.op (.writeWord _ _)).bind fun _ => (Built.op (.writeWord _ _)).bind fun _ =>
    built_whenM ((Built.op (.writeWord _ _)).bind fun _ => .op (.writeWord _ _))

theorem basic_writeFp (o : FpOp) (lenWords : ℕ) (v : BitVec 64) :
    BasicBuilt (writeFp o lenWords v) := by
  cases o with
  | reg r => exact built_whenM (basic_setFac _ _)
  | imm value => exact basic_writeWords _ _ _
  | mem addr => exact basic_writeWords _ _ _

theorem active_finishFp (ac : Field3) (r : FpResult (BitVec 64)) (entryPc : Word) :
    ActiveBuilt (finishFp ac r entryPc) :=
  (ofBasic (basic_setFac _ _)).bind fun _ => (ofBasic (basic_setFps _)).bind fun _ =>
  built_whenM (active_postFpe _ _)

theorem basic_setBothCc {cc : Word} (h : cc &&& ~~~0o17 = 0) : BasicBuilt (setBothCc cc) :=
  (basic_setFps _).bind fun _ => basic_codes fun s => codesOnly_replace s h

theorem basic_fpSpecial (word : Word) : BasicBuilt (fpSpecial word) := by
  refine .ite (basic_codes fun s => codesOnly_replace s ?_) <| .ite (basic_setFps _) <|
    .ite (basic_setFps _) <| .ite (basic_setFps _) <| .ite (basic_setFps _) (.pure _)
  rw [BitVec.and_assoc]
  exact BitVec.and_zero

theorem basic_opLdfps (word : Word) : BasicBuilt (opLdfps word) :=
  (basic_decodeOperand _ _).bind fun _ => (basic_readOperand _ _).bind fun _ => basic_setFps _

theorem basic_opStfps (word : Word) : BasicBuilt (opStfps word) :=
  (basic_setFps _).bind fun _ => (basic_decodeOperand _ _).bind fun _ =>
    basic_getFp.bind fun _ => basic_writeOperand _ _ _

theorem basic_ststWords (addr : Word) :
    BasicBuilt (do
      let p ← getFp
      cpuWriteWord addr p.fec
      let p ← getFp
      cpuWriteWord (addr + 2) p.fea) :=
  basic_getFp.bind fun _ => (Built.op (.writeWord _ _)).bind fun _ =>
    basic_getFp.bind fun _ => .op (.writeWord _ _)

theorem basic_opStst (word : Word) : BasicBuilt (opStst word) := by
  refine (basic_decodeOperand _ _).bind fun dst => ?_
  cases dst with
  | reg r => exact basic_getFp.bind fun _ => basic_setReg _ _
  | imm _ _ => exact basic_ststWords _
  | mem _ => exact basic_ststWords _

theorem basic_opFpSingle (word : Word) (len : ℕ) : BasicBuilt (opFpSingle word len) := by
  refine (basic_decodeFp _ _).bind fun _ => .ite ?_ ?_
  · exact (basic_writeFp _ _ _).bind fun _ => basic_setFps _
  · exact (basic_readFp _ _).bind fun _ => (built_whenM (basic_writeFp _ _ _)).bind fun _ =>
      basic_setFps _

theorem basic_opLdf (word : Word) (len : ℕ) : BasicBuilt (opLdf word len) :=
  (basic_decodeFp _ _).bind fun _ => (basic_readFp _ _).bind fun _ =>
    (basic_setFac _ _).bind fun _ => basic_setFps _

theorem basic_opStf (word : Word) (len : ℕ) : BasicBuilt (opStf word len) :=
  (basic_decodeFp _ _).bind fun _ => basic_getFp.bind fun _ => basic_writeFp _ _ _

theorem active_opFpArith (word : Word) (major : BitVec 4) (len : ℕ) (entryPc : Word) :
    ActiveBuilt (opFpArith word major len entryPc) :=
  (ofBasic (basic_decodeFp _ _)).bind fun _ => (ofBasic (basic_readFp _ _)).bind fun _ =>
  (ofBasic basic_getFp).bind fun _ =>
    active_finishFp _ _ _

theorem active_opDivf (word : Word) (len : ℕ) (entryPc : Word) :
    ActiveBuilt (opDivf word len entryPc) :=
  (ofBasic (basic_decodeFp _ _)).bind fun _ => (ofBasic (basic_readFp _ _)).bind fun _ =>
    .ite (active_postFpe _ _) ((ofBasic basic_getFp).bind fun _ => active_finishFp _ _ _)

theorem active_opModf (word : Word) (len : ℕ) (entryPc : Word) :
    ActiveBuilt (opModf word len entryPc) :=
  (ofBasic (basic_decodeFp _ _)).bind fun _ => (ofBasic (basic_readFp _ _)).bind fun _ =>
  (ofBasic basic_getFp).bind fun _ =>
    (ofBasic (basic_setFac _ _)).bind fun _ => active_finishFp _ _ _

theorem basic_opCmpf (word : Word) (len : ℕ) : BasicBuilt (opCmpf word len) :=
  (basic_decodeFp _ _).bind fun _ => (basic_readFp _ _).bind fun _ => basic_getFp.bind fun _ =>
    (basic_setFps _).bind fun _ => built_whenM (basic_setFac _ _)

theorem active_opLdcff (word : Word) (olen : ℕ) (entryPc : Word) :
    ActiveBuilt (opLdcff word olen entryPc) :=
  (ofBasic (basic_decodeFp _ _)).bind fun _ => (ofBasic (basic_readFp _ _)).bind fun _ =>
  (ofBasic basic_getFp).bind fun _ =>
    active_finishFp _ _ _

theorem active_opStcff (word : Word) (olen : ℕ) (entryPc : Word) :
    ActiveBuilt (opStcff word olen entryPc) :=
  (ofBasic basic_getFp).bind fun _ => (ofBasic (basic_decodeFp _ _)).bind fun _ =>
  (ofBasic (basic_writeFp _ _ _)).bind fun _ =>
    (ofBasic (basic_setFps _)).bind fun _ => built_whenM (active_postFpe _ _)

theorem active_opLdexp (word : Word) (entryPc : Word) : ActiveBuilt (opLdexp word entryPc) :=
  (ofBasic (basic_decodeOperand _ _)).bind fun _ => (ofBasic (basic_readOperand _ _)).bind fun _ =>
    (ofBasic basic_getFp).bind fun _ => active_finishFp _ _ _

theorem basic_opStexp (word : Word) : BasicBuilt (opStexp word) := by
  refine basic_getFp.bind fun p => (basic_setBothCc ?_).bind fun _ =>
    (basic_decodeOperand _ _).bind fun _ => basic_writeOperand _ _ _
  split_ifs <;> decide

theorem basic_readLdcif (o : FpOp) (ilen : ℕ) : BasicBuilt (readLdcif o ilen) := by
  cases o with
  | reg r => exact (basic_getReg _).bind fun _ => .pure _
  | imm value => exact .pure _
  | mem addr =>
    exact (Built.op (.readWord _)).bind fun _ =>
      .ite ((Built.op (.readWord _)).bind fun _ => .pure _) (.pure _)

theorem basic_opLdcif (word : Word) (ilen : ℕ) : BasicBuilt (opLdcif word ilen) :=
  (basic_decodeFp _ _).bind fun _ => (basic_readLdcif _ _).bind fun _ => basic_getFp.bind fun _ =>
    (basic_setFac _ _).bind fun _ => basic_setFps _

theorem basic_writeStcfi (o : FpOp) (ilen : ℕ) (dst : BitVec 32) :
    BasicBuilt (writeStcfi o ilen dst) := by
  cases o with
  | reg r => exact basic_setReg _ _
  | imm value =>
    exact (Built.op (.writeWord _ _)).bind fun _ => built_whenM (.op (.writeWord _ _))
  | mem addr =>
    exact (Built.op (.writeWord _ _)).bind fun _ => built_whenM (.op (.writeWord _ _))

theorem active_opStcfi (word : Word) (ilen : ℕ) (entryPc : Word) :
    ActiveBuilt (opStcfi word ilen entryPc) := by
  refine (ofBasic basic_getFp).bind fun p => (ofBasic (basic_setBothCc ?_)).bind fun _ =>
    (ofBasic (basic_decodeFp _ _)).bind fun _ =>
    (ofBasic (basic_writeStcfi _ _ _)).bind fun _ => built_whenM (active_postFpe _ _)
  split_ifs <;> decide

theorem active_opFp11 (word : Word) : ActiveBuilt (opFp11 word) := by
  refine (ofBasic basic_getFp).bind fun p =>
    (Built.op (.basic (.extra _ (fpExecNs_le _ _ _)))).bind fun _ =>
    (ofBasic (basic_getReg _)).bind fun _ => ?_
  refine .ite (.ite (ofBasic (basic_fpSpecial _)) <| .ite (ofBasic (basic_opLdfps _)) <|
    .ite (ofBasic (basic_opStfps _))
    (ofBasic (basic_opStst _))) ?_
  exact .ite (ofBasic (basic_opFpSingle _ _)) <| .ite (ofBasic (basic_opLdf _ _)) <|
    .ite (ofBasic (basic_opStf _ _)) <|
    .ite (active_opFpArith _ _ _ _) <| .ite (active_opDivf _ _ _) <| .ite (active_opModf _ _ _) <|
    .ite (ofBasic (basic_opCmpf _ _)) <| .ite (active_opLdcff _ _ _) <| .ite (active_opStcff _ _ _) <|
    .ite (active_opLdexp _ _) <| .ite (ofBasic (basic_opStexp _)) <|
    .ite (ofBasic (basic_opLdcif _ _))
    (active_opStcfi _ _ _)

/-! ## Execution -/

/-- Every instruction but HALT, WAIT, RTI, RESET and RTT is a program over the effects of an
instruction that does not wait. -/
theorem active_execute {word : Word} (h : ¬IsMachineWord word) (h1 : word ≠ 1) :
    ActiveBuilt (execute word) :=
  .ite (ofBasic (basic_opMov _ _)) <| .ite (ofBasic (basic_opCmp _ _)) <|
  .ite (ofBasic (basic_opBit _ _)) <|
    .ite (ofBasic (basic_opBic _ _)) <| .ite (ofBasic (basic_opBis _ _)) <|
    .ite (ofBasic (basic_opAdd _)) <|
    .ite (ofBasic (basic_opMov _ _)) <| .ite (ofBasic (basic_opCmp _ _)) <|
    .ite (ofBasic (basic_opBit _ _)) <|
    .ite (ofBasic (basic_opBic _ _)) <| .ite (ofBasic (basic_opBis _ _)) <|
    .ite (ofBasic (basic_opSub _)) <|
    .ite (active_orReserved (active_opFp11 _)) (active_decodeMisc h h1)

theorem active_userOp {α : Type} {x : M α} (h : ActiveOp α x) : UserBuilt x := by
  cases h with
  | basic h => exact .op (.basic h)
  | spl word => exact .op (.spl word)
  | mfp word dspace => exact .op (.mfp word dspace)
  | mtp word dspace => exact .op (.mtp word dspace)
  | trap vector => exact .op (.trap vector)

/-- WAIT among the instructions. -/
theorem execute_wait : execute 1 = modifyCpu fun s => { s with ctl.waiting := true } := rfl

/-- Every instruction but HALT, RTI, RESET and RTT is a program over the effects a program may
have in any mode. -/
theorem user_execute {word : Word} (h : ¬IsMachineWord word) : UserBuilt (execute word) := by
  by_cases h1 : word = 1
  · subst h1
    exact .op .wait
  · exact (active_execute h h1).subst active_userOp

end Pdp11
