import Pdp11.PlainMachine

namespace Pdp11

open Reachability

/-! What programs on a plain machine see, and how instructions change it. -/

/-- What a program that uses no interrupts and no management can see, apart from V and C. -/
structure Plain where
  cfg : Config
  r : Field3 → Word
  n : Bool
  z : Bool
  mmr3 : Word
  time : Time
  dev : Devices
  mem : Mem

def plain (s : Cpu) : Plain :=
  ⟨s.cfg, s.regs.r, flagSet s pswN, flagSet s pswZ, s.mmu.mmr3, s.acct.timeNs, s.dev, s.mem⟩

/-- A machine that nothing disturbs, and what its program sees. -/
structure Shows (s : Cpu) (p : Plain) : Prop where
  serene : Serene s
  sees : plain s = p

namespace Plain

def pc (p : Plain) : Word := p.r regPc

def word (p : Plain) (va : Word) : Word := memReadWord p.mem (unmappedPhysical va)

def byte (p : Plain) (va : Word) : Byte := memReadByte p.mem (unmappedPhysical va)

def setR (p : Plain) (i : Field3) (v : Word) : Plain := { p with r := Function.update p.r i v }

def codes (p : Plain) (result : Word) (bytemode : Bool) : Plain :=
  { p with
    n := result &&& widthMsb bytemode ≠ 0
    z := result &&& widthMask bytemode = 0 }

/-- The time of an instruction goes by. -/
def after (p : Plain) (ns : BitVec 32) : Plain :=
  let now := p.time + ns.setWidth 64
  { p with
    time := now
    dev := settleBus now p.dev }

/-- An address below the I/O page and within the memory. -/
structure Ram (p : Plain) (va : Word) : Prop where
  below : va.toNat < 0o160000
  installed : va.toNat < p.cfg.memTop.toNat

/-- The program has the word `w` at `va`. -/
structure Code (p : Plain) (va w : Word) : Prop extends Ram p va where
  even : va &&& 1 = 0
  holds : p.word va = w

section

variable {p q : Plain} {va w : Word}

theorem Ram.inRam {s : Cpu} (h : p.Ram va) (hoff : ¬mmeOn s) (hs : plain s = p) : InRam s va := by
  subst hs
  exact ⟨hoff, h.below, h.installed⟩

theorem Ram.congr (h : p.Ram va) (hcfg : q.cfg = p.cfg) : q.Ram va :=
  ⟨h.below, by rw [hcfg]; exact h.installed⟩

theorem Code.congr (h : p.Code va w) (hcfg : q.cfg = p.cfg) (hmem : q.mem = p.mem) :
    q.Code va w := by
  refine ⟨h.toRam.congr hcfg, h.even, ?_⟩
  unfold Plain.word
  rw [hmem]
  exact h.holds

end

@[simp] theorem setR_self (p : Plain) (i : Field3) (v : Word) : (p.setR i v).r i = v :=
  Function.update_self _ _ _

theorem setR_of_ne (p : Plain) {i j : Field3} (v : Word) (h : j ≠ i) : (p.setR i v).r j = p.r j :=
  Function.update_of_ne h _ _

@[simp] theorem setR_setR (p : Plain) (i : Field3) (v w : Word) :
    (p.setR i v).setR i w = p.setR i w := by
  simp [setR]

end Plain

/-! ## The time of an instruction -/

section

variable {d : Devices} {now : Time}

@[simp] theorem settleBus_consoleOut : (settleBus now d).consoleOut = d.consoleOut := by
  simp only [settleBus, settleRk, settleTto, settleClk]
  split_ifs <;> rfl

theorem settleBus_rk : (settleBus now d).rk = (settleRk now d).rk := by
  simp only [settleBus, settleRk, settleTto, settleClk]
  split_ifs <;> rfl

@[simp] theorem settleBus_tto : (settleBus now d).ttoBusy = (settleTto now d).ttoBusy ∧
    (settleBus now d).ttoCsr = (settleTto now d).ttoCsr ∧
    (settleBus now d).ttoDoneNs = (settleTto now d).ttoDoneNs := by
  simp only [settleBus, settleRk, settleTto, settleClk]
  split_ifs <;> simp_all

end

namespace Plain

variable (p : Plain) (ns : BitVec 32)

@[simp] theorem after_cfg : (p.after ns).cfg = p.cfg := rfl
@[simp] theorem after_r : (p.after ns).r = p.r := rfl
@[simp] theorem after_n : (p.after ns).n = p.n := rfl
@[simp] theorem after_z : (p.after ns).z = p.z := rfl
@[simp] theorem after_mem : (p.after ns).mem = p.mem := rfl
@[simp] theorem after_pc : (p.after ns).pc = p.pc := rfl

theorem after_time (h : p.time.toNat + ns.toNat < 2 ^ 64) :
    (p.after ns).time.toNat = p.time.toNat + ns.toNat := by
  have hns := ns.isLt
  show (p.time + ns.setWidth 64).toNat = _
  rw [BitVec.toNat_add, BitVec.toNat_setWidth, Nat.mod_eq_of_lt (a := ns.toNat) (by omega),
    Nat.mod_eq_of_lt h]

end Plain

/-! ## Within an instruction -/

/-- What no operation within an instruction changes, apart from hidden state. -/
structure Kept (s t : Cpu) : Prop where
  ctl : t.ctl = s.ctl
  mmu : t.mmu = s.mmu
  acct : t.acct = s.acct
  mode : t.regs.psw &&& ~~~0o17 = s.regs.psw &&& ~~~0o17

namespace Kept

variable {s t u : Cpu}

theorem refl (s : Cpu) : Kept s s := ⟨rfl, rfl, rfl, rfl⟩

theorem trans (h : Kept s t) (h' : Kept t u) : Kept s u :=
  ⟨h'.ctl.trans h.ctl, h'.mmu.trans h.mmu, h'.acct.trans h.acct, h'.mode.trans h.mode⟩

theorem of_codes (h : CodesOnly s t) : Kept s t := by
  rcases h with ⟨psw, rfl, hpsw⟩
  exact ⟨rfl, rfl, rfl, hpsw⟩

theorem off (h : Kept s t) (hoff : ¬mmeOn s) : ¬mmeOn t := by
  unfold mmeOn at hoff ⊢
  rwa [h.mmu]

theorem trap (h : Kept s t) (ht : s.regs.psw &&& pswT = 0) : t.regs.psw &&& pswT = 0 := by
  have hbits (psw : Word) : psw &&& pswT = psw &&& ~~~0o17 &&& pswT := by
    rw [BitVec.and_assoc]
    congr 1
  rw [hbits, h.mode, ← hbits]
  exact ht

end Kept

/-- From what `p` describes, the computation completes with the result `a` in what `q`
describes. -/
def Acts {α : Type} (x : M α) (p : Plain) (a : α) (q : Plain) : Prop :=
  ∀ s, ¬mmeOn s → s.ctl.ccFrozen = false → plain s = p →
    ∃ t, Does x s a t ∧ Kept s t ∧ plain t = q

namespace Acts

variable {α β : Type} {x : M α} {f : α → M β} {a : α} {b : β} {p q u : Plain}

theorem pure (a : α) (p : Plain) : Acts (pure a : M α) p a p :=
  fun s _ _ hs => ⟨s, .pure a s, .refl s, hs⟩

theorem bind (hx : Acts x p a q) (hf : Acts (f a) q b u) : Acts (x >>= f) p b u := by
  intro s hoff hcc hs
  rcases hx s hoff hcc hs with ⟨t, hdoes, hkept, ht⟩
  have hcc' : t.ctl.ccFrozen = false := by rw [hkept.ctl, hcc]
  rcases hf t (hkept.off hoff) hcc' ht with ⟨v, hdoes', hkept', hv⟩
  exact ⟨v, hdoes.bind hdoes', hkept.trans hkept', hv⟩

/-- A computation that changes nothing. -/
theorem of_same (h : ∀ s, ¬mmeOn s → plain s = p → Does x s a s) : Acts x p a p :=
  fun s hoff _ hs => ⟨s, h s hoff hs, .refl s, hs⟩

theorem whenM_false {c : Prop} [Decidable c] (h : ¬c) (act : M Unit) (p : Plain) :
    Acts (whenM c act) p () p :=
  .of_same fun s _ _ => .whenM_false h act s

theorem whenM_true {c : Prop} [Decidable c] (h : c) {act : M Unit} (hact : Acts act p () q) :
    Acts (whenM c act) p () q := by
  intro s hoff hcc hs
  rcases hact s hoff hcc hs with ⟨t, hdoes, ht⟩
  exact ⟨t, .whenM_true h hdoes, ht⟩

theorem setReg (i : Field3) (v : Word) (p : Plain) : Acts (setReg i v) p () (p.setR i v) := by
  rintro s - - rfl
  exact ⟨_, does_setReg i v s, ⟨rfl, rfl, rfl, rfl⟩, rfl⟩

theorem addReg (i : Field3) (d : Word) (p : Plain) :
    Acts (addReg i d) p () (p.setR i (p.r i + d)) := by
  rintro s - - rfl
  exact ⟨_, does_addReg i d s, ⟨rfl, rfl, rfl, rfl⟩, rfl⟩

theorem fetch {w : Word} (h : p.Code p.pc w) : Acts fetch p w (p.setR regPc (p.pc + 2)) := by
  rintro s hoff - rfl
  have hdoes := does_fetch h.even (h.toRam.inRam hoff rfl)
  rw [show ramWord s (s.regs.r regPc) = w from h.holds] at hdoes
  exact ⟨_, hdoes, ⟨rfl, rfl, rfl, rfl⟩, rfl⟩

/-! ### Operands -/

section

variable {spec : BitVec 6} {bytemode : Bool} {reg : Field3}

theorem decode_reg (hmode : spec.extractLsb' 3 3 = 0#3) (hreg : spec.extractLsb' 0 3 = reg)
    (p : Plain) : Acts (decodeOperand spec bytemode) p (.reg reg) p :=
  .of_same fun s _ _ => does_decode_reg hmode hreg s

theorem decode_deferred (hmode : spec.extractLsb' 3 3 = 1#3)
    (hreg : spec.extractLsb' 0 3 = reg) (p : Plain) :
    Acts (decodeOperand spec bytemode) p (.mem (p.r reg)) p := by
  refine .of_same fun s _ hs => ?_
  subst hs
  exact does_decode_deferred hmode hreg s

theorem decode_increment (hmode : spec.extractLsb' 3 3 = 2#3) (hreg : spec.extractLsb' 0 3 = reg)
    (hpc : reg ≠ regPc) (p : Plain) :
    Acts (decodeOperand spec bytemode) p (.mem (p.r reg))
      (p.setR reg (p.r reg + operandStep reg bytemode)) := by
  rintro s - - rfl
  exact ⟨_, does_decode_increment hmode hreg hpc s, ⟨rfl, rfl, rfl, rfl⟩, rfl⟩

theorem decode_decrement (hmode : spec.extractLsb' 3 3 = 4#3) (hreg : spec.extractLsb' 0 3 = reg)
    (hsp : reg ≠ regSp) (p : Plain) :
    Acts (decodeOperand spec bytemode) p (.mem (p.r reg + -operandStep reg bytemode))
      (p.setR reg (p.r reg + -operandStep reg bytemode)) := by
  rintro s - - rfl
  exact ⟨_, does_decode_decrement hmode hreg hsp s, ⟨rfl, rfl, rfl, rfl⟩, rfl⟩

theorem decode_immediate (hspec : spec = 0o27) {w : Word} (h : p.Code p.pc w) :
    Acts (decodeOperand spec bytemode) p (.imm w p.pc) (p.setR regPc (p.pc + 2)) := by
  rintro s hoff - rfl
  have hdoes : Does (decodeOperand spec bytemode) s _ _ :=
    does_decode_immediate hspec h.even (h.toRam.inRam hoff rfl)
  rw [show ramWord s (s.regs.r regPc) = w from h.holds] at hdoes
  exact ⟨_, hdoes, ⟨rfl, rfl, rfl, rfl⟩, rfl⟩

theorem decode_absolute (hspec : spec = 0o37) {w : Word} (h : p.Code p.pc w) :
    Acts (decodeOperand spec bytemode) p (.mem w) (p.setR regPc (p.pc + 2)) := by
  rintro s hoff - rfl
  have hdoes : Does (decodeOperand spec bytemode) s _ _ :=
    does_decode_absolute hspec h.even (h.toRam.inRam hoff rfl)
  rw [show ramWord s (s.regs.r regPc) = w from h.holds] at hdoes
  exact ⟨_, hdoes, ⟨rfl, rfl, rfl, rfl⟩, rfl⟩

end

theorem read_reg (r : Field3) (p : Plain) : Acts (readOperand (.reg r) false) p (p.r r) p := by
  refine .of_same fun s _ hs => ?_
  subst hs
  exact does_read_reg r s

theorem read_regByte (r : Field3) (p : Plain) :
    Acts (readOperand (.reg r) true) p (p.r r &&& 0o377) p := by
  refine .of_same fun s _ hs => ?_
  subst hs
  exact does_read_reg r s

theorem read_immediate (value addr : Word) (p : Plain) :
    Acts (readOperand (.imm value addr) false) p value p := .pure value p

theorem read_byte {va : Word} (h : p.Ram va) :
    Acts (readOperand (.mem va) true) p ((p.byte va).setWidth 16) p := by
  refine .of_same fun s hoff hs => ?_
  subst hs
  exact does_read_byte (does_readByte (h.inRam hoff rfl))

theorem write_reg (r : Field3) (value : Word) (p : Plain) :
    Acts (writeOperand (.reg r) false value) p () (p.setR r value) := setReg r value p

/-! ### Condition codes -/

/-- The codes N and Z of a result, whatever V and C are. -/
def Rates (s : Cpu) (result : Word) (bytemode : Bool) : Prop :=
  (codes s).n = decide (result &&& widthMsb bytemode ≠ 0) ∧
    (codes s).z = decide (result &&& widthMask bytemode = 0)

theorem rates_nz {s : Cpu} (h : s.ctl.ccFrozen = false) (result : Word) (bytemode : Bool) :
    Rates (setNz s result bytemode) result bytemode := by
  unfold Rates setNz
  rw [codes_setZ (by simpa using h), codes_setN h]
  exact ⟨rfl, rfl⟩

theorem Rates.setV {s : Cpu} {result : Word} {bytemode : Bool} (h : Rates s result bytemode)
    (hcc : s.ctl.ccFrozen = false) (on : Bool) : Rates (setFlag s pswV on) result bytemode := by
  unfold Rates
  rw [codes_setV hcc]
  exact h

theorem Rates.setC {s : Cpu} {result : Word} {bytemode : Bool} (h : Rates s result bytemode)
    (hcc : s.ctl.ccFrozen = false) (on : Bool) : Rates (setFlag s pswC on) result bytemode := by
  unfold Rates
  rw [codes_setC hcc]
  exact h

theorem plain_rates {s t : Cpu} {result : Word} {bytemode : Bool} (h : CodesOnly s t)
    (hr : Rates t result bytemode) : plain t = (plain s).codes result bytemode := by
  rcases h with ⟨psw, rfl, -⟩
  rcases hr with ⟨hn, hz⟩
  simp only [plain, Plain.codes, ← hn, ← hz, codes]

theorem setNzV0 (result : Word) (bytemode : Bool) (p : Plain) :
    Acts (modifyCpu fun s => setNzV0 s result bytemode) p () (p.codes result bytemode) := by
  rintro s - hcc rfl
  have hrates := (rates_nz hcc result bytemode).setV (by simpa using hcc) false
  have hcodes := codesOnly_setNzV0 s result bytemode
  exact ⟨_, does_setNzV0 result bytemode s, .of_codes hcodes, plain_rates hcodes hrates⟩

/-- A single-operand operation that leaves the codes of its `result`. -/
theorem alu {base : BitVec 9} {d result : Word} {bytemode store width : Bool}
    (hresult : ∀ s, (singleOpAlu s base d bytemode).1 = result ∧
      (singleOpAlu s base d bytemode).2.1 = store)
    (hrates : ∀ s, s.ctl.ccFrozen = false →
      Rates (singleOpAlu s base d bytemode).2.2 result width) (p : Plain) :
    Acts (liftCpu fun s =>
        let out := singleOpAlu s base d bytemode
        ((out.1, out.2.1), out.2.2)) p (result, store) (p.codes result width) := by
  rintro s - hcc rfl
  have hcodes := codesOnly_singleOpAlu s base d bytemode
  have hdoes := does_alu base d bytemode s
  rw [(hresult s).1, (hresult s).2] at hdoes
  exact ⟨_, hdoes, .of_codes hcodes, plain_rates hcodes (hrates s hcc)⟩

theorem alu_clr (d : Word) (bytemode : Bool) (p : Plain) :
    Acts (liftCpu fun s =>
        let out := singleOpAlu s 0o050 d bytemode
        ((out.1, out.2.1), out.2.2)) p (0, true) (p.codes 0 bytemode) := by
  refine alu (fun s => ⟨rfl, rfl⟩) (fun s hcc => ?_) p
  have hn : (decide ((0 : Word) &&& widthMsb bytemode ≠ 0)) = false := by simp
  have hz : (decide ((0 : Word) &&& widthMask bytemode = 0)) = true := by simp
  have hnz := rates_nz hcc 0 bytemode
  unfold setNz at hnz
  rw [hn, hz] at hnz
  exact (hnz.setV (by simpa using hcc) false).setC (by simpa using hcc) false

theorem alu_tst (d : Word) (bytemode : Bool) (p : Plain) :
    Acts (liftCpu fun s =>
        let out := singleOpAlu s 0o057 d bytemode
        ((out.1, out.2.1), out.2.2)) p (d, false) (p.codes d bytemode) := by
  refine alu (fun s => ⟨rfl, rfl⟩) (fun s hcc => ?_) p
  exact ((rates_nz hcc d bytemode).setV (by simpa using hcc) false).setC (by simpa using hcc) false

theorem alu_asl (d : Word) (p : Plain) :
    Acts (liftCpu fun s =>
        let out := singleOpAlu s 0o063 d false
        ((out.1, out.2.1), out.2.2)) p (d <<< 1, true) (p.codes (d <<< 1) false) := by
  have hall : (d <<< 1) &&& widthMask false = d <<< 1 := BitVec.and_allOnes
  have heq (s : Cpu) : singleOpAlu s 0o063 d false = (d <<< 1, true,
      setVFromNc (setNz (setFlag s pswC (d &&& widthMsb false ≠ 0)) (d <<< 1) false)) := by
    rw [← hall]
    rfl
  refine alu (fun s => by rw [heq s]; exact ⟨rfl, rfl⟩) (fun s hcc => ?_) p
  rw [heq s]
  exact (rates_nz (by simpa using hcc) (d <<< 1) false).setV (by simpa using hcc) _

/-- SWAB sets the codes of the low byte of its result. -/
theorem alu_swab (d : Word) (p : Plain) :
    Acts (liftCpu fun s =>
        let out := singleOpAlu s 0o003 d false
        ((out.1, out.2.1), out.2.2)) p ((d <<< 8) ||| (d >>> 8), true)
      (p.codes ((d <<< 8) ||| (d >>> 8)) true) := by
  have heq (s : Cpu) : singleOpAlu s 0o003 d false =
      (let t := setNz s ((d <<< 8) ||| (d >>> 8)) true
      ((d <<< 8) ||| (d >>> 8), true,
        setFlag (if t.cfg.model ≠ .m1120 then setFlag t pswV false else t) pswC false)) := rfl
  refine alu (fun s => by rw [heq s]; exact ⟨rfl, rfl⟩) (fun s hcc => ?_) p
  rw [heq s]
  have hnz := rates_nz hcc ((d <<< 8) ||| (d >>> 8)) true
  dsimp only
  split
  · exact (hnz.setV (by simpa using hcc) false).setC (by simpa using hcc) false
  · exact hnz.setC (by simpa using hcc) false

/-! ### Registers of the I/O page -/

section

variable {va value w : Word} {v : Cpu → Word} {g : Word → Cpu → Cpu}

theorem read_io (hio : ∀ s, ¬mmeOn s → InIo s va) (hread : ∀ s, ioReadReg s va = some (v s, s))
    (hv : ∀ s, v s = v (bare s)) (hw : ∀ s, plain s = p → v s = w) :
    Acts (readOperand (.mem va) false) p w p := by
  refine .of_same fun s hoff hs => ?_
  rw [← hw s hs]
  exact does_read_word (does_readWord_io (hio s hoff) hread hv _ _)

theorem readByte_io (hio : ∀ s, ¬mmeOn s → InIo s va)
    (hread : ∀ s, ioReadReg s va = some (v s, s)) (hv : ∀ s, v s = v (bare s))
    (hw : ∀ s, plain s = p → v s = w) :
    Acts (readOperand (.mem va) true) p (((w &&& 0o377).setWidth 8).setWidth 16) p := by
  refine .of_same fun s hoff hs => ?_
  rw [← hw s hs]
  exact does_read_byte (does_readByte_io (hio s hoff) hread hv)

theorem write_io (hio : ∀ s, ¬mmeOn s → InIo s va)
    (hwrite : ∀ s, ioWriteReg s va value = some (g value s))
    (hg : ∀ s, bare (g value s) = bare (g value (bare s)))
    (heffect : ∀ s, plain s = p → Kept s (g value s) ∧ plain (g value s) = q) :
    Acts (writeOperand (.mem va) false value) p () q := by
  intro s hoff _ hs
  rcases heffect s hs with ⟨hkept, hq⟩
  exact ⟨_, does_write_word (does_writeWord_io (hio s hoff) hwrite hg _ _), hkept, hq⟩

/-- A byte store writes the register back with its low byte replaced. -/
theorem writeByte_io (hio : ∀ s, ¬mmeOn s → InIo s va)
    (hread : ∀ s, ioReadReg s va = some (v s, s)) (hv : ∀ s, v s = v (bare s))
    (hw : ∀ s, plain s = p → v s = w)
    (hwrite : ∀ value s, ioWriteReg s va value = some (g value s))
    (hg : ∀ value s, bare (g value s) = bare (g value (bare s)))
    (heffect : ∀ s, plain s = p →
      let merged := (w &&& 0o177400) ||| (value.setWidth 8).setWidth 16
      Kept s (g merged s) ∧ plain (g merged s) = q) :
    Acts (writeOperand (.mem va) true value) p () q := by
  intro s hoff _ hs
  rcases heffect s hs with ⟨hkept, hq⟩
  refine ⟨_, ?_, hkept, hq⟩
  rw [← hw s hs]
  exact does_write_byte (does_writeByte_io (hio s hoff) hread hv hwrite hg)

end

/-! ### Whole instructions -/

section

variable {word value : Word} {bytemode store : Bool} {p₁ p₂ p₃ p₄ : Plain} {src dst : Operand}

theorem mov (hop : execute word = opMov word bytemode)
    (hsrc : Acts (decodeOperand (srcSpec word) bytemode) p src p₁)
    (hread : Acts (readOperand src bytemode) p₁ value p₁)
    (hdst : Acts (decodeOperand (dstSpec word) bytemode) p₁ dst p₂)
    (hwrite : Acts (writeMov dst bytemode value) p₂ () p₃) :
    Acts (execute word) p () (p₃.codes value bytemode) := by
  rw [hop]
  exact hsrc.bind (hread.bind (hdst.bind (hwrite.bind (setNzV0 value bytemode p₃))))

theorem single {base : BitVec 9} {d result : Word}
    (hop : execute word = singleOp word base bytemode)
    (hdst : Acts (decodeOperand (dstSpec word) bytemode) p dst p₁)
    (hread : Acts (readOperand dst bytemode) p₁ d p₁)
    (halu : Acts (liftCpu fun s =>
        let out := singleOpAlu s base d bytemode
        ((out.1, out.2.1), out.2.2)) p₁ (result, store) p₂)
    (hstore : Acts (whenM (store = true) (writeOperand dst bytemode result)) p₂ () p₃) :
    Acts (execute word) p () p₃ := by
  rw [hop]
  exact hdst.bind (hread.bind (halu.bind hstore))

theorem branch {taken : Bool} (hop : execute word = opBranch word)
    (htaken : ∀ s, plain s = p → branchTaken s (highByte word) = taken) :
    Acts (execute word) p ()
      (if taken then p.setR regPc (p.pc + (lowByte word).signExtend 16 * 2) else p) := by
  rw [hop]
  intro s hoff hcc hs
  have hact : Acts (whenM (branchTaken s (highByte word) = true)
      (Pdp11.addReg regPc ((lowByte word).signExtend 16 * 2))) p ()
      (if taken then p.setR regPc (p.pc + (lowByte word).signExtend 16 * 2) else p) := by
    rw [htaken s hs]
    cases taken with
    | true => exact .whenM_true rfl (.addReg _ _ p)
    | false => exact .whenM_false (by simp) _ p
  rcases hact s hoff hcc hs with ⟨t, hdoes, hkept, ht⟩
  refine ⟨t, .get (fun u => ?_) hdoes, hkept, ht⟩
  rfl

end

end Acts

/-! ## Steps -/

theorem Serene.after {s t : Cpu} (h : Serene s) (hkept : Kept s t) (hbus : QuietBus t.dev)
    (word : Word) : Serene (afterInstr word t) where
  off := hkept.off h.off
  running := (congrArg Control.halted hkept.ctl).trans h.running
  awake := (congrArg Control.waiting hkept.ctl).trans h.awake
  trace := (congrArg Control.tracePending hkept.ctl).trans h.trace
  yellow := (congrArg Control.stackYellowPending hkept.ctl).trans h.yellow
  frozen := (congrArg Control.ccFrozen hkept.ctl).trans h.frozen
  extra := (congrArg Accounting.eisExtraNs hkept.acct).trans h.extra
  trap := hkept.trap h.trap
  bus := hbus.settleBus

/-- Every machine that shows `p` shows `q` one step later. -/
def Runs (p q : Plain) : Prop := ∀ s, Shows s p → Shows (cpuStep s).cpu q

theorem Acts.runs {p q : Plain} {word : Word} (hword : p.Code p.pc word) (ns : BitVec 32)
    (hexec : Acts (execute word) (p.setR regPc (p.pc + 2)) () q)
    (hns : ∀ t, plain t = q → instrNs t word = ns) (hbus : QuietBus q.dev) :
    Runs p (q.after ns) := by
  rintro s ⟨hs, rfl⟩
  rcases hexec (setR s regPc (s.regs.r regPc + 2)) hs.off hs.frozen rfl with ⟨t, hdoes, hkept, rfl⟩
  have hset : Kept s (setR s regPc (s.regs.r regPc + 2)) := ⟨rfl, rfl, rfl, rfl⟩
  have hkept' := hset.trans hkept
  have hextra : t.acct.eisExtraNs = 0 := by rw [hkept'.acct, hs.extra]
  have hbare := plain_step hs hword.even (hword.toRam.inRam hs.off rfl) hword.holds hdoes hextra hbus
  refine ⟨(hs.after hkept' hbus word).of_bare hbare, ?_⟩
  have hplain : plain (bare (cpuStep s).cpu) = plain (bare (afterInstr word t)) :=
    congrArg plain hbare
  refine hplain.trans ?_
  rw [← hns t rfl]
  rfl

/-- A branch on N and Z. -/
theorem Runs.branch {p : Plain} {word : Word} {taken : Bool} (hword : p.Code p.pc word)
    (hop : execute word = opBranch word) (hbranch : isBranch (highByte word) = true)
    (htaken : ∀ s, flagSet s pswN = p.n → flagSet s pswZ = p.z →
      branchTaken s (highByte word) = taken) (hbus : QuietBus p.dev) :
    Runs p ((p.setR regPc (if taken then p.pc + 2 + (lowByte word).signExtend 16 * 2
      else p.pc + 2)).after (if taken then 600 else 300)) := by
  have hns {q : Plain} (hn : q.n = p.n) (hz : q.z = p.z) (t : Cpu) (ht : plain t = q) :
      instrNs t word = if taken then 600 else 300 := by
    have htn : flagSet t pswN = p.n := (congrArg Plain.n ht).trans hn
    have htz : flagSet t pswZ = p.z := (congrArg Plain.z ht).trans hz
    unfold instrNs
    rw [if_pos hbranch, htaken t htn htz]
  have hexec := Acts.branch (p := p.setR regPc (p.pc + 2)) hop fun s hs =>
    htaken s (congrArg Plain.n hs) (congrArg Plain.z hs)
  cases taken with
  | true =>
    have hpc : (p.setR regPc (p.pc + 2)).pc = p.pc + 2 := rfl
    rw [if_pos rfl, hpc, Plain.setR_setR] at hexec
    exact hexec.runs hword _ (hns rfl rfl) hbus
  | false => exact hexec.runs hword _ (hns rfl rfl) hbus

/-- HALT stops the machine, and nothing else. -/
theorem Shows.halts {s : Cpu} {p : Plain} (h : Shows s p) (hword : p.Code p.pc 0) :
    (cpuStep s).cpu.ctl.halted = true ∧
      plain (cpuStep s).cpu = (p.setR regPc (p.pc + 2)).after 300 := by
  rcases h with ⟨hs, rfl⟩
  have hdoes : Does (execute 0) (setR s regPc (s.regs.r regPc + 2)) ()
      { setR s regPc (s.regs.r regPc + 2) with ctl.halted := true } := by
    have hop : execute 0 = modifyCpu fun s => { s with ctl.halted := true } := rfl
    rw [hop]
    exact .modify (fun _ => rfl) _
  have hbare := plain_step hs hword.even (hword.toRam.inRam hs.off rfl) hword.holds hdoes hs.extra
    hs.bus
  exact ⟨congrArg (fun c => c.ctl.halted) hbare, congrArg plain hbare⟩

/-- Some description with the property `P` fits the machine. -/
def Portrayed (P : Plain → Prop) (s : Cpu) : Prop := ∃ p, Shows s p ∧ P p

/-- A step takes every description with `P` to one with `Q`. -/
theorem leads_of_runs {P Q : Plain → Prop} (h : ∀ p, P p → ∃ q, Runs p q ∧ Q q) :
    Leads (fun s => (cpuStep s).cpu) (Portrayed P) (Portrayed Q) := by
  refine .one fun s hs => ?_
  rcases hs with ⟨p, hp, hP⟩
  rcases h p hP with ⟨q, hrun, hQ⟩
  exact ⟨q, hrun s hp, hQ⟩

theorem cpuRun_iterate (s : Cpu) (n : ℕ) : (fun s => (cpuStep s).cpu)^[n] s = cpuRun s n := by
  induction n with
  | zero => rfl
  | succ n ih => rw [Function.iterate_succ_apply', ih, cpuRun]

end Pdp11
