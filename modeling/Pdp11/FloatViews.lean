import Pdp11.FloatOperands
import Pdp11.FloatSingle
import Pdp11.ScratchPrograms

namespace Pdp11

open FaultState Lockstep

/-! A floating-point instruction reads no more of an accumulator than its precision has. -/

/-! ## Accumulators seen alike -/

/-- All of an accumulator is seen, or its high half while single precision is in force. -/
def Precise (w : View) (fps : Word) : Prop := w.fac = id ∨ w.fac = highHalf ∧ fps &&& fpsD = 0

/-- Two numbers that are seen alike: equal, or equal in the half that single precision uses. -/
def Near (w : View) (fps : Word) (a b : BitVec 64) : Prop :=
  a = b ∨ (w.fac = highHalf ∧ fps &&& fpsD = 0) ∧ a >>> 32 = b >>> 32

theorem highHalf_high (v : BitVec 64) : highHalf v >>> 32 = v >>> 32 := by
  apply BitVec.eq_of_toNat_eq
  rw [BitVec.toNat_ushiftRight, BitVec.toNat_ushiftRight, highHalf_toNat, Nat.shiftRight_eq_div_pow,
    Nat.shiftRight_eq_div_pow]
  omega

theorem fpExp_high (v : BitVec 64) : fpExp v = (v >>> 32).extractLsb' 23 8 := by
  apply BitVec.eq_of_getLsbD_eq
  intro i hi
  simp only [fpExp, BitVec.getLsbD_extractLsb', BitVec.getLsbD_ushiftRight]
  congr 2
  omega

theorem msb_high (v : BitVec 64) : v.msb = (v >>> 32).getLsbD 31 := by
  rw [BitVec.getLsbD_ushiftRight, BitVec.msb_eq_getLsbD_last]

section
variable {w : View} {fps : Word} {a b c d : BitVec 64}

theorem near_of_seen (hp : Precise w fps) (h : w.fac a = w.fac b) : Near w fps a b := by
  obtain hid | hsingle := hp
  · rw [hid] at h
    exact .inl h
  · rw [hsingle.1] at h
    refine .inr ⟨hsingle, ?_⟩
    rw [← highHalf_high a, h, highHalf_high]

theorem Near.seen (h : Near w fps a b) : w.fac a = w.fac b := by
  obtain rfl | ⟨hsingle, hab⟩ := h
  · rfl
  · rw [hsingle.1, highHalf, hab]
    rfl

theorem Near.high (h : Near w fps a b) : a >>> 32 = b >>> 32 := by
  obtain rfl | ⟨-, hab⟩ := h
  · rfl
  · exact hab

theorem Near.exp (h : Near w fps a b) : fpExp a = fpExp b := by
  rw [fpExp_high, h.high, ← fpExp_high]

theorem Near.msb (h : Near w fps a b) : a.msb = b.msb := by
  rw [msb_high, h.high, ← msb_high]

/-- What acts on the halves apart keeps numbers alike. -/
theorem Near.map {g : BitVec 64 → BitVec 64}
    (hg : ∀ x y : BitVec 64, x >>> 32 = y >>> 32 → g x >>> 32 = g y >>> 32) (h : Near w fps a b) :
    Near w fps (g a) (g b) := by
  obtain rfl | ⟨hsingle, hab⟩ := h
  · exact .inl rfl
  · exact .inr ⟨hsingle, hg a b hab⟩

theorem Near.xor (h : Near w fps a b) (k : BitVec 64) : Near w fps (a ^^^ k) (b ^^^ k) :=
  h.map (g := (· ^^^ k)) fun x y hxy => by
    rw [BitVec.ushiftRight_xor_distrib, BitVec.ushiftRight_xor_distrib, hxy]

theorem Near.and (h : Near w fps a b) (k : BitVec 64) : Near w fps (a &&& k) (b &&& k) :=
  h.map (g := (· &&& k)) fun x y hxy => by
    rw [BitVec.ushiftRight_and_distrib, BitVec.ushiftRight_and_distrib, hxy]

theorem Near.toFac (h : Near w fps a b) : Pdp11.toFac a fps = Pdp11.toFac b fps := by
  obtain rfl | ⟨⟨-, hsingle⟩, hab⟩ := h
  · rfl
  · unfold Pdp11.toFac
    rw [if_pos hsingle, if_pos hsingle, hab]

theorem fpSetcc_near (h : Near w fps a b) (codes newv : Word) :
    fpSetcc codes a newv = fpSetcc codes b newv := by
  unfold fpSetcc
  rw [h.msb, h.exp]

theorem fpAdd_near (h : Near w fps a b) (h' : Near w fps c d) : fpAdd a c fps = fpAdd b d fps := by
  unfold fpAdd
  rw [h.toFac, h'.toFac]

theorem fpMul_near (h : Near w fps a b) (h' : Near w fps c d) : fpMul a c fps = fpMul b d fps := by
  unfold fpMul
  rw [h.toFac, h'.toFac]

theorem fpDiv_near (h : Near w fps a b) (h' : Near w fps c d) : fpDiv a c fps = fpDiv b d fps := by
  unfold fpDiv
  rw [h.toFac, h'.toFac]

theorem fpMod_near (h : Near w fps a b) (h' : Near w fps c d) : fpMod a c fps = fpMod b d fps := by
  unfold fpMod
  rw [h.toFac, h'.toFac]

theorem fpCmp_near (h : Near w fps a b) (h' : Near w fps c d) : fpCmp a c fps = fpCmp b d fps := by
  unfold fpCmp
  rw [h.toFac, h'.toFac]

theorem fpStcfi_near (h : Near w fps a b) : fpStcfi a fps = fpStcfi b fps := by
  obtain rfl | ⟨⟨-, hsingle⟩, hab⟩ := h
  · rfl
  · unfold fpStcfi
    rw [hab, hsingle]
    rfl

end

/-- Results seen alike, with one condition and one exception. -/
structure NearResult (w : View) (fps : Word) (r r' : FpResult (BitVec 64)) : Prop where
  val : Near w fps r.val r'.val
  v : r.v = r'.v
  fec : r.fec = r'.fec

/-- LDEXP replaces the exponent and leaves the low half. -/
theorem fpLdexp_near {w : View} {fps : Word} {a b : BitVec 64} (h : Near w fps a b) (dst : Word) :
    NearResult w fps (fpLdexp a dst fps) (fpLdexp b dst fps) := by
  have hhigh : a.extractLsb' 32 32 = b.extractLsb' 32 32 := by
    rw [← BitVec.setWidth_ushiftRight_eq_extractLsb, h.high, BitVec.setWidth_ushiftRight_eq_extractLsb]
  have happend (x y : BitVec 32) : (x ++ y) >>> 32 = x.setWidth 64 := by
    apply BitVec.eq_of_toNat_eq
    have hx := x.isLt
    have hy := y.isLt
    rw [BitVec.toNat_ushiftRight, BitVec.toNat_append, BitVec.toNat_setWidth,
      ← Nat.shiftLeft_add_eq_or_of_lt hy, Nat.shiftLeft_eq, Nat.shiftRight_eq_div_pow]
    omega
  have hval (x : BitVec 32) : Near w fps (x ++ (a.extractLsb' 0 32 : BitVec 32))
      (x ++ (b.extractLsb' 0 32 : BitVec 32)) := by
    obtain rfl | ⟨hsingle, -⟩ := h
    · exact .inl rfl
    · exact .inr ⟨hsingle, (happend x _).trans (happend x _).symm⟩
  unfold fpLdexp
  rw [hhigh]
  dsimp only
  split_ifs
  · exact ⟨.inl rfl, rfl, rfl⟩
  · exact ⟨hval _, rfl, rfl⟩
  · exact ⟨.inl rfl, rfl, rfl⟩
  · exact ⟨hval _, rfl, rfl⟩
  · exact ⟨hval _, rfl, rfl⟩

/-! ## The registers of the unit -/

/-- Two machines seen alike with a floating status in force. -/
abbrev Under (w : View) (fps : Word) (m m' : Machine) : Prop :=
  SameView w m m' ∧ m.cpu.fp.fps = fps

/-- Floating registers seen alike with a floating status in force. -/
structure NearFp (w : View) (fps : Word) (p q : FpRegs) : Prop where
  left : p.fps = fps
  right : q.fps = fps
  fac : ∀ r, Near w fps (p.fac r) (q.fac r)

/-- The floating registers as they are seen. -/
def viewFp (w : View) (p : FpRegs) : FpRegs := { p with fac := fun r => w.fac (p.fac r) }

section
variable {α : Type} {w : View} {fps : Word}

/-- A program that keeps the floating registers keeps the status in force. -/
theorem Blind.under {x : M α} (hx : Blind x) (hk : KeepsFp x) :
    Locked (Under w fps) (Under w fps) (SameView w.faulted) x :=
  (hx w).keeping fun m h => (congrArg FpRegs.fps (hk m)).trans h

theorem Blind.of_under {x : M α} (hx : Blind x) :
    Locked (Under w fps) (SameView w) (SameView w.faulted) x := fun m m' h => hx w m m' h.1

theorem under_right {m m' : Machine} (h : Under w fps m m') : m'.cpu.fp.fps = fps :=
  (congrArg (fun s : Cpu => s.fp.fps) h.1.cpu).symm.trans h.2

theorem pairs_getFp {E : Machine → Machine → Prop} (hp : Precise w fps) :
    Pairs (Under w fps) (Under w fps) E (NearFp w fps) getFp getFp := by
  intro m m' h
  refine .ok ⟨h.2, under_right h, fun r => near_of_seen hp ?_⟩ h
  exact congrArg (fun s : Cpu => s.fp.fac r) h.1.cpu

theorem blind_getFp {f : FpRegs → M α} (hf : ∀ w p, f (viewFp w p) = f p) (h : ∀ p, Blind (f p)) :
    Blind (getFp >>= f) := by
  have hget : getFp >>= f = getCpu >>= fun s => f s.fp := rfl
  rw [hget]
  exact blind_get (fun w s => hf w s.fp) fun s => h s.fp

theorem blind_modifyFp {f : FpRegs → FpRegs} (hf : ∀ w p, f (viewFp w p) = viewFp w (f p)) :
    Blind (modifyFp f) :=
  blind_modify fun w s => congrArg (fun p => { view w s with fp := p }) (hf w s.fp)

theorem blind_setFps (f : Word → Word) : Blind (setFps f) := blind_modifyFp fun _ _ => rfl

theorem pairs_setFac {E : Machine → Machine → Prop} (r : Field3) {v v' : BitVec 64}
    (h : w.fac v = w.fac v') : Pairs (SameView w) (SameView w) E Eq (setFac r v) (setFac r v') := by
  intro m m' hm
  refine .ok rfl ⟨?_, hm.events⟩
  have hview (s : Cpu) (x : BitVec 64) :
      view w { s with fp.fac := Function.update s.fp.fac r x } =
        { view w s with fp.fac := Function.update (view w s).fp.fac r (w.fac x) } := by
    have hfac : (fun i => w.fac (Function.update s.fp.fac r x i)) =
        Function.update (fun i => w.fac (s.fp.fac i)) r (w.fac x) :=
      Function.comp_update w.fac s.fp.fac r x
    unfold view
    dsimp only
    rw [hfac]
  show view w { m.cpu with fp.fac := _ } = view w { m'.cpu with fp.fac := _ }
  rw [hview, hview, hm.cpu, h]

theorem blind_setFac (r : Field3) (v : BitVec 64) : Blind (setFac r v) :=
  fun _ => (pairs_setFac r rfl).locked

theorem pairs_setCodes {a b : BitVec 64} (h : Near w fps a b) (newv : Word) :
    Pairs (SameView w) (SameView w) (SameView w.faulted) Eq
      (setFps fun codes => fpSetcc codes a newv) (setFps fun codes => fpSetcc codes b newv) := by
  have hcodes : (fun codes => fpSetcc codes a newv) = fun codes => fpSetcc codes b newv :=
    funext fun codes => fpSetcc_near h codes newv
  rw [hcodes]
  exact (blind_setFps _ w).pairs

theorem blind_postFpe (fec : ℕ) (entryPc : Word) : Blind (postFpe fec entryPc) :=
  (blind_modifyFp fun _ _ => rfl).bind fun _ => blind_getFp (fun _ _ => rfl) fun _ =>
    blind_whenM (blind_doTrap _)

theorem blind_finishFp (ac : Field3) (r : FpResult (BitVec 64)) (entryPc : Word) :
    Blind (finishFp ac r entryPc) :=
  (blind_setFac _ _).bind fun _ => (blind_setFps _).bind fun _ => blind_whenM (blind_postFpe _ _)

theorem pairs_finishFp (ac : Field3) {r r' : FpResult (BitVec 64)} (entryPc : Word)
    (h : NearResult w fps r r') : Pairs (SameView w) (SameView w) (SameView w.faulted) Eq
      (finishFp ac r entryPc) (finishFp ac r' entryPc) := by
  unfold finishFp
  rw [← h.v, ← h.fec]
  exact (pairs_setFac ac h.val.seen).bind fun _ _ _ => (pairs_setCodes h.val _).bind fun _ _ _ =>
    (blind_whenM (blind_postFpe _ _) w).pairs

end

/-! ## Operands -/

theorem blind_decodeFp (spec : BitVec 6) (lenWords : ℕ) : Blind (decodeFp spec lenWords) := by
  refine .ite (blind_pure _) (.ite ?_ (.ite (.ite ?_ ?_) (.ite (.ite ?_ ?_) (.ite ?_ (.ite ?_
    (.ite ?_ ?_))))))
  · exact (blind_getReg _).bind fun _ => blind_pure _
  · exact blind_fetch.bind fun _ => blind_pure _
  · exact (blind_getReg _).bind fun _ => (blind_addReg _ _).bind fun _ => blind_pure _
  · exact blind_fetch.bind fun _ => blind_pure _
  · exact (blind_getReg _).bind fun _ => (blind_cpuReadWord _).bind fun _ =>
      (blind_addReg _ _).bind fun _ => blind_pure _
  · exact (blind_addReg _ _).bind fun _ => (blind_getReg _).bind fun _ => blind_pure _
  · exact (blind_addReg _ _).bind fun _ => (blind_getReg _).bind fun _ =>
      (blind_cpuReadWord _).bind fun _ => blind_pure _
  · exact blind_fetch.bind fun _ => (blind_getReg _).bind fun _ => blind_pure _
  · exact blind_fetch.bind fun _ => (blind_getReg _).bind fun _ =>
      (blind_cpuReadWord _).bind fun _ => blind_pure _

theorem blind_writeWords (addr : Word) (lenWords : ℕ) (v : BitVec 64) :
    Blind (do
      cpuWriteWord addr (v.extractLsb' 48 16)
      cpuWriteWord (addr + 2) (v.extractLsb' 32 16)
      whenM (lenWords = 4) do
        cpuWriteWord (addr + 4) (v.extractLsb' 16 16)
        cpuWriteWord (addr + 6) (v.extractLsb' 0 16)) :=
  (blind_cpuWriteWord _ _).bind fun _ => (blind_cpuWriteWord _ _).bind fun _ =>
    blind_whenM ((blind_cpuWriteWord _ _).bind fun _ => blind_cpuWriteWord _ _)

theorem blind_writeFp (o : FpOp) (lenWords : ℕ) (v : BitVec 64) : Blind (writeFp o lenWords v) := by
  cases o with
  | reg r => exact blind_whenM (blind_setFac _ _)
  | imm value => exact blind_writeWords _ _ _
  | mem addr => exact blind_writeWords _ _ _

section
variable {w : View} {fps : Word}

theorem locked_decodeFp (spec : BitVec 6) (lenWords : ℕ) :
    Locked (Under w fps) (Under w fps) (SameView w.faulted) (decodeFp spec lenWords) :=
  (blind_decodeFp spec lenWords).under (keepsFp_operand (operand_decodeFp spec lenWords))

/-- What is read from memory, or with all of an accumulator seen, is read alike. -/
theorem pairs_readWhole (hp : Precise w fps) {o : FpOp} (ho : w.fac = id ∨ ∀ r, o ≠ .reg r)
    (lenWords : ℕ) : Pairs (Under w fps) (Under w fps) (SameView w.faulted) Eq (readFp o lenWords)
      (readFp o lenWords) := by
  have hkeeps := keepsFp_operand (operand_readFp o lenWords)
  cases o with
  | reg r =>
    have hid := ho.resolve_right fun h => h r rfl
    refine (pairs_getFp hp).bind fun p q hpq => pairs_pure ?_
    have hfac := (hpq.fac r).seen
    rw [hid] at hfac
    rw [show p.fac r = q.fac r from hfac]
  | imm value => exact ((blind_pure _).under hkeeps).pairs
  | mem addr =>
    refine (Blind.under ((blind_cpuReadWord _).bind fun _ => (blind_cpuReadWord _).bind fun _ =>
      .ite ?_ (blind_pure _)) hkeeps).pairs
    exact (blind_cpuReadWord _).bind fun _ => (blind_cpuReadWord _).bind fun _ => blind_pure _

theorem pairs_readFp (hp : Precise w fps) (o : FpOp) (lenWords : ℕ) :
    Pairs (Under w fps) (Under w fps) (SameView w.faulted) (Near w fps) (readFp o lenWords)
      (readFp o lenWords) := by
  have hwhole (ho : ∀ r, o ≠ .reg r) := (pairs_readWhole hp (.inr ho) lenWords).mono
    fun a b hab => (.inl hab : Near w fps a b)
  cases o with
  | reg r =>
    refine (pairs_getFp hp).bind fun p q hpq => pairs_pure ?_
    split
    · exact hpq.fac r
    · exact .inl rfl
  | imm value => exact hwhole fun _ => FpOp.noConfusion
  | mem addr => exact hwhole fun _ => FpOp.noConfusion

/-- Only mode 0 names an accumulator. -/
theorem decodeFp_memory {spec : BitVec 6} (hmode : spec.extractLsb' 3 3 ≠ (0 : Field3))
    (lenWords : ℕ) : Yields (fun o => ∀ r, o ≠ .reg r) (decodeFp spec lenWords) := by
  have hmem (addr : Word) : Yields (fun o => ∀ r, o ≠ FpOp.reg r) (pure (.mem addr) : M FpOp) :=
    yields_pure fun _ => FpOp.noConfusion
  have himm (v : Word) : Yields (fun o => ∀ r, o ≠ FpOp.reg r) (pure (.imm v) : M FpOp) :=
    yields_pure fun _ => FpOp.noConfusion
  refine .ite (fun h => absurd h hmode) fun _ => .ite ?_ fun _ => .ite (fun _ => .ite ?_ ?_) fun _ =>
    .ite (fun _ => .ite ?_ ?_) fun _ => .ite ?_ fun _ => .ite ?_ fun _ => .ite ?_ ?_
  · exact fun _ => .bind fun _ => hmem _
  · exact fun _ => .bind fun _ => himm _
  · exact fun _ => .bind fun _ => .bind fun _ => hmem _
  · exact fun _ => .bind fun _ => hmem _
  · exact fun _ => .bind fun _ => .bind fun _ => .bind fun _ => hmem _
  · exact fun _ => .bind fun _ => .bind fun _ => hmem _
  · exact fun _ => .bind fun _ => .bind fun _ => .bind fun _ => hmem _
  · exact fun _ => .bind fun _ => .bind fun _ => hmem _
  · exact fun _ => .bind fun _ => .bind fun _ => .bind fun _ => hmem _

/-- A store of a number that is not seen whole writes its high half. -/
theorem pairs_writeFp (o : FpOp) {lenWords : ℕ} {a b : BitVec 64} (h : Near w fps a b)
    (hlen : fps &&& fpsD = 0 → lenWords ≠ 4) :
    Pairs (SameView w) (SameView w) (SameView w.faulted) Eq (writeFp o lenWords a)
      (writeFp o lenWords b) := by
  have hseen := h.seen
  obtain rfl | ⟨⟨-, hsingle⟩, hab⟩ := h
  · exact (blind_writeFp o lenWords a w).pairs
  have hword (i : ℕ) (hi : 32 ≤ i) : a.extractLsb' i 16 = b.extractLsb' i 16 := by
    apply BitVec.eq_of_getLsbD_eq
    intro j hj
    have hbit := congrArg (fun v : BitVec 64 => v.getLsbD (i - 32 + j)) hab
    simp only [BitVec.getLsbD_ushiftRight, show 32 + (i - 32 + j) = i + j by omega] at hbit
    simp only [BitVec.getLsbD_extractLsb', hbit]
  have hshort := hlen hsingle
  cases o with
  | reg r =>
    unfold writeFp whenM
    exact (pairs_setFac r hseen).ite (pairs_pure rfl)
  | imm value =>
    unfold writeFp whenM
    simp only [hword 48 (by decide), hword 32 (by decide), if_neg hshort]
    exact ((blind_cpuWriteWord _ _).bind (fun _ => (blind_cpuWriteWord _ _).bind fun _ =>
      blind_pure _) w).pairs
  | mem addr =>
    unfold writeFp whenM
    simp only [hword 48 (by decide), hword 32 (by decide), if_neg hshort]
    exact ((blind_cpuWriteWord _ _).bind (fun _ => (blind_cpuWriteWord _ _).bind fun _ =>
      blind_pure _) w).pairs

end

/-! ## Instructions that use no accumulator -/

theorem blind_setBothCc (cc : Word) : Blind (setBothCc cc) :=
  (blind_setFps _).bind fun _ => blind_modify fun _ _ => rfl

theorem blind_fpSpecial (word : Word) : Blind (fpSpecial word) :=
  .ite (blind_modify fun _ _ => rfl) <| .ite (blind_setFps _) <| .ite (blind_setFps _) <|
    .ite (blind_setFps _) <| .ite (blind_setFps _) (blind_pure _)

theorem blind_opLdfps (word : Word) : Blind (opLdfps word) :=
  (blind_decodeOperand _ _).bind fun _ => (blind_readOperand _ _).bind fun _ => blind_setFps _

theorem blind_opStfps (word : Word) : Blind (opStfps word) :=
  (blind_setFps _).bind fun _ => (blind_decodeOperand _ _).bind fun _ =>
    blind_getFp (fun _ _ => rfl) fun _ => blind_writeOperand _ _ _

theorem blind_ststWords (addr : Word) :
    Blind (do
      let p ← getFp
      cpuWriteWord addr p.fec
      let p ← getFp
      cpuWriteWord (addr + 2) p.fea) :=
  blind_getFp (fun _ _ => rfl) fun _ => (blind_cpuWriteWord _ _).bind fun _ =>
    blind_getFp (fun _ _ => rfl) fun _ => blind_cpuWriteWord _ _

theorem blind_opStst (word : Word) : Blind (opStst word) := by
  refine (blind_decodeOperand _ _).bind fun dst => ?_
  cases dst with
  | reg r => exact blind_getFp (fun _ _ => rfl) fun _ => blind_setReg _ _
  | imm _ _ => exact blind_ststWords _
  | mem _ => exact blind_ststWords _

theorem blind_readLdcif (o : FpOp) (ilen : ℕ) : Blind (readLdcif o ilen) := by
  cases o with
  | reg r => exact (blind_getReg _).bind fun _ => blind_pure _
  | imm value => exact blind_pure _
  | mem addr =>
    exact (blind_cpuReadWord _).bind fun _ =>
      .ite ((blind_cpuReadWord _).bind fun _ => blind_pure _) (blind_pure _)

theorem blind_opLdcif (word : Word) (ilen : ℕ) : Blind (opLdcif word ilen) :=
  (blind_decodeFp _ _).bind fun _ => (blind_readLdcif _ _).bind fun _ =>
    blind_getFp (fun _ _ => rfl) fun _ => (blind_setFac _ _).bind fun _ => blind_setFps _

theorem blind_writeStcfi (o : FpOp) (ilen : ℕ) (dst : BitVec 32) :
    Blind (writeStcfi o ilen dst) := by
  have hwords (addr : Word) : Blind (do
      cpuWriteWord addr (dst.extractLsb' 16 16)
      whenM (ilen = 2) (cpuWriteWord (addr + 2) (dst.extractLsb' 0 16))) :=
    (blind_cpuWriteWord _ _).bind fun _ => blind_whenM (blind_cpuWriteWord _ _)
  cases o with
  | reg r => exact blind_setReg _ _
  | imm value => exact hwords _
  | mem addr => exact hwords _

/-! ## Instructions that use an accumulator -/

section
variable {w : View} {fps : Word} (hp : Precise w fps)
include hp

/-- The operands of an instruction that reads memory or an accumulator. -/
theorem pairs_operand {f : BitVec 64 → M Unit} (spec : BitVec 6) (lenWords : ℕ)
    (hf : ∀ a b, Near w fps a b →
      Pairs (Under w fps) (SameView w) (SameView w.faulted) Eq (f a) (f b)) :
    Locked (Under w fps) (SameView w) (SameView w.faulted) (do
      let o ← decodeFp spec lenWords
      let v ← readFp o lenWords
      f v) :=
  ((locked_decodeFp spec lenWords).bind_pairs fun o => (pairs_readFp hp o lenWords).bind hf).locked

theorem locked_opFpSingle (word : Word) {len : ℕ} (hlen : fps &&& fpsD = 0 → len ≠ 4) :
    Locked (Under w fps) (SameView w) (SameView w.faulted) (opFpSingle word len) := by
  refine ((locked_decodeFp _ _).bind_pairs fun o => .ite ?_ ?_).locked
  · exact ((blind_writeFp _ _ _).bind fun _ => blind_setFps _).of_under.pairs
  refine (pairs_readFp hp o len).bind fun a b hab => ?_
  have hresult : Near w fps
      (if (word.extractLsb' 6 2 : BitVec 2) = 2 then
        (if fpExp a = 0 then 0 else a &&& ~~~(1#64 <<< 63))
      else if (word.extractLsb' 6 2 : BitVec 2) = 3 then
        (if fpExp a = 0 then 0 else a ^^^ (1#64 <<< 63)) else a)
      (if (word.extractLsb' 6 2 : BitVec 2) = 2 then
        (if fpExp b = 0 then 0 else b &&& ~~~(1#64 <<< 63))
      else if (word.extractLsb' 6 2 : BitVec 2) = 3 then
        (if fpExp b = 0 then 0 else b ^^^ (1#64 <<< 63)) else b) := by
    rw [hab.exp]
    split_ifs
    · exact .inl rfl
    · exact hab.and _
    · exact .inl rfl
    · exact hab.xor _
    · exact hab
  have hwrite := pairs_writeFp o hresult hlen
  intro m m' hm
  refine Pairs.bind (S := SameView w) (V := Eq) ?_ (fun _ _ _ => pairs_setCodes hresult 0) m m' hm.1
  exact hwrite.ite (pairs_pure rfl)

theorem locked_opLdf (word : Word) (len : ℕ) :
    Locked (Under w fps) (SameView w) (SameView w.faulted) (opLdf word len) :=
  pairs_operand hp _ _ fun _ _ hab _ _ hm =>
    ((pairs_setFac _ hab.seen).bind fun _ _ _ => pairs_setCodes hab 0) _ _ hm.1

theorem locked_opStf (word : Word) {len : ℕ} (hlen : fps &&& fpsD = 0 → len ≠ 4) :
    Locked (Under w fps) (SameView w) (SameView w.faulted) (opStf word len) :=
  ((locked_decodeFp _ _).bind_pairs fun o => (pairs_getFp hp).bind fun _ _ hpq _ _ hm =>
    pairs_writeFp o (hpq.fac _) hlen _ _ hm.1).locked

theorem locked_opFpArith (word : Word) (major : BitVec 4) (len : ℕ) (entryPc : Word) :
    Locked (Under w fps) (SameView w) (SameView w.faulted) (opFpArith word major len entryPc) := by
  refine pairs_operand hp _ _ fun a b hab => (pairs_getFp hp).bind fun p q hpq => ?_
  have hsrc : Near w fps (if major = 0o06 ∧ fpExp a ≠ 0 then a ^^^ (1#64 <<< 63) else a)
      (if major = 0o06 ∧ fpExp b ≠ 0 then b ^^^ (1#64 <<< 63) else b) := by
    rw [hab.exp]
    split
    · exact hab.xor _
    · exact hab
  have hfac := hpq.fac (acField word)
  dsimp only
  rw [hpq.left, hpq.right, fpMul_near hfac hsrc, fpAdd_near hfac hsrc]
  exact (blind_finishFp _ _ _).of_under.pairs

theorem locked_opDivf (word : Word) (len : ℕ) (entryPc : Word) :
    Locked (Under w fps) (SameView w) (SameView w.faulted) (opDivf word len entryPc) := by
  refine pairs_operand hp _ _ fun a b hab => ?_
  rw [hab.exp]
  refine .ite (blind_postFpe _ _).of_under.pairs ((pairs_getFp hp).bind fun p q hpq => ?_)
  rw [hpq.left, hpq.right, fpDiv_near (hpq.fac (acField word)) hab]
  exact (blind_finishFp _ _ _).of_under.pairs

theorem locked_opModf (word : Word) (len : ℕ) (entryPc : Word) :
    Locked (Under w fps) (SameView w) (SameView w.faulted) (opModf word len entryPc) := by
  refine pairs_operand hp _ _ fun a b hab => (pairs_getFp hp).bind fun p q hpq => ?_
  rw [hpq.left, hpq.right, fpMod_near (hpq.fac (acField word)) hab]
  exact ((blind_setFac _ _).bind fun _ => blind_finishFp _ _ _).of_under.pairs

theorem locked_opCmpf (word : Word) (len : ℕ) :
    Locked (Under w fps) (SameView w) (SameView w.faulted) (opCmpf word len) := by
  refine pairs_operand hp _ _ fun a b hab => (pairs_getFp hp).bind fun p q hpq => ?_
  rw [hpq.left, hpq.right, fpCmp_near (hpq.fac (acField word)) hab]
  exact ((blind_setFps _).bind fun _ => blind_whenM (blind_setFac _ _)).of_under.pairs

/-- LDCff' with an operand in memory, or with all of an accumulator seen. -/
theorem locked_opLdcff (word : Word) (olen : ℕ) (entryPc : Word)
    (hreg : w.fac = id ∨ (dstSpec word).extractLsb' 3 3 ≠ (0 : Field3)) :
    Locked (Under w fps) (SameView w) (SameView w.faulted) (opLdcff word olen entryPc) := by
  have hdecode : Yields (fun o => w.fac = id ∨ ∀ r, o ≠ .reg r) (decodeFp (dstSpec word) olen) := by
    obtain hid | hmode := hreg
    · exact fun _ _ _ _ => .inl hid
    · exact fun m o m' h => .inr (decodeFp_memory hmode olen m o m' h)
  refine Pairs.locked (((locked_decodeFp _ _).yielding hdecode).bind ?_)
  rintro o _ ⟨rfl, ho⟩
  refine (pairs_readWhole hp ho olen).bind ?_
  rintro v _ rfl
  exact (blind_getFp (fun _ _ => rfl) fun _ => blind_finishFp _ _ _).of_under.pairs

theorem locked_opStcff (word : Word) (olen : ℕ) (entryPc : Word) :
    Locked (Under w fps) (SameView w) (SameView w.faulted) (opStcff word olen entryPc) := by
  refine ((pairs_getFp hp).bind fun p q hpq => ?_).locked
  have hfac := hpq.fac (acField word)
  have hvalue : (if fps &&& fpsD = 0 then p.fac (acField word) &&& 0xFFFFFFFF00000000
      else p.fac (acField word)) = if fps &&& fpsD = 0 then q.fac (acField word) &&& 0xFFFFFFFF00000000
      else q.fac (acField word) := by
    obtain heq | ⟨⟨-, hsingle⟩, hhigh⟩ := hfac
    · rw [heq]
    · rw [if_pos hsingle, if_pos hsingle, and_highMask, and_highMask, highHalf, hhigh]
      rfl
  dsimp only
  rw [hpq.left, hpq.right, hvalue]
  exact ((blind_decodeFp _ _).bind fun _ => (blind_writeFp _ _ _).bind fun _ =>
    (blind_setFps _).bind fun _ => blind_whenM (blind_postFpe _ _)).of_under.pairs

theorem locked_opLdexp (word : Word) (entryPc : Word) :
    Locked (Under w fps) (SameView w) (SameView w.faulted) (opLdexp word entryPc) := by
  have hdecode : Locked (Under w fps) (Under w fps) (SameView w.faulted)
      (decodeOperand (dstSpec word) false) :=
    (blind_decodeOperand _ _).under (keepsFp_operand (operand_decodeOperand _ _))
  have hread (o : Operand) : Locked (Under w fps) (Under w fps) (SameView w.faulted)
      (readOperand o false) :=
    (blind_readOperand _ _).under (keepsFp_operand (operand_readOperand _ _))
  refine (hdecode.bind_pairs fun o => (hread o).bind_pairs fun dst =>
    (pairs_getFp hp).bind fun p q hpq => ?_).locked
  have hresult := fpLdexp_near (hpq.fac (acField word)) dst
  rw [hpq.left, hpq.right]
  exact fun _ _ hm => pairs_finishFp _ entryPc hresult _ _ hm.1

theorem locked_opStexp (word : Word) :
    Locked (Under w fps) (SameView w) (SameView w.faulted) (opStexp word) := by
  refine ((pairs_getFp hp).bind fun p q hpq => ?_).locked
  dsimp only
  rw [(hpq.fac (acField word)).exp]
  exact ((blind_setBothCc _).bind fun _ => (blind_decodeOperand _ _).bind fun _ =>
    blind_writeOperand _ _ _).of_under.pairs

theorem locked_opStcfi (word : Word) (ilen : ℕ) (entryPc : Word) :
    Locked (Under w fps) (SameView w) (SameView w.faulted) (opStcfi word ilen entryPc) := by
  refine ((pairs_getFp hp).bind fun p q hpq => ?_).locked
  dsimp only
  rw [hpq.left, hpq.right, fpStcfi_near (hpq.fac (acField word))]
  exact ((blind_setBothCc _).bind fun _ => (blind_decodeFp _ _).bind fun _ =>
    (blind_writeStcfi _ _ _).bind fun _ => blind_whenM (blind_postFpe _ _)).of_under.pairs

/-! ## Every instruction -/

theorem locked_opFp11 (word : Word) (hreg : w.fac = id ∨
      (word.extractLsb' 8 4 = (0o17 : BitVec 4) → (dstSpec word).extractLsb' 3 3 ≠ (0 : Field3))) :
    Locked (Under w fps) (SameView w) (SameView w.faulted) (opFp11 word) := by
  have hextra (ns : BitVec 32) : Locked (Under w fps) (Under w fps) (SameView w.faulted)
      (setEisExtra ns) := (blind_setEisExtra ns).under (keepsFp_modify fun _ => rfl)
  have hget : Locked (Under w fps) (Under w fps) (SameView w.faulted) (getReg regPc) :=
    (blind_getReg regPc).under fun _ => rfl
  have hlen (hsingle : fps &&& fpsD = 0) : fpLen fps ≠ 4 := by
    rw [fpLen, if_neg (not_not.2 hsingle)]
    decide
  refine ((pairs_getFp hp).bind fun p q hpq => ?_).locked
  dsimp only
  rw [hpq.left, hpq.right]
  refine ((hextra _).bind fun _ => hget.bind fun entryPc => .ite ?_ ?_).pairs
  · exact .ite (blind_fpSpecial word).of_under <| .ite (blind_opLdfps word).of_under <|
      .ite (blind_opStfps word).of_under (blind_opStst word).of_under
  · exact .ite (locked_opFpSingle hp word hlen) <| .ite (locked_opLdf hp word _) <|
      .ite (locked_opStf hp word hlen) <| .ite (locked_opFpArith hp word _ _ _) <|
      .ite (locked_opDivf hp word _ _) <| .ite (locked_opModf hp word _ _) <|
      .ite (locked_opCmpf hp word _) <|
      .cond (fun h => locked_opLdcff hp word _ _ (hreg.imp_right fun hmode => hmode h)) fun _ =>
      .ite (locked_opStcff hp word _ _) <| .ite (locked_opLdexp hp word _) <|
      .ite (locked_opStexp hp word) <| .ite (blind_opLdcif word _).of_under
      (locked_opStcfi hp word _ _)

end

/-- LDCff' from an accumulator. -/
structure RegisterLdcff (word : Word) : Prop where
  top : word.extractLsb' 12 4 = (0o17 : BitVec 4)
  major : word.extractLsb' 8 4 = (0o17 : BitVec 4)
  mode : (dstSpec word).extractLsb' 3 3 = (0 : Field3)

theorem execute_fp {word : Word} (h : word.extractLsb' 12 4 = (0o17 : BitVec 4)) :
    execute word = orReserved (·.hasFpp) (opFp11 word) := by
  unfold execute
  rw [h]
  rfl

/-- Every instruction, under a status in which no more of an accumulator is seen than it has. -/
theorem agree_execute {w : View} {fps word : Word} {m m' : Machine} (hp : Precise w fps)
    (hm : Under w fps m m')
    (hreg : w.fac = id ∨ ¬(m.cpu.cfg.hasFpp = true ∧ RegisterLdcff word)) :
    Agree (SameView w) (SameView w.faulted) (execute word m) (execute word m') := by
  by_cases htop : word.extractLsb' 12 4 = (0o17 : BitVec 4)
  · have hrun (m : Machine) : orReserved (·.hasFpp) (opFp11 word) m =
      (if m.cpu.cfg.hasFpp then opFp11 word else doTrap vecReserved) m := rfl
    have hview := congrArg Cpu.cfg hm.1.cpu
    have hcfg : m.cpu.cfg = m'.cpu.cfg := hview
    rw [execute_fp htop, hrun, hrun, ← hcfg]
    cases hfpp : m.cpu.cfg.hasFpp with
    | true =>
      refine locked_opFp11 hp word ?_ m m' hm
      exact hreg.imp_right fun h hmajor hmode => h ⟨hfpp, htop, hmajor, hmode⟩
    | false => exact (blind_doTrap vecReserved).of_under m m' hm
  · have hlocked : Locked (Under w fps) (SameView w) (SameView w.faulted) (execute word) :=
      .ite (blind_opMov _ _).of_under <| .ite (blind_opCmp _ _).of_under <|
      .ite (blind_opBit _ _).of_under <| .ite (blind_opBic _ _).of_under <|
      .ite (blind_opBis _ _).of_under <| .ite (blind_opAdd _).of_under <|
      .ite (blind_opMov _ _).of_under <| .ite (blind_opCmp _ _).of_under <|
      .ite (blind_opBit _ _).of_under <| .ite (blind_opBic _ _).of_under <|
      .ite (blind_opBis _ _).of_under <| .ite (blind_opSub _).of_under <|
      .cond (fun h => absurd h htop) fun _ => (blind_decodeMisc word).of_under
    exact hlocked m m' hm

end Pdp11
