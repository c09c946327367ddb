import Pdp11.Lib.Lockstep
import Pdp11.StepEffects
import Pdp11.ScratchDevices

namespace Pdp11

open FaultState Lockstep

/-! A call of the step reads no scratch variable it has not written itself. -/

/-- The same machine and events, as far as they are seen. -/
structure SameView (w : View) (m m' : Machine) : Prop where
  cpu : view w m.cpu = view w m'.cpu
  events : m.events = m'.events

/-- The view after a fault, which records its vector. -/
abbrev View.faulted (w : View) : View := { w with vec := id }

/-- Two machines that are seen alike stay so through `x`, with the same outcome. -/
abbrev Blind {α : Type} (x : M α) : Prop :=
  ∀ w, Locked (SameView w) (SameView w) (SameView w.faulted) x

/-! ## Primitive programs -/

section Primitive

variable {α : Type}

theorem blind_pure (a : α) : Blind (pure a : M α) := fun _ => locked_pure a

theorem Blind.bind {β : Type} {x : M α} {f : α → M β} (hx : Blind x) (hf : ∀ a, Blind (f a)) :
    Blind (x >>= f) :=
  fun w => (hx w).bind fun a => hf a w

theorem Blind.ite {c : Prop} [Decidable c] {x y : M α} (hx : Blind x) (hy : Blind y) :
    Blind (if c then x else y) :=
  fun w => (hx w).ite (hy w)

theorem blind_whenM {c : Prop} [Decidable c] {act : M Unit} (h : Blind act) :
    Blind (whenM c act) := h.ite (blind_pure ())

section Locked

variable {w w' : View} {E : Machine → Machine → Prop}

/-- A program that reads the state but no dead scratch variable of it. -/
theorem locked_get {f : Cpu → M α} (hf : ∀ s, f (view w s) = f s)
    (h : ∀ s, Locked (SameView w) (SameView w') E (f s)) :
    Locked (SameView w) (SameView w') E (getCpu >>= f) := by
  intro m m' hm
  have hs : f m.cpu = f m'.cpu := by
    rw [← hf m.cpu, hm.cpu, hf]
  have hx : (getCpu >>= f) m = f m'.cpu m := congrFun hs m
  rw [hx]
  exact h m'.cpu m m' hm

theorem locked_modify {f : Cpu → Cpu} (hf : ∀ s, f (view w s) = view w' (f s)) :
    Locked (SameView w) (SameView w') E (modifyCpu f) := by
  intro m m' hm
  refine .ok () ⟨?_, hm.events⟩
  show view w' (f m.cpu) = view w' (f m'.cpu)
  rw [← hf, hm.cpu, hf]

end Locked

theorem blind_get {f : Cpu → M α} (hf : ∀ w s, f (view w s) = f s) (h : ∀ s, Blind (f s)) :
    Blind (getCpu >>= f) :=
  fun w => locked_get (hf w) fun s => h s w

theorem blind_modify {f : Cpu → Cpu} (hf : ∀ w s, f (view w s) = view w (f s)) :
    Blind (modifyCpu f) :=
  fun w => locked_modify (hf w)

theorem blind_lift {f : Cpu → α × Cpu} (hf : ∀ w s, f (view w s) = viewSnd w (f s)) :
    Blind (liftCpu f) := by
  intro w m m' hm
  have hv : (f m.cpu).1 = (f m'.cpu).1 := by
    have h := congrArg (fun s => (f s).1) hm.cpu
    simpa only [hf, viewSnd] using h
  have hs : view w (f m.cpu).2 = view w (f m'.cpu).2 := by
    have h := congrArg (fun s => (f s).2) hm.cpu
    simpa only [hf, viewSnd] using h
  have hx : liftCpu f m = .ok (f m'.cpu).1 { m with cpu := (f m.cpu).2 } := by
    rw [← hv]
    rfl
  rw [hx]
  exact .ok _ ⟨hs, hm.events⟩

theorem blind_emit (e : Event) : Blind (emit e) :=
  fun _ _ _ hm => .ok () ⟨hm.cpu, congrArg (· ++ [e]) hm.events⟩

/-- A fault records its vector, and that is what the handler reads. -/
theorem blind_fault (vector : Word) : Blind (cpuBusFault vector : M α) := by
  intro w m m' hm
  refine .error () ⟨?_, congrArg (· ++ [_]) hm.events⟩
  exact congrArg (fun s : Cpu => { s with ctl.abortVec := vector }) hm.cpu

theorem blind_setEisExtra (ns : BitVec 32) : Blind (setEisExtra ns) := by
  intro w m m' hm
  refine .ok () ⟨?_, hm.events⟩
  exact congrArg (fun s : Cpu =>
    { s with acct.eisExtraNs := w.extra ns }) hm.cpu

theorem blind_getReg (i : Field3) : Blind (getReg i) :=
  blind_get (fun _ _ => rfl) fun _ => blind_pure _

theorem blind_setReg (i : Field3) (value : Word) : Blind (setReg i value) :=
  blind_modify fun _ _ => rfl

theorem blind_addReg (i : Field3) (delta : Word) : Blind (addReg i delta) :=
  blind_modify fun _ _ => rfl

end Primitive

/-! ## Memory references -/

theorem blind_ioRead (a : Word) : Blind (ioRead a) := by
  intro w m m' hm
  have hread : (ioReadReg m.cpu a).map (viewSnd w) = (ioReadReg m'.cpu a).map (viewSnd w) := by
    rw [← ioReadReg_view, hm.cpu, ioReadReg_view]
  rw [ioRead_apply, ioRead_apply]
  cases hp : ioReadReg m.cpu a with
  | none =>
    rw [hp] at hread
    rw [Option.map_eq_none_iff.1 hread.symm]
    exact blind_fault vecBus w m m' hm
  | some p =>
    rw [hp] at hread
    obtain ⟨v, t⟩ := p
    obtain ⟨⟨w, u⟩, hq, hpq⟩ := Option.map_eq_some_iff.1 hread.symm
    obtain ⟨rfl, hs⟩ := Prod.mk.inj hpq
    rw [hq]
    exact .ok _ ⟨hs.symm, hm.events⟩

theorem blind_ioWrite (a value : Word) : Blind (ioWrite a value) := by
  intro w m m' hm
  have hwrite : (ioWriteReg m.cpu a value).map (view w) =
      (ioWriteReg m'.cpu a value).map (view w) := by
    rw [← ioWriteReg_view, hm.cpu, ioWriteReg_view]
  have he : m.events ++ [Event.ioWrite a value] = m'.events ++ [Event.ioWrite a value] :=
    congrArg (· ++ _) hm.events
  rw [ioWrite_apply, ioWrite_apply]
  cases hs : ioWriteReg m.cpu a value with
  | none =>
    rw [hs] at hwrite
    rw [Option.map_eq_none_iff.1 hwrite.symm]
    exact blind_fault vecBus w _ _ ⟨hm.cpu, he⟩
  | some s =>
    rw [hs] at hwrite
    obtain ⟨t, ht, hst⟩ := Option.map_eq_some_iff.1 hwrite.symm
    rw [ht]
    exact .ok () ⟨hst.symm, he⟩

theorem blind_mmuRelocate (va : Word) (isWrite : Bool) (mode : Mode) (dspace : Bool) :
    Blind (mmuRelocate va isWrite mode dspace) := by
  refine blind_get (fun _ _ => rfl) fun s => .ite (.ite ?_ ?_) (blind_pure _)
  · refine (blind_modify fun w s => ?_).bind fun _ => blind_fault _
    exact view_ite rfl rfl
  · exact (blind_modify fun _ _ => rfl).bind fun _ => blind_pure _

theorem blind_checkNxm (pa : PhysAddr) : Blind (checkNxm pa) :=
  blind_get (fun _ _ => rfl) fun _ => blind_whenM (blind_fault _)

theorem blind_cpuReadWordGen (va : Word) (mode : Mode) (dspace : Bool) :
    Blind (cpuReadWordGen va mode dspace) := by
  refine (blind_whenM (blind_fault _)).bind fun _ => (blind_mmuRelocate _ _ _ _).bind fun pa =>
    .ite (blind_ioRead _) ?_
  exact (blind_checkNxm _).bind fun _ => (blind_modify fun _ _ => rfl).bind fun _ =>
    blind_get (fun _ _ => rfl) fun _ => blind_pure _

theorem blind_cpuWriteWordMode (va : Word) (mode : Mode) (dspace : Bool) (value : Word) :
    Blind (cpuWriteWordMode va mode dspace value) := by
  refine (blind_whenM (blind_fault _)).bind fun _ => (blind_mmuRelocate _ _ _ _).bind fun pa =>
    .ite (blind_ioWrite _ _) ?_
  exact (blind_checkNxm _).bind fun _ => blind_modify fun _ _ => rfl

theorem blind_cpuFetchWord (va : Word) : Blind (cpuFetchWord va) :=
  blind_get (fun _ _ => rfl) fun _ => blind_cpuReadWordGen _ _ _

theorem blind_cpuReadWord (va : Word) : Blind (cpuReadWord va) :=
  blind_get (fun _ _ => rfl) fun _ => blind_cpuReadWordGen _ _ _

theorem blind_cpuWriteWord (va value : Word) : Blind (cpuWriteWord va value) :=
  blind_get (fun _ _ => rfl) fun _ => blind_cpuWriteWordMode _ _ _ _

theorem blind_cpuReadByte (va : Word) : Blind (cpuReadByte va) := by
  refine blind_get (fun _ _ => rfl) fun s => (blind_mmuRelocate _ _ _ _).bind fun pa => .ite ?_ ?_
  · exact (blind_ioRead _).bind fun _ => blind_pure _
  · exact (blind_checkNxm _).bind fun _ => (blind_modify fun _ _ => rfl).bind fun _ =>
      blind_get (fun _ _ => rfl) fun _ => blind_pure _

theorem blind_cpuWriteByte (va : Word) (value : Byte) : Blind (cpuWriteByte va value) := by
  refine blind_get (fun _ _ => rfl) fun s => (blind_mmuRelocate _ _ _ _).bind fun pa => .ite ?_ ?_
  · exact (blind_ioRead _).bind fun _ => blind_ioWrite _ _
  · exact (blind_checkNxm _).bind fun _ => blind_modify fun _ _ => rfl

theorem blind_checkStackLimit (sp : Word) : Blind (checkStackLimit sp) := by
  refine blind_get (fun _ _ => rfl) fun s => .ite (blind_pure _) <| .ite (blind_pure _) <|
    .ite (blind_modify fun _ _ => rfl) <| .ite (.ite (blind_modify fun _ _ => rfl) ?_)
    (blind_pure _)
  exact (blind_modify fun _ _ => rfl).bind fun _ => blind_fault _

/-! ## Condition codes -/

section Codes

variable {w : View} {s t : Cpu}

theorem setFlag_view (flag : Word) (on : Bool) (h : t = view w s) :
    setFlag t flag on = view w (setFlag s flag on) := by
  subst h
  exact view_ite rfl rfl

theorem setNz_view (result : Word) (bytemode : Bool) (h : t = view w s) :
    setNz t result bytemode = view w (setNz s result bytemode) :=
  setFlag_view _ _ (setFlag_view _ _ h)

theorem setVFromNc_view (h : t = view w s) : setVFromNc t = view w (setVFromNc s) := by
  subst h
  exact setFlag_view _ _ rfl

theorem setNzV0_view (result : Word) (bytemode : Bool) (h : t = view w s) :
    setNzV0 t result bytemode = view w (setNzV0 s result bytemode) :=
  setFlag_view _ _ (setNz_view _ _ h)

theorem setNzvc_view (n z v c : Bool) (h : t = view w s) :
    setNzvc t n z v c = view w (setNzvc s n z v c) :=
  setFlag_view _ _ <| setFlag_view _ _ <| setFlag_view _ _ <| setFlag_view _ _ h

theorem aluAdd_view (x y : Word) (bytemode : Bool) (s : Cpu) :
    aluAdd (view w s) x y bytemode = viewSnd w (aluAdd s x y bytemode) :=
  Prod.ext rfl <| setFlag_view _ _ <| setFlag_view _ _ <| setNz_view _ _ rfl

theorem aluSub_view (x y : Word) (bytemode : Bool) (s : Cpu) :
    aluSub (view w s) x y bytemode = viewSnd w (aluSub s x y bytemode) :=
  Prod.ext rfl <| setFlag_view _ _ <| setFlag_view _ _ <| setNz_view _ _ rfl

/-- The result and the store flag, with the state beside them. -/
def viewAlu (w : View) (out : Word × Bool × Cpu) : Word × Bool × Cpu :=
  (out.1, out.2.1, view w out.2.2)

theorem viewAlu_ite {c : Prop} [Decidable c] {x x' y y' : Word × Bool × Cpu}
    (hx : x' = viewAlu w x) (hy : y' = viewAlu w y) :
    (if c then x' else y') = viewAlu w (if c then x else y) := by
  split
  · exact hx
  · exact hy

theorem singleOpAlu_view (base : BitVec 9) (d : Word) (bytemode : Bool) (s : Cpu) :
    singleOpAlu (view w s) base d bytemode = viewAlu w (singleOpAlu s base d bytemode) := by
  have swab {u v : Cpu} (h : v = view w u) :
      (if v.cfg.model ≠ .m1120 then setFlag v pswV false else v) =
        view w (if u.cfg.model ≠ .m1120 then setFlag u pswV false else u) := by
    subst h
    exact view_ite (setFlag_view _ _ rfl) rfl
  have alu {u v : Cpu} (result : Word) (store : Bool) (h : v = view w u) :
      (result, store, v) = viewAlu w (result, store, u) := by
    rw [h]
    rfl
  refine viewAlu_ite (alu _ _ <| setFlag_view _ _ <| setFlag_view _ _ <| setFlag_view _ _ <|
    setFlag_view _ _ rfl) ?_ -- CLR
  refine viewAlu_ite (alu _ _ <| setFlag_view _ _ <| setFlag_view _ _ <|
    setNz_view _ _ rfl) ?_ -- COM
  refine viewAlu_ite (alu _ _ <| setFlag_view _ _ <| setNz_view _ _ rfl) ?_ -- INC
  refine viewAlu_ite (alu _ _ <| setFlag_view _ _ <| setNz_view _ _ rfl) ?_ -- DEC
  refine viewAlu_ite (alu _ _ <| setFlag_view _ _ <| setFlag_view _ _ <|
    setNz_view _ _ rfl) ?_ -- NEG
  refine viewAlu_ite (alu _ _ <| setFlag_view _ _ <| setFlag_view _ _ <|
    setNz_view _ _ rfl) ?_ -- ADC
  refine viewAlu_ite (alu _ _ <| setFlag_view _ _ <| setFlag_view _ _ <|
    setNz_view _ _ rfl) ?_ -- SBC
  refine viewAlu_ite (alu _ _ <| setFlag_view _ _ <| setFlag_view _ _ <|
    setNz_view _ _ rfl) ?_ -- TST
  refine viewAlu_ite (alu _ _ <| setVFromNc_view <| setNz_view _ _ <|
    setFlag_view _ _ rfl) ?_ -- ROR
  refine viewAlu_ite (alu _ _ <| setVFromNc_view <| setNz_view _ _ <|
    setFlag_view _ _ rfl) ?_ -- ROL
  refine viewAlu_ite (alu _ _ <| setVFromNc_view <| setNz_view _ _ <|
    setFlag_view _ _ rfl) ?_ -- ASR
  refine viewAlu_ite (alu _ _ <| setVFromNc_view <| setNz_view _ _ <|
    setFlag_view _ _ rfl) ?_ -- ASL
  refine viewAlu_ite (alu _ _ <| setFlag_view _ _ <| swab <| setFlag_view _ _ <|
    setFlag_view _ _ rfl) ?_ -- SWAB
  exact viewAlu_ite (alu _ _ <| setFlag_view _ _ <| setFlag_view _ _ rfl) rfl -- SXT

end Codes

/-! ## Operands -/

theorem blind_setNzV0 (result : Word) (bytemode : Bool) :
    Blind (modifyCpu fun s => setNzV0 s result bytemode) :=
  blind_modify fun _ _ => setNzV0_view _ _ rfl

theorem blind_track (reg : Field3) (delta : Word) : Blind (modifyCpu (mmr1Track reg delta)) :=
  blind_modify fun _ _ => view_ite rfl rfl

theorem blind_fetch : Blind fetch :=
  (blind_getReg _).bind fun _ => (blind_cpuFetchWord _).bind fun _ =>
    (blind_addReg _ _).bind fun _ => blind_pure _

theorem blind_checkDecrement (reg : Field3) : Blind (checkDecrement reg) :=
  (blind_getReg _).bind fun _ => blind_whenM (blind_checkStackLimit _)

theorem blind_decodeOperand (spec : BitVec 6) (bytemode : Bool) :
    Blind (decodeOperand spec bytemode) := by
  refine .ite (blind_pure _) (.ite ?_ (.ite (.ite ?_ ?_) (.ite (.ite ?_ ?_) (.ite ?_ (.ite ?_
    (.ite ?_ ?_))))))
  · exact (blind_getReg _).bind fun _ => blind_pure _
  · exact (blind_getReg _).bind fun _ => blind_fetch.bind fun _ => blind_pure _
  · exact (blind_getReg _).bind fun _ => (blind_addReg _ _).bind fun _ =>
      (blind_track _ _).bind fun _ => blind_pure _
  · exact blind_fetch.bind fun _ => blind_pure _
  · exact (blind_getReg _).bind fun _ => (blind_cpuReadWord _).bind fun _ =>
      (blind_addReg _ _).bind fun _ => (blind_track _ _).bind fun _ => blind_pure _
  · exact (blind_addReg _ _).bind fun _ => (blind_getReg _).bind fun _ =>
      (blind_track _ _).bind fun _ => (blind_checkDecrement _).bind fun _ => blind_pure _
  · exact (blind_addReg _ _).bind fun _ => (blind_checkDecrement _).bind fun _ =>
      (blind_getReg _).bind fun _ => (blind_cpuReadWord _).bind fun _ =>
      (blind_track _ _).bind fun _ => blind_pure _
  · exact blind_fetch.bind fun _ => (blind_getReg _).bind fun _ => blind_pure _
  · exact blind_fetch.bind fun _ => (blind_getReg _).bind fun _ =>
      (blind_cpuReadWord _).bind fun _ => blind_pure _

theorem blind_readOperand (op : Operand) (bytemode : Bool) : Blind (readOperand op bytemode) := by
  cases op with
  | reg r => exact (blind_getReg r).bind fun _ => blind_pure _
  | imm value addr => exact blind_pure _
  | mem addr =>
    exact .ite ((blind_cpuReadByte _).bind fun _ => blind_pure _) (blind_cpuReadWord _)

theorem blind_writeOperand (op : Operand) (bytemode : Bool) (value : Word) :
    Blind (writeOperand op bytemode value) := by
  cases op with
  | reg r => exact .ite ((blind_getReg r).bind fun _ => blind_setReg _ _) (blind_setReg _ _)
  | imm _ addr => exact .ite (blind_cpuWriteByte _ _) (blind_cpuWriteWord _ _)
  | mem addr => exact .ite (blind_cpuWriteByte _ _) (blind_cpuWriteWord _ _)

theorem blind_pushWord (value : Word) : Blind (pushWord value) :=
  (blind_addReg _ _).bind fun _ => (blind_getReg _).bind fun _ =>
    (blind_checkStackLimit _).bind fun _ => (blind_getReg _).bind fun _ => blind_cpuWriteWord _ _

theorem blind_popWord : Blind popWord :=
  (blind_getReg _).bind fun _ => (blind_cpuReadWord _).bind fun _ =>
    (blind_addReg _ _).bind fun _ => blind_pure _

/-! ## Traps -/

theorem blind_doTrap (vector : Word) : Blind (doTrap vector) := by
  refine blind_get (fun _ _ => rfl) fun s => (blind_emit _).bind fun _ =>
    (blind_cpuReadWordGen _ _ _).bind fun _ => (blind_cpuReadWordGen _ _ _).bind fun _ => ?_
  refine (blind_modify fun _ _ => putPsw_view _ rfl).bind fun _ =>
    (blind_modify fun _ _ => rfl).bind fun _ => (blind_pushWord _).bind fun _ =>
    (blind_pushWord _).bind fun _ => (blind_modify fun _ _ => rfl).bind fun _ => ?_
  exact (blind_setReg _ _).bind fun _ => (blind_modify fun _ _ => rfl).bind fun _ =>
    blind_get (fun _ _ => rfl) fun _ => blind_whenM (blind_checkStackLimit _)

theorem blind_opRti (isRtt : Bool) : Blind (opRti isRtt) :=
  blind_popWord.bind fun _ => (blind_setReg _ _).bind fun _ => blind_popWord.bind fun _ =>
    (blind_modify fun _ _ => putPsw_view _ rfl).bind fun _ => blind_modify fun _ _ => view_ite rfl rfl

/-! ## Double and single operand instructions -/

theorem blind_decodeDouble (word : Word) (bytemode : Bool) : Blind (decodeDouble word bytemode) :=
  (blind_decodeOperand _ _).bind fun _ => (blind_readOperand _ _).bind fun _ =>
    (blind_decodeOperand _ _).bind fun _ => (blind_readOperand _ _).bind fun _ => blind_pure _

theorem blind_writeMov (dst : Operand) (bytemode : Bool) (value : Word) :
    Blind (writeMov dst bytemode value) := by
  unfold writeMov
  split
  · exact blind_setReg _ _
  · exact blind_writeOperand _ _ _

theorem blind_opMov (word : Word) (bytemode : Bool) : Blind (opMov word bytemode) :=
  (blind_decodeOperand _ _).bind fun _ => (blind_readOperand _ _).bind fun _ =>
    (blind_decodeOperand _ _).bind fun _ => (blind_writeMov _ _ _).bind fun _ => blind_setNzV0 _ _

theorem blind_opCmp (word : Word) (bytemode : Bool) : Blind (opCmp word bytemode) :=
  (blind_decodeDouble _ _).bind fun _ => blind_modify fun _ _ =>
    congrArg Prod.snd (aluSub_view _ _ _ _)

theorem blind_opAdd (word : Word) : Blind (opAdd word) :=
  (blind_decodeDouble _ _).bind fun _ => (blind_lift fun _ _ => aluAdd_view _ _ _ _).bind fun _ =>
    blind_writeOperand _ _ _

theorem blind_opSub (word : Word) : Blind (opSub word) :=
  (blind_decodeDouble _ _).bind fun _ => (blind_lift fun _ _ => aluSub_view _ _ _ _).bind fun _ =>
    blind_writeOperand _ _ _

theorem blind_opBit (word : Word) (bytemode : Bool) : Blind (opBit word bytemode) :=
  (blind_decodeDouble _ _).bind fun _ => blind_setNzV0 _ _

theorem blind_opBic (word : Word) (bytemode : Bool) : Blind (opBic word bytemode) :=
  (blind_decodeDouble _ _).bind fun _ => (blind_writeOperand _ _ _).bind fun _ => blind_setNzV0 _ _

theorem blind_opBis (word : Word) (bytemode : Bool) : Blind (opBis word bytemode) :=
  (blind_decodeDouble _ _).bind fun _ => (blind_writeOperand _ _ _).bind fun _ => blind_setNzV0 _ _

theorem blind_singleOp (word : Word) (base : BitVec 9) (bytemode : Bool) :
    Blind (singleOp word base bytemode) := by
  refine (blind_decodeOperand _ _).bind fun _ => (blind_readOperand _ _).bind fun d =>
    (blind_lift fun w s => ?_).bind fun _ => blind_whenM (blind_writeOperand _ _ _)
  dsimp only
  rw [singleOpAlu_view]
  rfl

theorem blind_opMark (word : Word) : Blind (opMark word) :=
  (blind_getReg _).bind fun _ => (blind_getReg _).bind fun _ => (blind_setReg _ _).bind fun _ =>
    (blind_cpuReadWord _).bind fun _ => (blind_setReg _ _).bind fun _ => blind_setReg _ _

theorem blind_opMfp (word : Word) (dspace : Bool) : Blind (opMfp word dspace) := by
  have hread (pm cm : Mode) (src : Operand) : Blind (readPrevMode pm cm dspace src) := by
    cases src with
    | reg r => exact blind_get (fun _ _ => rfl) fun _ => blind_pure _
    | imm _ _ => exact blind_cpuReadWordGen _ _ _
    | mem _ => exact blind_cpuReadWordGen _ _ _
  exact blind_get (fun _ _ => rfl) fun _ => (blind_decodeOperand _ _).bind fun _ =>
    (hread _ _ _).bind fun _ => (blind_setNzV0 _ _).bind fun _ => blind_pushWord _

theorem blind_opMtp (word : Word) (dspace : Bool) : Blind (opMtp word dspace) := by
  have hwrite (pm cm : Mode) (value : Word) (dst : Operand) :
      Blind (writePrevMode pm cm dspace value dst) := by
    cases dst with
    | reg r => exact blind_modify fun _ _ => view_ite rfl rfl
    | imm _ _ => exact blind_cpuWriteWordMode _ _ _ _
    | mem _ => exact blind_cpuWriteWordMode _ _ _ _
  exact blind_get (fun _ _ => rfl) fun _ => blind_popWord.bind fun _ =>
    (blind_setNzV0 _ _).bind fun _ => (blind_decodeOperand _ _).bind fun _ => hwrite _ _ _ _

/-! ## EIS -/

theorem blind_nzvc (n z v c : Bool) : Blind (modifyCpu fun s => setNzvc s n z v c) :=
  blind_modify fun _ _ => setNzvc_view _ _ _ _ rfl

theorem blind_setFlag (flag : Word) (on : Bool) : Blind (modifyCpu fun s => setFlag s flag on) :=
  blind_modify fun _ _ => setFlag_view _ _ rfl

/-- Four condition codes set in any order. -/
theorem blind_setFlags (f₁ f₂ f₃ f₄ : Word) (b₁ b₂ b₃ b₄ : Bool) :
    Blind (modifyCpu fun s => setFlag (setFlag (setFlag (setFlag s f₁ b₁) f₂ b₂) f₃ b₃) f₄ b₄) :=
  blind_modify fun _ _ => setFlag_view _ _ <| setFlag_view _ _ <| setFlag_view _ _ <|
    setFlag_view _ _ rfl

theorem blind_opMul (word : Word) : Blind (opMul word) :=
  (blind_decodeOperand _ _).bind fun _ => (blind_readOperand _ _).bind fun _ =>
    (blind_getReg _).bind fun _ => (blind_setReg _ _).bind fun _ => (blind_setReg _ _).bind fun _ =>
    blind_nzvc _ _ _ _

theorem blind_opDiv (word : Word) : Blind (opDiv word) := by
  refine (blind_decodeOperand _ _).bind fun _ => (blind_readOperand _ _).bind fun _ =>
    (blind_getReg _).bind fun _ => (blind_getReg _).bind fun _ => .ite (blind_nzvc _ _ _ _) ?_
  refine (blind_setEisExtra _).bind fun _ => .ite (blind_setFlags _ _ _ _ _ _ _ _) <|
    .ite (blind_setFlags _ _ _ _ _ _ _ _) ?_
  exact (blind_setFlag _ _).bind fun _ => (blind_setReg _ _).bind fun _ =>
    (blind_setReg _ _).bind fun _ => blind_modify fun _ _ =>
    setFlag_view _ _ <| setFlag_view _ _ <| setFlag_view _ _ rfl

theorem blind_opAsh (word : Word) : Blind (opAsh word) :=
  (blind_decodeOperand _ _).bind fun _ => (blind_readOperand _ _).bind fun _ =>
    (blind_setEisExtra _).bind fun _ => (blind_getReg _).bind fun _ =>
    (blind_setReg _ _).bind fun _ => blind_modify fun _ _ =>
    setFlag_view _ _ <| setFlag_view _ _ <| setNz_view _ _ rfl

theorem blind_opAshc (word : Word) : Blind (opAshc word) :=
  (blind_decodeOperand _ _).bind fun _ => (blind_readOperand _ _).bind fun _ =>
    (blind_setEisExtra _).bind fun _ => (blind_getReg _).bind fun _ =>
    (blind_getReg _).bind fun _ => (blind_setReg _ _).bind fun _ => (blind_setReg _ _).bind fun _ =>
    blind_nzvc _ _ _ _

theorem blind_opXor (word : Word) : Blind (opXor word) :=
  (blind_decodeOperand _ _).bind fun _ => (blind_readOperand _ _).bind fun _ =>
    (blind_getReg _).bind fun _ => (blind_writeOperand _ _ _).bind fun _ => blind_setNzV0 _ _

/-! ## Control transfer -/

theorem blind_orReserved {cap : Config → Bool} {act : M Unit} (h : Blind act) :
    Blind (orReserved cap act) :=
  blind_get (fun _ _ => rfl) fun _ => .ite h (blind_doTrap _)

theorem blind_opBranch (word : Word) : Blind (opBranch word) :=
  blind_get (fun _ _ => rfl) fun _ => blind_whenM (blind_addReg _ _)

theorem blind_opJmp (word : Word) : Blind (opJmp word) := by
  refine (blind_decodeOperand _ _).bind fun dst => ?_
  cases dst with
  | reg r => exact blind_doTrap _
  | imm _ _ => exact blind_get (fun _ _ => rfl) fun _ => blind_setReg _ _
  | mem _ => exact blind_get (fun _ _ => rfl) fun _ => blind_setReg _ _

theorem blind_jsrLink (reg : Field3) (target : Word) :
    Blind (do
      let link ← getReg reg
      pushWord link
      let pc ← getReg regPc
      setReg reg pc
      setReg regPc target) :=
  (blind_getReg _).bind fun _ => (blind_pushWord _).bind fun _ => (blind_getReg _).bind fun _ =>
    (blind_setReg _ _).bind fun _ => blind_setReg _ _

theorem blind_opJsr (word : Word) : Blind (opJsr word) := by
  refine (blind_decodeOperand _ _).bind fun dst => ?_
  cases dst with
  | reg r => exact blind_doTrap _
  | imm _ _ => exact blind_get (fun _ _ => rfl) fun _ => blind_jsrLink _ _
  | mem _ => exact blind_get (fun _ _ => rfl) fun _ => blind_jsrLink _ _

theorem blind_opRts (word : Word) : Blind (opRts word) :=
  (blind_getReg _).bind fun _ => (blind_setReg _ _).bind fun _ => blind_popWord.bind fun _ =>
    blind_setReg _ _

theorem blind_opSob (word : Word) : Blind (opSob word) :=
  (blind_addReg _ _).bind fun _ => (blind_getReg _).bind fun _ => blind_whenM (blind_addReg _ _)

theorem blind_opSpl (word : Word) : Blind (opSpl word) := blind_modify fun _ _ => view_ite rfl rfl

theorem blind_opMfpt : Blind opMfpt :=
  blind_get (fun _ _ => rfl) fun _ => .ite (blind_setReg _ _) (blind_doTrap _)

theorem blind_opCcops (word : Word) : Blind (opCcops word) := by
  unfold opCcops
  exact blind_modify fun _ _ => rfl

theorem blind_trySingleOp {word : Word} {act : M Unit} (h : trySingleOp word = some act) :
    Blind act := by
  simp only [trySingleOp] at h
  split_ifs at h <;> cases h
  · exact blind_singleOp _ _ _
  · exact blind_orReserved (blind_opMark _)
  · exact blind_opMfp _ _
  · exact blind_opMtp _ _
  · exact blind_singleOp _ _ _
  · exact blind_orReserved (blind_singleOp _ _ _)

theorem blind_decodeMisc (word : Word) : Blind (decodeMisc word) := by
  unfold decodeMisc
  split
  · next act hact => exact blind_trySingleOp hact
  · exact .ite (blind_opBranch _) <| .ite (blind_opJmp _) <| .ite (blind_opRts _) <|
      .ite (blind_orReserved (blind_opSpl _)) <| .ite (blind_opCcops _) <|
      .ite (blind_opJsr _) <| .ite (blind_orReserved (blind_opMul _)) <|
      .ite (blind_orReserved (blind_opDiv _)) <| .ite (blind_orReserved (blind_opAsh _)) <|
      .ite (blind_orReserved (blind_opAshc _)) <| .ite (blind_orReserved (blind_opXor _)) <|
      .ite (blind_orReserved (blind_opSob _)) <| .ite (blind_doTrap _) <|
      .ite (blind_doTrap _) <| .ite (blind_opRti false) <|
      .ite (blind_orReserved (blind_opRti true)) <| .ite blind_opMfpt <|
      .ite (blind_doTrap _) <| .ite (blind_doTrap _) <| .ite (blind_modify fun _ _ => rfl) <|
      .ite (blind_modify fun _ _ => rfl) <| .ite (blind_modify fun _ _ => rfl) <|
      .ite (blind_doTrap _) (blind_pure ())

end Pdp11
