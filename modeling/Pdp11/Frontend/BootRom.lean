import Pdp11.Frontend.Deposits
import Pdp11.DiskTransfer

section

open Stores

namespace Pdp11

open Reachability

/-! The boot ROM of the frontends: it reads the first words of the disk into memory and goes to
them. -/

/-! ## The RK11 and hidden state -/

theorem rkSetError_bare (s : Cpu) (err : Word) : rkSetError (bare s) err = bare (rkSetError s err) := by
  unfold rkSetError
  dsimp only
  rw [apply_ite bare]
  rfl

theorem rkFinish_bare (s : Cpu) : rkFinish (bare s) = bare (rkFinish s) := by
  unfold rkFinish
  dsimp only
  rw [apply_ite bare]
  rfl

theorem rkTransferWord_bare (func : Word) (ma da : BitVec 32) (s : Cpu) (i : ℕ) :
    rkTransferWord func ma da (bare s) i = bare (rkTransferWord func ma da s i) := by
  unfold rkTransferWord
  dsimp only
  rw [apply_ite bare, apply_ite bare, apply_ite bare, ← rkSetError_bare]
  rfl

theorem rkAdvance_bare (ma da wc : BitVec 32) (s : Cpu) :
    rkAdvance ma da wc (bare s) = bare (rkAdvance ma da wc s) := rfl

theorem rkTransfer_bare (s : Cpu) (func : Word) : rkTransfer (bare s) func = bare (rkTransfer s func) := by
  have hfold (ma da : BitVec 32) (n : ℕ) (t : Cpu) :
      (List.range n).foldl (rkTransferWord func ma da) (bare t) =
        bare ((List.range n).foldl (rkTransferWord func ma da) t) :=
    (List.foldl_hom bare fun t i => rkTransferWord_bare func ma da t i)
  unfold rkTransfer
  dsimp only
  rw [← rkAdvance_bare, ← hfold, apply_ite bare, ← rkSetError_bare]
  rfl

/-- A command that passes the checks. -/
def rkRun (func : Word) (wc : BitVec 32) (s : Cpu) : Cpu :=
  let s := if func = rkFuncRead ∨ func = rkFuncWrite ∨ func = rkFuncWchk then rkTransfer s func
    else s
  { s with
    dev.rk.busy := true
    dev.rk.doneNs := s.acct.timeNs + rkBaseNs +
      ((if 0 < wc.toInt then wc else 0) * rkWordNs).setWidth 64 }

theorem rkRun_bare (func : Word) (wc : BitVec 32) (s : Cpu) :
    rkRun func wc (bare s) = bare (rkRun func wc s) := by
  have hheld {t u : Cpu} (h : t = bare u) :
      { t with
        dev.rk.busy := true
        dev.rk.doneNs := t.acct.timeNs + rkBaseNs +
          ((if 0 < wc.toInt then wc else 0) * rkWordNs).setWidth 64 } =
      bare { u with
        dev.rk.busy := true
        dev.rk.doneNs := u.acct.timeNs + rkBaseNs +
          ((if 0 < wc.toInt then wc else 0) * rkWordNs).setWidth 64 } := by
    rw [h]
    rfl
  refine hheld ?_
  rw [apply_ite bare, ← rkTransfer_bare]

/-- What `rkGo` does with an attached drive. -/
def rkChecked (func : Word) (s : Cpu) : Cpu :=
  let sect := if func = rkFuncDreset then 0 else rkGetSect s.dev.rk.rkda
  let cyl := if func = rkFuncDreset then 0 else rkGetCyl s.dev.rk.rkda
  let func := if func = rkFuncDreset then rkFuncSeek else func
  if rkNumsc ≤ sect then rkFinish (rkSetError s rkerNxs)
  else if rkNumcy ≤ cyl then rkFinish (rkSetError s rkerNxc)
  else rkRun func (wordCount s.dev.rk.rkwc) s

theorem rkChecked_bare (func : Word) (s : Cpu) :
    rkChecked func (bare s) = bare (rkChecked func s) := by
  unfold rkChecked
  dsimp only
  rw [apply_ite bare, apply_ite bare, ← rkFinish_bare, ← rkFinish_bare, ← rkSetError_bare,
    ← rkSetError_bare, ← rkRun_bare]
  rfl

theorem rkGo_eq (s : Cpu) : rkGo s =
    (let func := (s.dev.rk.rkcs &&& rkcsFunc) >>> 1
    if func = rkFuncCreset then
      clrInt { s with
        dev.rk.rker := 0
        dev.rk.rkda := 0
        dev.rk.rkba := 0
        dev.rk.rkcs := rkcsDone
        dev.rk.busy := false } .rk
    else if (rkStarted s).dev.rk.disk.isNone ∨ (rkStarted s).dev.rk.rkda &&& rkdaDrive ≠ 0 then
      rkFinish (rkSetError (rkStarted s) rkerNxd)
    else if func = rkFuncWlk then rkFinish (rkStarted s)
    else rkChecked func (rkStarted s)) := rfl

theorem rkGo_bare (s : Cpu) : rkGo (bare s) = bare (rkGo s) := by
  rw [rkGo_eq, rkGo_eq]
  dsimp only
  rw [apply_ite bare, apply_ite bare, apply_ite bare, ← rkFinish_bare, ← rkFinish_bare,
    ← rkSetError_bare, ← rkChecked_bare]
  rfl

/-- A store to RKCS, before the command it may start. -/
def rkStored (s : Cpu) (value : Word) : Cpu :=
  let s := { s with dev.rk.rkcs := s.dev.rk.rkcs &&& rkcsReal }
  let s := if value &&& rkcsIe = 0 then clrInt s .rk
    else if s.dev.rk.rkcs &&& (rkcsDone ||| rkcsIe) = rkcsDone then setInt s .rk
    else s
  { s with dev.rk.rkcs := (s.dev.rk.rkcs &&& ~~~rkcsRw) ||| (value &&& rkcsRw) }

theorem rkWrite_rkcs (s : Cpu) (value : Word) : rkWrite s 0o177404 value =
    if (rkStored s value).dev.rk.rkcs &&& rkcsDone ≠ 0 ∧ value &&& rkcsGo ≠ 0 then
      rkGo (rkStored s value) else rkStored s value := rfl

theorem rkStored_bare (s : Cpu) (value : Word) :
    rkStored (bare s) value = bare (rkStored s value) := by
  have hput {t u : Cpu} (h : t = bare u) :
      { t with dev.rk.rkcs := (t.dev.rk.rkcs &&& ~~~rkcsRw) ||| (value &&& rkcsRw) } =
      bare { u with dev.rk.rkcs := (u.dev.rk.rkcs &&& ~~~rkcsRw) ||| (value &&& rkcsRw) } := by
    rw [h]
    rfl
  refine hput ?_
  rw [apply_ite bare, apply_ite bare]
  rfl

theorem rkWrite_rkcs_bare (value : Word) (s : Cpu) :
    rkWrite (bare s) 0o177404 value = bare (rkWrite s 0o177404 value) := by
  rw [rkWrite_rkcs, rkWrite_rkcs, rkStored_bare, rkGo_bare, apply_ite bare]
  rfl

/-! ## The machine on its way through the ROM -/

/-- The `i`-th word of the ROM. -/
def romPc (i : ℕ) : Word := bootStart + BitVec.ofNat 16 (2 * i)

theorem romPc_succ (i : ℕ) : romPc i + 2 = romPc (i + 1) := by
  rw [romPc, romPc, BitVec.add_assoc, Nat.mul_succ, BitVec.ofNat_add]
  rfl

/-- A drive at the end of its time is done. -/
def rkSettle (now : Time) (rk : Rk11) : Rk11 :=
  if rk.busy ∧ rk.doneNs ≤ now then
    { rk with
      busy := false
      rkcs := rk.rkcs ||| rkcsDone }
  else rk

/-- The program at `pc`, with the registers `r` but for PC. -/
structure BootAt (pc : Word) (r : Field3 → Word) (rk : Rk11) (mem : Mem) (late : ℕ) (p : Plain) :
    Prop where
  cfg : p.cfg = cpuCreate.cfg
  mmr3 : p.mmr3 = 0
  bus : QuietBus p.dev
  at_pc : p.pc = pc
  regs : ∀ i, i ≠ regPc → p.r i = r i
  rk : p.dev.rk = rk
  memory : p.mem = mem
  rom : ∀ i (hi : i < rkBootRom.length),
    memReadWord mem (bootStart.setWidth 32 + BitVec.ofNat 32 i * 2) = rkBootRom[i]
  time : p.time.toNat ≤ late

/-- A step takes every machine that shows `p` to the given point of the program. -/
def Goes (p : Plain) (pc : Word) (r : Field3 → Word) (rk : Rk11) (mem : Mem) (late : ℕ) : Prop :=
  ∃ u, Runs p u ∧ p.time < u.time ∧ BootAt pc r (rkSettle u.time rk) mem late u

section

variable {pc pc' : Word} {r r' : Field3 → Word} {rk rk' : Rk11} {mem mem' : Mem} {late i : ℕ}
  {p q : Plain}

theorem BootAt.loaded (h : BootAt pc r rk mem late p) : p.Loaded bootStart rkBootRom := by
  refine loaded_of_words (by decide) (by decide) ?_ fun i hi => ?_
  · rw [h.cfg]
    decide
  · rw [h.memory]
    exact h.rom i hi

theorem BootAt.word (h : BootAt (romPc i) r rk mem late p) (hi : i < rkBootRom.length) :
    p.Code p.pc rkBootRom[i] := by
  rw [h.at_pc]
  exact h.loaded i hi

theorem BootAt.next (h : BootAt (romPc i) r rk mem late p) (hi : i + 1 < rkBootRom.length) :
    p.Code (p.pc + 2) rkBootRom[i + 1] := by
  rw [h.at_pc, romPc_succ]
  exact h.loaded (i + 1) hi

/-- A word that takes some time, and not much. -/
def Timed (w : Word) : Prop :=
  ∃ ns : BitVec 32, (∀ t, instrNs t w = ns) ∧ 0 < ns.toNat ∧ ns.toNat ≤ 10000

/-- The time of an instruction goes by. -/
theorem BootAt.passes {ns : BitVec 32} (hq : BootAt pc' r' rk' mem' late q) (htime : q.time = p.time)
    (hpos : 0 < ns.toNat) (hle : ns.toNat ≤ 10000) (hlate : late + 10000 < 2 ^ 64) :
    p.time < (q.after ns).time ∧
      BootAt pc' r' (rkSettle (q.after ns).time rk') mem' (late + 10000) (q.after ns) := by
  have hnow := hq.time
  have hafter := Plain.after_time q ns (by omega)
  constructor
  · rw [BitVec.lt_def, hafter, htime]
    omega
  · refine ⟨hq.cfg, hq.mmr3, ?_, hq.at_pc, hq.regs, ?_, hq.memory, hq.rom, ?_⟩
    · exact hq.bus.settleBus
    · show (settleBus (q.after ns).time q.dev).rk = _
      rw [settleBus_rk, rkSettle, settleRk, hq.rk]
      split
      · rfl
      · exact hq.rk
    · omega

/-- The instruction at PC, given what it does before its time goes by. -/
theorem BootAt.goes {w : Word} (h : BootAt (romPc i) r rk mem late p) (hi : i < rkBootRom.length)
    (hw : rkBootRom[i] = w) (ht : Timed w)
    (hexec : Acts (execute w) (p.setR regPc (p.pc + 2)) () q)
    (hq : BootAt pc' r' rk' mem' late q) (htime : q.time = p.time) (hlate : late + 10000 < 2 ^ 64) :
    Goes p pc' r' rk' mem' (late + 10000) := by
  rcases ht with ⟨ns, hns, hpos, hle⟩
  have hword := h.word hi
  rw [hw] at hword
  exact ⟨_, hexec.runs hword ns (fun t _ => hns t) hq.bus, hq.passes htime hpos hle hlate⟩

/-! ### Instructions between registers -/

theorem BootAt.jump (h : BootAt pc r rk mem late p) (x : Word) :
    BootAt x r rk mem late (p.setR regPc x) where
  cfg := h.cfg
  mmr3 := h.mmr3
  bus := h.bus
  at_pc := Plain.setR_self _ _ _
  regs j hj := (Plain.setR_of_ne _ _ hj).trans (h.regs j hj)
  rk := h.rk
  memory := h.memory
  rom := h.rom
  time := h.time

theorem BootAt.setR (h : BootAt pc r rk mem late p) (v : Word) {n : Field3} (hn : n ≠ regPc) :
    BootAt pc (Function.update r n v) rk mem late (p.setR n v) where
  cfg := h.cfg
  mmr3 := h.mmr3
  bus := h.bus
  at_pc := (Plain.setR_of_ne _ _ hn.symm).trans h.at_pc
  regs j hj := by
    by_cases hjn : j = n
    · rw [hjn, Plain.setR_self, Function.update_self]
    · rw [Plain.setR_of_ne _ _ hjn, Function.update_of_ne hjn, h.regs j hj]
  rk := h.rk
  memory := h.memory
  rom := h.rom
  time := h.time

theorem BootAt.codes (h : BootAt pc r rk mem late p) (result : Word) (bytemode : Bool) :
    BootAt pc r rk mem late (p.codes result bytemode) :=
  ⟨h.cfg, h.mmr3, h.bus, h.at_pc, h.regs, h.rk, h.memory, h.rom, h.time⟩

/-- `MOV #v, Rn` -/
theorem BootAt.load {n : Field3} (h : BootAt (romPc i) r rk mem late p) (w v : Word)
    (hi : i + 1 < rkBootRom.length) (hw : rkBootRom[i] = w) (hv : rkBootRom[i + 1] = v)
    (ht : Timed w) (hop : execute w = opMov w false) (hsrc : srcSpec w = 0o27)
    (hmode : (dstSpec w).extractLsb' 3 3 = 0#3) (hreg : (dstSpec w).extractLsb' 0 3 = n)
    (hn : n ≠ regPc) (hlate : late + 10000 < 2 ^ 64) :
    Goes p (romPc (i + 2)) (Function.update r n v) rk mem (late + 10000) := by
  have hnext := h.next hi
  rw [hv] at hnext
  have hexec : Acts (execute w) (p.setR regPc (p.pc + 2)) ()
      ((((p.setR regPc (p.pc + 2)).setR regPc (p.pc + 2 + 2)).setR n v).codes v false) :=
    .mov hop (.decode_immediate hsrc (hnext.congr rfl rfl)) (.read_immediate _ _ _)
      (.decode_reg hmode hreg _) (.write_reg _ _ _)
  have hpc : p.pc + 2 + 2 = romPc (i + 2) := by rw [h.at_pc, romPc_succ, romPc_succ]
  rw [Plain.setR_setR, hpc] at hexec
  exact h.goes (by omega) hw ht hexec (((h.jump _).setR v hn).codes _ _) rfl hlate

/-- `MOV Rm, Rn` -/
theorem BootAt.copy {m n : Field3} (h : BootAt (romPc i) r rk mem late p) (w : Word)
    (hi : i < rkBootRom.length) (hw : rkBootRom[i] = w) (ht : Timed w)
    (hop : execute w = opMov w false) (hsrc : (srcSpec w).extractLsb' 3 3 = 0#3)
    (hm : (srcSpec w).extractLsb' 0 3 = m) (hmpc : m ≠ regPc)
    (hmode : (dstSpec w).extractLsb' 3 3 = 0#3) (hreg : (dstSpec w).extractLsb' 0 3 = n)
    (hn : n ≠ regPc) (hlate : late + 10000 < 2 ^ 64) :
    Goes p (romPc (i + 1)) (Function.update r n (r m)) rk mem (late + 10000) := by
  have hpc : p.pc + 2 = romPc (i + 1) := by rw [h.at_pc, romPc_succ]
  have hvalue : (p.setR regPc (p.pc + 2)).r m = r m := by
    rw [Plain.setR_of_ne _ _ hmpc, h.regs m hmpc]
  have hread := Acts.read_reg m (p.setR regPc (p.pc + 2))
  rw [hvalue] at hread
  have hexec := Acts.mov hop (.decode_reg hsrc hm (p.setR regPc (p.pc + 2))) hread
    (.decode_reg hmode hreg _) (.write_reg _ _ _)
  refine h.goes hi hw ht hexec ?_ rfl hlate
  rw [hpc]
  exact ((h.jump _).setR _ hn).codes _ _

/-- A single-operand instruction on a register. -/
theorem BootAt.alter {result : Word} {n : Field3} {base : BitVec 9} {width : Bool}
    (h : BootAt (romPc i) r rk mem late p) (w : Word) (hi : i < rkBootRom.length) (hw : rkBootRom[i] = w)
    (ht : Timed w) (hop : execute w = singleOp w base false)
    (hmode : (dstSpec w).extractLsb' 3 3 = 0#3) (hreg : (dstSpec w).extractLsb' 0 3 = n)
    (hn : n ≠ regPc)
    (halu : ∀ p, Acts (liftCpu fun s =>
        let out := singleOpAlu s base (r n) false
        ((out.1, out.2.1), out.2.2)) p (result, true) (p.codes result width))
    (hlate : late + 10000 < 2 ^ 64) :
    Goes p (romPc (i + 1)) (Function.update r n result) rk mem (late + 10000) := by
  have hpc : p.pc + 2 = romPc (i + 1) := by rw [h.at_pc, romPc_succ]
  have hvalue : (p.setR regPc (p.pc + 2)).r n = r n := by
    rw [Plain.setR_of_ne _ _ hn, h.regs n hn]
  have hread := Acts.read_reg n (p.setR regPc (p.pc + 2))
  rw [hvalue] at hread
  have hexec := Acts.single hop (.decode_reg hmode hreg _) hread (halu _)
    (.whenM_true rfl (.write_reg n result _))
  refine h.goes hi hw ht hexec ?_ rfl hlate
  rw [hpc]
  exact ((h.jump _).codes result width).setR result hn

/-! ### The registers of the controller -/

theorem rk_addresses {a : Word} (h : isRk11 a = true) :
    a = 0o177400 ∨ a = 0o177402 ∨ a = 0o177404 ∨ a = 0o177406 ∨ a = 0o177410 ∨ a = 0o177412 ∨
      a = 0o177414 ∨ a = 0o177416 := by
  simpa [isRk11] using h

theorem ioReadReg_rk {a : Word} (h : isRk11 a = true) (s : Cpu) :
    ioReadReg s a = some (rkRead s a, s) := by
  have hubm : isUbm s a = false := by
    rcases rk_addresses h with rfl | rfl | rfl | rfl | rfl | rfl | rfl | rfl <;> simp [isUbm]
  rcases rk_addresses h with rfl | rfl | rfl | rfl | rfl | rfl | rfl | rfl <;>
    unfold ioReadReg <;> rw [hubm] <;> rfl

theorem ioWriteReg_rk {a : Word} (h : isRk11 a = true) (v : Word) (s : Cpu) :
    ioWriteReg s a v = some (rkWrite s a v) := by
  have hubm : isUbm s a = false := by
    rcases rk_addresses h with rfl | rfl | rfl | rfl | rfl | rfl | rfl | rfl <;> simp [isUbm]
  rcases rk_addresses h with rfl | rfl | rfl | rfl | rfl | rfl | rfl | rfl <;>
    unfold ioWriteReg <;> rw [hubm] <;> rfl

theorem inIo_rk {a : Word} (h : isRk11 a = true) (s : Cpu) (hoff : ¬mmeOn s) : InIo s a := by
  refine ⟨hoff, ?_, ?_, ?_, ?_, ?_⟩ <;>
    rcases rk_addresses h with rfl | rfl | rfl | rfl | rfl | rfl | rfl | rfl <;> decide

/-- What a program reads from a register of the controller. -/
def Plain.rkReg (p : Plain) (a : Word) : Word := rkRead { cpuCreate with dev := p.dev } a

theorem acts_rkRead {a : Word} (h : isRk11 a = true) (p : Plain) :
    Acts (readOperand (.mem a) false) p (p.rkReg a) p := by
  refine .read_io (inIo_rk h) (ioReadReg_rk h) (fun _ => rfl) ?_
  rintro s rfl
  rfl

theorem acts_rkReadByte {a : Word} (h : isRk11 a = true) (p : Plain) :
    Acts (readOperand (.mem a) true) p (((p.rkReg a &&& 0o377).setWidth 8).setWidth 16) p := by
  refine .readByte_io (inIo_rk h) (ioReadReg_rk h) (fun _ => rfl) ?_
  rintro s rfl
  rfl

/-! ### Stores to the controller -/

/-- A store of `v` at `a` leaves the controller as `rk'` and the memory as `mem'`. -/
def Puts (a v : Word) (rk : Rk11) (rk' : Time → Rk11) (mem mem' : Mem) : Prop :=
  ∀ pc r late p, BootAt pc r rk mem late p →
    ∃ q, Acts (writeOperand (.mem a) false v) p () q ∧ BootAt pc r (rk' p.time) mem' late q ∧
      q.time = p.time

variable {put : Time → Rk11}

/-- `MOV Rm, (Rn)` -/
theorem BootAt.store {m n : Field3} (h : BootAt (romPc i) r rk mem late p) (w : Word)
    (hi : i < rkBootRom.length) (hw : rkBootRom[i] = w) (ht : Timed w)
    (hop : execute w = opMov w false) (hsrc : (srcSpec w).extractLsb' 3 3 = 0#3)
    (hm : (srcSpec w).extractLsb' 0 3 = m) (hmpc : m ≠ regPc)
    (hmode : (dstSpec w).extractLsb' 3 3 = 1#3) (hreg : (dstSpec w).extractLsb' 0 3 = n)
    (hn : n ≠ regPc) (hput : Puts (r n) (r m) rk put mem mem') (hlate : late + 10000 < 2 ^ 64) :
    Goes p (romPc (i + 1)) r (put p.time) mem' (late + 10000) := by
  have hpc : p.pc + 2 = romPc (i + 1) := by rw [h.at_pc, romPc_succ]
  have hjump := h.jump (p.pc + 2)
  have hread := Acts.read_reg m (p.setR regPc (p.pc + 2))
  rw [hjump.regs m hmpc] at hread
  have hdst : Acts (decodeOperand (dstSpec w) false) _ _ _ :=
    .decode_deferred hmode hreg (p.setR regPc (p.pc + 2))
  rw [hjump.regs n hn] at hdst
  rcases hput _ _ _ _ hjump with ⟨q, hwrite, hq, htime⟩
  have hexec := Acts.mov hop (.decode_reg hsrc hm _) hread hdst hwrite
  rw [hpc] at hq
  exact h.goes hi hw ht hexec (hq.codes _ _) htime hlate

/-- `MOV #v, -(Rn)` -/
theorem BootAt.push {n : Field3} (h : BootAt (romPc i) r rk mem late p) (w v : Word)
    (hi : i + 1 < rkBootRom.length) (hw : rkBootRom[i] = w) (hv : rkBootRom[i + 1] = v)
    (ht : Timed w) (hop : execute w = opMov w false) (hsrc : srcSpec w = 0o27)
    (hmode : (dstSpec w).extractLsb' 3 3 = 4#3) (hreg : (dstSpec w).extractLsb' 0 3 = n)
    (hn : n ≠ regPc) (hsp : n ≠ regSp) (hput : Puts (r n - 2) v rk put mem mem')
    (hlate : late + 10000 < 2 ^ 64) :
    Goes p (romPc (i + 2)) (Function.update r n (r n - 2)) (put p.time) mem' (late + 10000) := by
  have hnext := h.next hi
  rw [hv] at hnext
  have hpc : p.pc + 2 + 2 = romPc (i + 2) := by rw [h.at_pc, romPc_succ, romPc_succ]
  have hjump := (h.jump (p.pc + 2)).jump (p.pc + 2 + 2)
  have hdst : Acts (decodeOperand (dstSpec w) false) _ _ _ :=
    .decode_decrement hmode hreg hsp ((p.setR regPc (p.pc + 2)).setR regPc (p.pc + 2 + 2))
  rw [hjump.regs n hn, show operandStep n false = 2 from rfl, ← BitVec.sub_eq_add_neg] at hdst
  rcases hput _ _ _ _ (hjump.setR (r n - 2) hn) with ⟨q, hwrite, hq, htime⟩
  have hexec : Acts (execute w) (p.setR regPc (p.pc + 2)) () (q.codes v false) :=
    .mov hop (.decode_immediate hsrc (hnext.congr rfl rfl)) (.read_immediate _ _ _) hdst hwrite
  rw [hpc] at hq
  exact h.goes (by omega) hw ht hexec (hq.codes _ _) htime hlate

/-- `CLR -(Rn)` -/
theorem BootAt.clear {n : Field3} (h : BootAt (romPc i) r rk mem late p) (w : Word)
    (hi : i < rkBootRom.length) (hw : rkBootRom[i] = w) (ht : Timed w)
    (hop : execute w = singleOp w 0o050 false) (hmode : (dstSpec w).extractLsb' 3 3 = 4#3)
    (hreg : (dstSpec w).extractLsb' 0 3 = n) (hn : n ≠ regPc) (hsp : n ≠ regSp)
    (hrk : isRk11 (r n - 2) = true) (hput : Puts (r n - 2) 0 rk put mem mem')
    (hlate : late + 10000 < 2 ^ 64) :
    Goes p (romPc (i + 1)) (Function.update r n (r n - 2)) (put p.time) mem' (late + 10000) := by
  have hpc : p.pc + 2 = romPc (i + 1) := by rw [h.at_pc, romPc_succ]
  have hjump := h.jump (p.pc + 2)
  have hdst : Acts (decodeOperand (dstSpec w) false) _ _ _ :=
    .decode_decrement hmode hreg hsp (p.setR regPc (p.pc + 2))
  rw [hjump.regs n hn, show operandStep n false = 2 from rfl, ← BitVec.sub_eq_add_neg] at hdst
  have hset := (hjump.setR (r n - 2) hn).codes 0 false
  rcases hput _ _ _ _ hset with ⟨q, hwrite, hq, htime⟩
  have hexec := Acts.single hop hdst (acts_rkRead hrk _) (.alu_clr _ false _)
    (.whenM_true rfl hwrite)
  rw [hpc] at hq
  exact h.goes hi hw ht hexec hq htime hlate

/-- A store, from what the controller does with it. -/
theorem puts_of {a v : Word} (ha : isRk11 a = true)
    (hbare : ∀ s, rkWrite (bare s) a v = bare (rkWrite s a v))
    (hwrite : ∀ s : Cpu, s.dev.rk = rk → s.dev.intReq = 0 → s.mmu.mmr3 = 0 → s.mem = mem →
      rkWrite s a v = { s with
        mem := mem'
        dev.rk := put s.acct.timeNs })
    (hie : ∀ t, (put t).rkcs &&& rkcsIe = 0)
    (hrom : ∀ pa, bootStart.toNat / 2 ≤ (memIndex pa).toNat →
      memReadWord mem' pa = memReadWord mem pa) :
    Puts a v rk put mem mem' := by
  intro pc r late p h
  refine ⟨{ p with
    mem := mem'
    dev.rk := put p.time }, ?_, ?_, rfl⟩
  · refine .write_io (g := fun v s => rkWrite s a v) (inIo_rk ha) (ioWriteReg_rk ha v) ?_ ?_
    · intro s
      rw [hbare, bare_bare]
    · rintro s rfl
      rw [hwrite s h.rk h.bus.requests h.mmr3 h.memory]
      exact ⟨⟨rfl, rfl, rfl, rfl⟩, rfl⟩
  · refine ⟨h.cfg, h.mmr3, ?_, h.at_pc, h.regs, rfl, rfl, fun i hi => ?_, h.time⟩
    · exact ⟨h.bus.requests, h.bus.pirq, h.bus.clk, h.bus.tto, hie _, h.bus.rp, h.bus.tm, h.bus.rl⟩
    · have hlen : rkBootRom.length = 29 := rfl
      have hkey := romKey_toNat (bootStart.setWidth 32) i (by
        show 0o2000 + 2 * i < 2 ^ 22
        omega)
      have hstart : (bootStart.setWidth 32 : PhysAddr).toNat / 2 = bootStart.toNat / 2 := rfl
      unfold romKey at hkey
      rw [hrom _ (by omega)]
      exact h.rom i hi

end

/-! ## The controller during the boot -/

section

variable {d : BitVec 32 → Word} {w : BitVec 32} {rk : Rk11} {mem : Mem}

/-- The RK11 of a reset machine, with a disk attached. -/
def bootRk (d : BitVec 32 → Word) (w : BitVec 32) : Rk11 :=
  { rkcs := 0o200, rker := 0, rkwc := 0, rkba := 0, rkda := 0, rkds := 0, disk := some d,
    diskWords := w, busy := false, doneNs := 0 }

theorem bootRk_quiet (d : BitVec 32 → Word) (w : BitVec 32) : (bootRk d w).rkcs &&& rkcsIe = 0 :=
  show (0o200 : Word) &&& rkcsIe = 0 by decide

theorem puts_rkda : Puts 0o177412 0 (bootRk d w) (fun _ => bootRk d w) mem mem := by
  have hda (s : Cpu) : rkWrite s 0o177412 0 =
      if s.dev.rk.rkcs &&& rkcsDone ≠ 0 then
        { s with dev.rk := { s.dev.rk with rkda := 0 } } else s := rfl
  refine puts_of rfl (fun s => ?_) (fun s hrk _ _ hmem => ?_) (fun _ => bootRk_quiet d w) fun _ _ => rfl
  · rw [hda, hda, apply_ite bare]
    rfl
  · have hdone : s.dev.rk.rkcs &&& rkcsDone ≠ 0 := by
      rw [hrk]
      exact show (0o200 : Word) &&& rkcsDone ≠ 0 by decide
    rw [hda, if_pos hdone, ← hmem, hrk]
    rfl

theorem puts_rkba : Puts 0o177410 0 (bootRk d w) (fun _ => bootRk d w) mem mem := by
  have hba (s : Cpu) : rkWrite s 0o177410 0 =
      { s with dev.rk := { s.dev.rk with rkba := 0 &&& rkbaImp } } := rfl
  refine puts_of rfl (fun s => rfl) (fun s hrk _ _ hmem => ?_) (fun _ => bootRk_quiet d w) fun _ _ => rfl
  rw [hba, ← hmem, hrk]
  rfl

theorem puts_rkwc : Puts 0o177406 0o177000 (bootRk d w)
    (fun _ => { bootRk d w with rkwc := 0o177000 }) mem mem := by
  have hwc (s : Cpu) : rkWrite s 0o177406 0o177000 =
      { s with dev.rk := { s.dev.rk with rkwc := 0o177000 } } := rfl
  refine puts_of rfl (fun s => rfl) (fun s hrk _ _ hmem => ?_) (fun _ => bootRk_quiet d w) fun _ _ => rfl
  rw [hwc, ← hmem, hrk]

/-! ### The read -/

/-- Memory with the first 512 words of the disk in it. -/
def bootBlock (d : BitVec 32 → Word) (mem : Mem) : Mem :=
  (exchange .toMemory (fun i => BitVec.ofNat 21 i) (fun i => BitVec.ofNat 32 i) 512
    { mem := mem, disk := d }).mem

/-- The RK11 at work on the boot block. -/
def readingRk (d : BitVec 32 → Word) (w : BitVec 32) (doneNs : Time) : Rk11 :=
  { rkcs := 4, rker := 0, rkwc := 0, rkba := 0o2000, rkda := 2, rkds := 0, disk := some d,
    diskWords := w, busy := true, doneNs := doneNs }

theorem bootBlock_word (d : BitVec 32 → Word) (mem : Mem) {i : ℕ} (hi : i < 512) :
    bootBlock d mem (BitVec.ofNat 21 i) = d (BitVec.ofNat 32 i) := by
  refine toMemory_last hi fun j hj hij heq => ?_
  have hnat := congrArg BitVec.toNat heq
  rw [BitVec.toNat_ofNat, BitVec.toNat_ofNat] at hnat
  omega

theorem bootBlock_other (d : BitVec 32 → Word) (mem : Mem) {a : BitVec 21} (ha : 512 ≤ a.toNat) :
    bootBlock d mem a = mem a := by
  refine toMemory_kept fun i hi heq => ?_
  have hnat := congrArg BitVec.toNat heq
  rw [BitVec.toNat_ofNat] at hnat
  omega

theorem stored_go {s : Cpu} (hrk : s.dev.rk = { bootRk d w with rkwc := 0o177000 })
    (hint : s.dev.intReq = 0) :
    rkStored s 5 = { s with dev.rk := { bootRk d w with rkwc := 0o177000, rkcs := 0o204 } } := by
  have hclear : s.dev.intReq &&& ~~~(1#32 <<< IntId.rk.bit) = s.dev.intReq := by
    rw [hint]
    exact BitVec.zero_and
  have hstored : rkStored s 5 = { s with
      dev.rk := { s.dev.rk with
        rkcs := (s.dev.rk.rkcs &&& rkcsReal &&& ~~~rkcsRw) ||| (5 &&& rkcsRw) }
      dev.intReq := s.dev.intReq &&& ~~~(1#32 <<< IntId.rk.bit) } := rfl
  have hcs : ((0o200 : Word) &&& rkcsReal &&& ~~~rkcsRw) ||| (5 &&& rkcsRw) = 0o204 := by decide
  rw [hstored, hclear, hrk]
  exact congrArg (fun cs => { s with
    dev.rk := { bootRk d w with
      rkwc := 0o177000
      rkcs := cs } }) hcs

/-- The command under way, before the words move. -/
def startedRk (d : BitVec 32 → Word) (w : BitVec 32) : Rk11 :=
  { bootRk d w with rkwc := 0o177000, rkcs := 4 }

section

variable {t : Cpu} (hrk : t.dev.rk = startedRk d w)

include hrk

theorem started_busAddress : DiskId.rk.busAddress t = 0 := by
  show ((t.dev.rk.rkcs &&& rkcsMex).setWidth 32 <<< 12) ||| t.dev.rk.rkba.setWidth 32 = 0
  rw [hrk]
  exact show ((4 &&& rkcsMex : Word).setWidth 32 <<< 12) ||| (0 : Word).setWidth 32 = 0 by decide

theorem started_startWord : DiskId.rk.startWord t = 0 := by
  show (rkGetTrack t.dev.rk.rkda * rkNumsc + rkGetSect t.dev.rk.rkda) * rkNumwd = 0
  rw [hrk]
  exact show (rkGetTrack 0 * rkNumsc + rkGetSect 0) * rkNumwd = 0 by decide

theorem started_asked : DiskId.rk.asked t = 512 := by
  show wordCount t.dev.rk.rkwc = 512
  rw [hrk]
  exact show wordCount 0o177000 = 512 by decide

theorem started_trimmed (hw : 512 ≤ w) : DiskId.rk.trimmed t = 512 := by
  have hfits : ¬t.dev.rk.diskWords < DiskId.rk.startWord t + DiskId.rk.asked t := by
    rw [started_startWord hrk, started_asked hrk, hrk]
    exact BitVec.not_lt.2 hw
  unfold DiskId.trimmed
  dsimp only
  rw [if_neg hfits, started_asked hrk]

theorem started_exchange (hmmr3 : t.mmu.mmr3 = 0) (hw : 512 ≤ w) :
    DiskId.rk.exchanged .toMemory t = { mem := bootBlock d t.mem, disk := d } := by
  have hcount : loopCount (DiskId.rk.trimmed t) = 512 := by
    rw [started_trimmed hrk hw]
    rfl
  have hstores : DiskId.rk.stores t = { mem := t.mem, disk := d } := by
    have hgetD : DiskId.rk.stores t =
        { mem := t.mem, disk := t.dev.rk.disk.getD fun _ => 0 } := rfl
    rw [hgetD, hrk]
    rfl
  have hphysical : ∀ i < 512, DiskId.rk.physical t i = BitVec.ofNat 21 i := by
    intro i hi
    have hmap (uba : BitVec 32) : unibusMap t uba = uba &&& 0o777777 := by
      refine if_pos (.inr ?_)
      rw [hmmr3]
      exact BitVec.zero_and
    show memIndex (unibusMap t (DiskId.rk.busAddress t + BitVec.ofNat 32 (i * 2))) = _
    rw [started_busAddress hrk, hmap]
    apply BitVec.eq_of_toNat_eq
    have hmask : (0o777777 : BitVec 32).toNat = 2 ^ 18 - 1 := rfl
    rw [memIndex_toNat, BitVec.toNat_and, hmask, Nat.and_two_pow_sub_one_eq_mod, BitVec.toNat_add,
      BitVec.toNat_ofNat, BitVec.toNat_ofNat, show (0 : BitVec 32).toNat = 0 from rfl]
    omega
  have hblock : ∀ i < 512, DiskId.rk.block t i = BitVec.ofNat 32 i := by
    intro i _
    show DiskId.rk.startWord t + BitVec.ofNat 32 i = _
    rw [started_startWord hrk]
    exact BitVec.zero_add _
  unfold DiskId.exchanged
  rw [hcount, hstores]
  have hexchange : exchange .toMemory (DiskId.rk.physical t) (DiskId.rk.block t) 512
      { mem := t.mem, disk := d } = exchange .toMemory (fun i => BitVec.ofNat 21 i)
        (fun i => BitVec.ofNat 32 i) 512 { mem := t.mem, disk := d } :=
    exchange_congr hphysical hblock
  rw [hexchange]
  apply Stores.ext
  · dsimp only
    rw [bootBlock]
  · exact toMemory_disk

end

theorem started_eq {s : Cpu} (hrk : s.dev.rk = { bootRk d w with rkwc := 0o177000, rkcs := 0o204 })
    (hint : s.dev.intReq = 0) : rkStarted s = { s with dev.rk := startedRk d w } := by
  have hclear : s.dev.intReq &&& ~~~(1#32 <<< IntId.rk.bit) = s.dev.intReq := by
    rw [hint]
    exact BitVec.zero_and
  have hstarted : rkStarted s = { s with
      dev.rk := { s.dev.rk with rkcs := s.dev.rk.rkcs &&& ~~~rkcsScp &&& ~~~rkcsDone }
      dev.intReq := s.dev.intReq &&& ~~~(1#32 <<< IntId.rk.bit) } := rfl
  have hcs : (0o204 : Word) &&& ~~~rkcsScp &&& ~~~rkcsDone = 4 := by decide
  rw [hstarted, hclear, hrk]
  exact congrArg (fun cs => { s with
    dev.rk := { bootRk d w with
      rkwc := 0o177000
      rkcs := cs } }) hcs

/-- The registers of the controller move on by 512 words. -/
theorem started_advance {u : Cpu} (hrk : u.dev.rk = startedRk d w) : rkAdvance 0 0 512 u =
    { u with dev.rk := { readingRk d w 0 with busy := false } } := by
  let ma : BitVec 32 := if (4 : Word) &&& rkcsInh = 0 then 0 + 512 * 2 else 0
  let sector : BitVec 32 := (0 + 512 + (rkNumwd - 1)) / rkNumwd
  have hadvance : rkAdvance 0 0 512 { u with dev.rk := startedRk d w } = { u with
      dev.rk := { startedRk d w with
        rkwc := 0o177000 + (512 : BitVec 32).setWidth 16
        rkba := ma.setWidth 16 &&& rkbaImp
        rkcs := (4 &&& ~~~rkcsMex) ||| ((ma >>> 12).setWidth 16 &&& rkcsMex)
        rkda := (0 &&& rkdaDrive) ||| ((sector / rkNumsc) <<< 4).setWidth 16 |||
          (sector % rkNumsc).setWidth 16 } } := rfl
  have hwc : (0o177000 : Word) + (512 : BitVec 32).setWidth 16 = 0 := by decide
  have hba : ma.setWidth 16 &&& rkbaImp = 0o2000 := by decide
  have hcs : (4 &&& ~~~rkcsMex) ||| ((ma >>> 12).setWidth 16 &&& rkcsMex) = 4 := by decide
  have hda : (0 &&& rkdaDrive) ||| ((sector / rkNumsc) <<< 4).setWidth 16 |||
      (sector % rkNumsc).setWidth 16 = 2 := by decide
  have hu : u = { u with dev.rk := startedRk d w } := by rw [← hrk]
  rw [hwc, hba, hcs, hda, ← hu] at hadvance
  exact hadvance

theorem started_transfer {t : Cpu} (hrk : t.dev.rk = startedRk d w) (hmmr3 : t.mmu.mmr3 = 0)
    (hw : 512 ≤ w) : rkHeld t (rkTransfer t rkFuncRead) = { t with
      mem := bootBlock d t.mem
      dev.rk := readingRk d w (t.acct.timeNs + rkBaseNs + 51200) } := by
  have hattached : t.dev.rk.disk.isSome := by
    rw [hrk]
    rfl
  have hover : rkOverrun t = t := by
    refine if_neg ?_
    rw [started_startWord hrk, started_asked hrk, hrk]
    exact BitVec.not_lt.2 hw
  have htransfer : rkTransfer t (rkFunction .toMemory) = _ := rkTransfer_exchange hattached
  have hexchange := started_exchange hrk hmmr3 hw
  unfold DiskId.exchanged at hexchange
  rw [hexchange, hover, started_busAddress hrk, started_startWord hrk, started_trimmed hrk hw]
    at htransfer
  generalize bootBlock d t.mem = block at htransfer ⊢
  have hplaced : (DiskId.rk.withStores t { mem := block, disk := d }).dev.rk = startedRk d w := by
    show { t.dev.rk with disk := some d } = _
    rw [hrk]
    rfl
  rw [started_advance hplaced] at htransfer
  have hns : ((if 0 < (512 : BitVec 32).toInt then (512 : BitVec 32) else 0) * rkWordNs).setWidth 64 =
      (51200 : Time) := by decide
  show rkHeld t (rkTransfer t (rkFunction .toMemory)) = _
  rw [htransfer]
  unfold rkHeld
  rw [started_asked hrk, hns]
  rfl

theorem write_go {s : Cpu} (hrk : s.dev.rk = { bootRk d w with rkwc := 0o177000 })
    (hint : s.dev.intReq = 0) (hmmr3 : s.mmu.mmr3 = 0) (hw : 512 ≤ w) :
    rkWrite s 0o177404 5 = { s with
      mem := bootBlock d s.mem
      dev.rk := readingRk d w (s.acct.timeNs + rkBaseNs + 51200) } := by
  let t : Cpu := { s with dev.rk := { bootRk d w with rkwc := 0o177000, rkcs := 0o204 } }
  have htransfers : DiskId.rk.Transfers .toMemory t :=
    ⟨show ((0o204 : Word) &&& rkcsFunc) >>> 1 = rkFuncRead by decide, rfl,
      show (0 : Word) &&& rkdaDrive = 0 by decide, show rkGetSect 0 < rkNumsc by decide,
      show rkGetCyl 0 < rkNumcy by decide⟩
  have hgo : t.dev.rk.rkcs &&& rkcsDone ≠ 0 ∧ (5 : Word) &&& rkcsGo ≠ 0 :=
    ⟨show (0o204 : Word) &&& rkcsDone ≠ 0 by decide, by decide⟩
  have hstarted : rkStarted t = { s with dev.rk := startedRk d w } := started_eq rfl hint
  -- the words asked for are those of the register before the command
  have hheld (u : Cpu) : rkHeld t u = rkHeld { s with dev.rk := startedRk d w } u := rfl
  rw [rkWrite_rkcs, stored_go hrk hint, if_pos hgo, rkGo_transfer htransfers, hstarted, hheld]
  exact started_transfer rfl hmmr3 hw

theorem puts_go (hw : 512 ≤ w) : Puts 0o177404 5 { bootRk d w with rkwc := 0o177000 }
    (fun t => readingRk d w (t + rkBaseNs + 51200)) mem (bootBlock d mem) := by
  refine puts_of rfl (rkWrite_rkcs_bare 5) (fun s hrk hint hmmr3 hmem => ?_) (fun _ => ?_) ?_
  · rw [write_go hrk hint hmmr3 hw, hmem]
  · exact show (4 : Word) &&& rkcsIe = 0 by decide
  · intro pa hpa
    have hstart : bootStart.toNat / 2 = 512 := rfl
    exact bootBlock_other d mem (by omega)

/-- The RK11 with the boot block read. -/
def loadedRk (d : BitVec 32 → Word) (w : BitVec 32) (doneNs : Time) : Rk11 :=
  { readingRk d w doneNs with
    busy := false
    rkcs := 0o204 }

theorem rkSettle_reading (now doneNs : Time) : rkSettle now (readingRk d w doneNs) =
    if doneNs ≤ now then loadedRk d w doneNs else readingRk d w doneNs := by
  have hcs : (4 : Word) ||| rkcsDone = 0o204 := by decide
  by_cases hdue : doneNs ≤ now
  · rw [if_pos hdue, rkSettle, if_pos ⟨rfl, hdue⟩]
    exact congrArg (fun cs => { readingRk d w doneNs with busy := false, rkcs := cs }) hcs
  · rw [if_neg hdue, rkSettle, if_neg fun h => hdue h.2]

/-- The bit of the control register that the program waits for. -/
theorem rkReg_done {p : Plain} :
    ((((p.rkReg 0o177404 &&& 0o377).setWidth 8).setWidth 16 : Word) &&& widthMsb true) =
      p.dev.rk.rkcs &&& rkcsDone := by
  have hbit (x : Word) : ((((x &&& 0o377).setWidth 8).setWidth 16 : Word) &&& widthMsb true) =
      x &&& rkcsDone := by
    apply BitVec.eq_of_getLsbD_eq
    intro i hi
    interval_cases i <;> simp [widthMsb]
  have hreg : p.rkReg 0o177404 =
      (let cs := p.dev.rk.rkcs &&& rkcsReal
      let cs := if p.dev.rk.rker ≠ 0 then cs ||| rkcsErr else cs
      if p.dev.rk.rker &&& rkerHard ≠ 0 then cs ||| rkcsHerr else cs) := rfl
  have hreal : p.dev.rk.rkcs &&& rkcsReal &&& rkcsDone = p.dev.rk.rkcs &&& rkcsDone := by
    rw [BitVec.and_assoc]
    congr 1
  have herr : (rkcsErr : Word) &&& rkcsDone = 0 := by decide
  have hherr : (rkcsHerr : Word) &&& rkcsDone = 0 := by decide
  rw [hbit, hreg]
  dsimp only
  split_ifs
  · rw [BitMask.or_and_eq _ hherr, BitMask.or_and_eq _ herr, hreal]
  · rw [BitMask.or_and_eq _ hherr, hreal]
  · rw [BitMask.or_and_eq _ herr, hreal]
  · exact hreal

end

/-! ## The poll and the jump -/

section

variable {r : Field3 → Word} {rk : Rk11} {mem : Mem} {late : ℕ} {p : Plain}

/-- `TSTB (R1)` shows in N whether the drive is done. -/
theorem BootAt.poll (h : BootAt (romPc 25) r rk mem late p) (hr1 : r 1 = 0o177404)
    (hlate : late + 10000 < 2 ^ 64) :
    ∃ u, Runs p u ∧ (p.time < u.time ∧
      BootAt (romPc 26) r (rkSettle u.time rk) mem (late + 10000) u) ∧
      u.n = decide (rk.rkcs &&& rkcsDone ≠ 0) := by
  have hword : p.Code p.pc 0o105711 := h.word (by decide)
  have hpc : p.pc + 2 = romPc 26 := by rw [h.at_pc, romPc_succ]
  have hjump := h.jump (p.pc + 2)
  have hdst : Acts (decodeOperand (dstSpec 0o105711) true) _ _ _ :=
    .decode_deferred rfl rfl (p.setR regPc (p.pc + 2))
  rw [hjump.regs _ (by decide), show r ((dstSpec 0o105711).extractLsb' 0 3) = 0o177404 from hr1]
    at hdst
  have hexec : Acts (execute 0o105711) _ () _ :=
    .single rfl hdst (acts_rkReadByte rfl _) (.alu_tst _ true _) (.whenM_false (by decide) _ _)
  refine ⟨_, hexec.runs hword 900 (fun _ _ => rfl) h.bus, ?_, ?_⟩
  · rw [← hpc]
    exact (hjump.codes _ _).passes rfl (by decide) (by decide) hlate
  · show decide (_ &&& widthMsb true ≠ 0) = _
    rw [rkReg_done]
    show decide (p.dev.rk.rkcs &&& rkcsDone ≠ 0) = _
    rw [h.rk]

/-- `BPL` goes back to the poll until the drive is done. -/
theorem BootAt.wait (h : BootAt (romPc 26) r rk mem late p) (hlate : late + 10000 < 2 ^ 64) :
    ∃ u, Runs p u ∧ p.time < u.time ∧ BootAt (if p.n then romPc 27 else romPc 25) r
      (rkSettle u.time rk) mem (late + 10000) u := by
  have hword : p.Code p.pc 0o100376 := h.word (by decide)
  have hns : 0 < (if !p.n then 600 else 300 : BitVec 32).toNat ∧
      (if !p.n then 600 else 300 : BitVec 32).toNat ≤ 10000 := by
    cases p.n <;> decide
  have hpc : (if !p.n then p.pc + 2 + (lowByte 0o100376).signExtend 16 * 2 else p.pc + 2) =
      if p.n then romPc 27 else romPc 25 := by
    rw [h.at_pc]
    cases p.n <;> decide
  have hrun := Runs.branch hword rfl rfl (fun s hn _ => congrArg (!·) hn) h.bus
  rw [hpc] at hrun
  exact ⟨_, hrun, (h.jump _).passes rfl hns.1 hns.2 hlate⟩

/-- `CLR PC` goes to the block that was read. -/
theorem BootAt.enter (h : BootAt (romPc 28) r rk mem late p) (hlate : late + 10000 < 2 ^ 64) :
    Goes p 0 r rk mem (late + 10000) := by
  have hexec : Acts (execute 0o005007) (p.setR regPc (p.pc + 2)) ()
      (((p.setR regPc (p.pc + 2)).codes 0 false).setR regPc 0) :=
    .single rfl (.decode_reg rfl rfl _) (.read_reg _ _) (.alu_clr _ false _)
      (.whenM_true rfl (.write_reg _ _ _))
  exact h.goes (by decide) rfl ⟨600, fun _ => rfl, by decide, by decide⟩ hexec
    (((h.jump _).codes 0 false).jump 0) rfl hlate

/-- The RK11 as the boot leaves it. -/
def bootedRk (d : BitVec 32 → Word) (w : BitVec 32) (doneNs : Time) : Rk11 :=
  { loadedRk d w doneNs with rkcs := 0o200 }

theorem write_clear {d : BitVec 32 → Word} {w : BitVec 32} {doneNs : Time} {s : Cpu}
    (hrk : s.dev.rk = loadedRk d w doneNs) (hint : s.dev.intReq = 0) :
    rkWrite s 0o177404 0 = { s with dev.rk := bootedRk d w doneNs } := by
  have hclear : s.dev.intReq &&& ~~~(1#32 <<< IntId.rk.bit) = s.dev.intReq := by
    rw [hint]
    exact BitVec.zero_and
  have hstored : rkStored s 0 = { s with
      dev.rk := { s.dev.rk with
        rkcs := (s.dev.rk.rkcs &&& rkcsReal &&& ~~~rkcsRw) ||| (0 &&& rkcsRw) }
      dev.intReq := s.dev.intReq &&& ~~~(1#32 <<< IntId.rk.bit) } := rfl
  have hcs : ((0o204 : Word) &&& rkcsReal &&& ~~~rkcsRw) ||| (0 &&& rkcsRw) = 0o200 := by decide
  have hgo : ¬((rkStored s 0).dev.rk.rkcs &&& rkcsDone ≠ 0 ∧ (0 : Word) &&& rkcsGo ≠ 0) :=
    fun h => h.2 (by decide)
  rw [rkWrite_rkcs, if_neg hgo, hstored, hclear, hrk]
  exact congrArg (fun cs => { s with dev.rk := { loadedRk d w doneNs with rkcs := cs } }) hcs

theorem read_loaded {d : BitVec 32 → Word} {w : BitVec 32} {doneNs : Time} {s : Cpu}
    (hrk : s.dev.rk = loadedRk d w doneNs) : rkRead s 0o177404 = 0o204 := by
  have hread : rkRead s 0o177404 =
      (let cs := s.dev.rk.rkcs &&& rkcsReal
      let cs := if s.dev.rk.rker ≠ 0 then cs ||| rkcsErr else cs
      if s.dev.rk.rker &&& rkerHard ≠ 0 then cs ||| rkcsHerr else cs) := rfl
  have hnone : ¬(loadedRk d w doneNs).rker ≠ 0 := fun h => h rfl
  have hsoft : ¬(loadedRk d w doneNs).rker &&& rkerHard ≠ 0 :=
    fun h => h (show (0 : Word) &&& rkerHard = 0 by decide)
  rw [hread, hrk]
  dsimp only
  rw [if_neg hnone, if_neg hsoft]
  exact show (0o204 : Word) &&& rkcsReal = 0o204 by decide

/-- `CLRB (R1)` clears the function of the controller. -/
theorem BootAt.release {d : BitVec 32 → Word} {w : BitVec 32} {doneNs : Time}
    (h : BootAt (romPc 27) r (loadedRk d w doneNs) mem late p) (hr1 : r 1 = 0o177404)
    (hlate : late + 10000 < 2 ^ 64) :
    Goes p (romPc 28) r (bootedRk d w doneNs) mem (late + 10000) := by
  have hpc : p.pc + 2 = romPc 28 := by rw [h.at_pc, romPc_succ]
  have hjump := (h.jump (p.pc + 2)).codes 0 true
  let q : Plain := { (p.setR regPc (p.pc + 2)).codes 0 true with
    dev := { p.dev with rk := bootedRk d w doneNs } }
  have hdst : Acts (decodeOperand (dstSpec 0o105011) true) _ _ _ :=
    .decode_deferred rfl rfl (p.setR regPc (p.pc + 2))
  rw [(h.jump (p.pc + 2)).regs _ (by decide),
    show r ((dstSpec 0o105011).extractLsb' 0 3) = 0o177404 from hr1] at hdst
  have hwrite : Acts (writeOperand (.mem 0o177404) true 0)
      ((p.setR regPc (p.pc + 2)).codes 0 true) () q := by
    refine .writeByte_io (w := 0o204) (g := fun v s => rkWrite s 0o177404 v) (inIo_rk rfl)
      (ioReadReg_rk rfl) (fun _ => rfl) ?_ (ioWriteReg_rk rfl) ?_ ?_
    · intro s hs
      have hrk : s.dev.rk = loadedRk d w doneNs :=
        (congrArg (fun q : Plain => q.dev.rk) hs).trans h.rk
      exact read_loaded hrk
    · intro v s
      rw [rkWrite_rkcs_bare, bare_bare]
    · intro s hs
      have hrk : s.dev.rk = loadedRk d w doneNs :=
        (congrArg (fun q : Plain => q.dev.rk) hs).trans h.rk
      have hint : s.dev.intReq = 0 :=
        (congrArg (fun q : Plain => q.dev.intReq) hs).trans h.bus.requests
      have hmerged : ((0o204 : Word) &&& 0o177400) ||| ((0 : Word).setWidth 8).setWidth 16 = 0 := by
        decide
      dsimp only
      rw [hmerged, write_clear hrk hint]
      refine ⟨⟨rfl, rfl, rfl, rfl⟩, ?_⟩
      exact congrArg (fun q : Plain => { q with dev.rk := bootedRk d w doneNs }) hs
  have hexec : Acts (execute 0o105011) _ () _ :=
    .single rfl hdst (acts_rkReadByte rfl _) (.alu_clr _ true _) (.whenM_true rfl hwrite)
  refine h.goes (by decide) rfl ⟨1650, fun _ => rfl, by decide, by decide⟩ hexec ?_ rfl hlate
  rw [hpc] at hjump
  refine ⟨hjump.cfg, hjump.mmr3, ?_, ?_, ?_, rfl, hjump.memory, hjump.rom, hjump.time⟩
  · exact ⟨h.bus.requests, h.bus.pirq, h.bus.clk, h.bus.tto,
      show (0o200 : Word) &&& rkcsIe = 0 by decide, h.bus.rp, h.bus.tm, h.bus.rl⟩
  · show p.pc + 2 = romPc 28
    exact hpc
  · exact ((h.jump (p.pc + 2)).codes 0 true).regs

end

/-! ## The whole ROM -/

section

variable {pc pc' : Word} {r r' : Field3 → Word} {rk rk' : Rk11} {mem mem' : Mem}
  {late late' limit : ℕ} {p : Plain} {d : BitVec 32 → Word} {w : BitVec 32}

theorem BootAt.mono (h : BootAt pc r rk mem late p) (hlate : late ≤ late') :
    BootAt pc r rk mem late' p :=
  { h with time := h.time.trans hlate }

theorem rkSettle_idle (now : Time) (hrk : rk.busy = false) : rkSettle now rk = rk :=
  if_neg fun h => by simp [hrk] at h

/-- A step while the controller does nothing. -/
theorem leads_idle (hrk : rk'.busy = false)
    (h : ∀ p, BootAt pc r rk mem late p → Goes p pc' r' rk' mem' late') :
    Leads (fun s => (cpuStep s).cpu) (Portrayed (BootAt pc r rk mem late))
      (Portrayed (BootAt pc' r' rk' mem' late')) := by
  refine leads_of_runs fun p hp => ?_
  rcases h p hp with ⟨u, hrun, -, hu⟩
  rw [rkSettle_idle _ hrk] at hu
  exact ⟨u, hrun, hu⟩

/-- The program at `pc` while the boot block is being read, until `limit` at the latest. -/
def Reading (d : BitVec 32 → Word) (w : BitVec 32) (pc : Word) (r : Field3 → Word) (mem : Mem)
    (limit late : ℕ) (p : Plain) : Prop :=
  ∃ t : Time, t.toNat ≤ limit ∧ (BootAt pc r (readingRk d w t) mem late p ∧ p.time < t ∨
    BootAt pc r (loadedRk d w t) mem late p)

theorem reading_settled {t : Time} (ht : t.toNat ≤ limit)
    (h : BootAt pc r (rkSettle p.time (readingRk d w t)) mem late p) :
    Reading d w pc r mem limit late p := by
  rw [rkSettle_reading] at h
  by_cases hdue : t ≤ p.time
  · rw [if_pos hdue] at h
    exact ⟨t, ht, .inr h⟩
  · rw [if_neg hdue] at h
    exact ⟨t, ht, .inl ⟨h, BitVec.not_le.1 hdue⟩⟩

theorem leads_reading
    (h : ∀ rk p, BootAt pc r rk mem late p → Goes p pc' r' rk mem late') :
    Leads (fun s => (cpuStep s).cpu) (Portrayed (Reading d w pc r mem limit late))
      (Portrayed (Reading d w pc' r' mem limit late')) := by
  refine leads_of_runs fun p hp => ?_
  rcases hp with ⟨t, ht, ⟨hreading, -⟩ | hloaded⟩
  · rcases h _ p hreading with ⟨u, hrun, -, hu⟩
    exact ⟨u, hrun, reading_settled ht hu⟩
  · rcases h _ p hloaded with ⟨u, hrun, -, hu⟩
    rw [rkSettle_idle _ rfl] at hu
    exact ⟨u, hrun, t, ht, .inr hu⟩

/-- The wait for the drive ends. -/
theorem wait_ends (hr1 : r 1 = 0o177404) (hlimit : limit + 1000000 < 2 ^ 64) :
    Leads (fun s => (cpuStep s).cpu)
      (Portrayed (Reading d w (romPc 25) r mem limit (limit + 20000)))
      (Portrayed fun p => ∃ t, BootAt (romPc 27) r (loadedRk d w t) mem (limit + 40000) p) := by
  refine .loop (fun s => if s.dev.rk.rkcs &&& rkcsDone ≠ 0 then 0 else limit - s.acct.timeNs.toNat)
    fun rank => ?_
  rintro s ⟨⟨p, hs, t, ht, ⟨hreading, hbefore⟩ | hloaded⟩, hrank⟩
  · have hnow : p.time.toNat < limit := lt_of_lt_of_le hbefore ht
    have hstart : BootAt (romPc 25) r (readingRk d w t) mem limit p :=
      { hreading with time := hnow.le }
    rcases hstart.poll hr1 (by omega) with ⟨q, hq, ⟨hlater, hpolled⟩, hn⟩
    rcases hpolled.wait (by omega) with ⟨u, hu, hlater', hwaited⟩
    have hbusy : decide ((readingRk d w t).rkcs &&& rkcsDone ≠ 0) = false :=
      show decide ((4 : Word) &&& rkcsDone ≠ 0) = false by decide
    rw [hn, hbusy, if_neg (by decide)] at hwaited
    have hshown := hu _ (hq _ hs)
    have hread : Reading d w (romPc 25) r mem limit (limit + 20000) u := by
      have hmono := hwaited.mono (show limit + 10000 + 10000 ≤ limit + 20000 by omega)
      rw [rkSettle_reading] at hmono
      by_cases hdue : t ≤ q.time
      · rw [if_pos hdue, rkSettle_idle _ rfl] at hmono
        exact ⟨t, ht, .inr hmono⟩
      · rw [if_neg hdue] at hmono
        exact reading_settled ht hmono
    refine ⟨2, .inr ⟨⟨u, hshown, hread⟩, ?_⟩⟩
    have htime : s.acct.timeNs = p.time := congrArg Plain.time hs.sees
    have hend : (cpuStep (cpuStep s).cpu).cpu.acct.timeNs = u.time := congrArg Plain.time hshown.sees
    have hless : p.time.toNat < u.time.toNat := lt_trans hlater hlater'
    have hwaiting : ¬s.dev.rk.rkcs &&& rkcsDone ≠ 0 := by
      rw [show s.dev.rk = readingRk d w t from
        (congrArg (fun q : Plain => q.dev.rk) hs.sees).trans hreading.rk]
      exact show ¬(4 : Word) &&& rkcsDone ≠ 0 by decide
    rw [if_neg hwaiting, htime] at hrank
    show (if (cpuStep (cpuStep s).cpu).cpu.dev.rk.rkcs &&& rkcsDone ≠ 0 then 0
      else limit - (cpuStep (cpuStep s).cpu).cpu.acct.timeNs.toNat) < rank
    rw [hend]
    split <;> omega
  · rcases hloaded.poll hr1 (by omega) with ⟨q, hq, ⟨-, hpolled⟩, hn⟩
    rcases hpolled.wait (by omega) with ⟨u, hu, -, hwaited⟩
    have hdone : decide ((loadedRk d w t).rkcs &&& rkcsDone ≠ 0) = true :=
      show decide ((0o204 : Word) &&& rkcsDone ≠ 0) = true by decide
    rw [hn, hdone, if_pos rfl, rkSettle_idle _ rfl, rkSettle_idle _ rfl] at hwaited
    exact ⟨2, .inl ⟨u, hu _ (hq _ hs), t, hwaited.mono (by omega)⟩⟩

theorem Goes.same {n : Field3} {v : Word} (h : Goes p pc (Function.update r n v) rk mem late)
    (hv : v = r n) : Goes p pc r rk mem late := by
  rwa [hv, Function.update_eq_self] at h

/-- The registers with the stack set up. -/
def stackRegs : Field3 → Word := Function.update (fun _ => 0) regSp 0o2000

/-- The registers with the address of a register of the controller in R1. -/
def bootRegs (a : Word) : Field3 → Word := Function.update stackRegs 1 a

theorem Goes.down {a : Word}
    (h : Goes p pc (Function.update (bootRegs a) 1 (bootRegs a 1 - 2)) rk mem late) :
    Goes p pc (bootRegs (a - 2)) rk mem late := by
  have hr1 : bootRegs a 1 = a := Function.update_self _ _ _
  rw [hr1] at h
  unfold bootRegs at h ⊢
  rwa [Function.update_idem] at h

theorem boot_shift {i : ℕ} (hi : i < rkBootRom.length) (hw : rkBootRom[i] = 0o006303)
    (hlate : late + 10000 < 2 ^ 64) :
    Leads (fun s => (cpuStep s).cpu)
      (Portrayed (BootAt (romPc i) stackRegs (bootRk d w) mem late))
      (Portrayed (BootAt (romPc (i + 1)) stackRegs (bootRk d w) mem (late + 10000))) := by
  refine leads_idle rfl fun p h => ?_
  have hgoes := h.alter 0o006303 hi hw ⟨300, fun _ => rfl, by decide, by decide⟩ rfl rfl rfl
    (by decide) (Acts.alu_asl (stackRegs 3)) hlate
  exact hgoes.same (by decide)

/-- The drive number, zero, is shifted into the place it has in RKDA. -/
theorem boot_setup :
    Leads (fun s => (cpuStep s).cpu)
      (Portrayed (BootAt (romPc 1) (fun _ => 0) (bootRk d w) mem 0))
      (Portrayed (BootAt (romPc 14) (bootRegs 0o177412) (bootRk d w) mem 100000)) := by
  have hstack : Leads (fun s => (cpuStep s).cpu)
      (Portrayed (BootAt (romPc 1) (fun _ => 0) (bootRk d w) mem 0))
      (Portrayed (BootAt (romPc 3) stackRegs (bootRk d w) mem 10000)) := by
    refine leads_idle rfl fun p h => ?_
    exact h.load 0o012706 0o002000 (by decide) rfl rfl ⟨750, fun _ => rfl, by decide, by decide⟩ rfl
      rfl rfl rfl (by decide) (by decide)
  have hdrive : Leads (fun s => (cpuStep s).cpu)
      (Portrayed (BootAt (romPc 3) stackRegs (bootRk d w) mem 10000))
      (Portrayed (BootAt (romPc 5) stackRegs (bootRk d w) mem 20000)) := by
    refine leads_idle rfl fun p h => ?_
    have hgoes := h.load 0o012700 0 (by decide) rfl rfl ⟨750, fun _ => rfl, by decide, by decide⟩ rfl
      rfl rfl rfl (by decide) (by decide)
    exact hgoes.same (by decide)
  have hcopy : Leads (fun s => (cpuStep s).cpu)
      (Portrayed (BootAt (romPc 5) stackRegs (bootRk d w) mem 20000))
      (Portrayed (BootAt (romPc 6) stackRegs (bootRk d w) mem 30000)) := by
    refine leads_idle rfl fun p h => ?_
    have hgoes := h.copy 0o010003 (by decide) rfl ⟨300, fun _ => rfl, by decide, by decide⟩ rfl rfl
      rfl (by decide) rfl rfl (by decide) (by decide)
    exact hgoes.same (by decide)
  have hswap : Leads (fun s => (cpuStep s).cpu)
      (Portrayed (BootAt (romPc 6) stackRegs (bootRk d w) mem 30000))
      (Portrayed (BootAt (romPc 7) stackRegs (bootRk d w) mem 40000)) := by
    refine leads_idle rfl fun p h => ?_
    have hgoes := h.alter 0o000303 (by decide) rfl ⟨300, fun _ => rfl, by decide, by decide⟩ rfl rfl
      rfl (by decide) (Acts.alu_swab (stackRegs 3)) (by decide)
    exact hgoes.same (by decide)
  have hshifts : Leads (fun s => (cpuStep s).cpu)
      (Portrayed (BootAt (romPc 7) stackRegs (bootRk d w) mem 40000))
      (Portrayed (BootAt (romPc 12) stackRegs (bootRk d w) mem 90000)) :=
    (boot_shift (by decide) rfl (by decide)).trans <|
      (boot_shift (by decide) rfl (by decide)).trans <|
      (boot_shift (by decide) rfl (by decide)).trans <|
      (boot_shift (by decide) rfl (by decide)).trans <| boot_shift (by decide) rfl (by decide)
  have haddress : Leads (fun s => (cpuStep s).cpu)
      (Portrayed (BootAt (romPc 12) stackRegs (bootRk d w) mem 90000))
      (Portrayed (BootAt (romPc 14) (bootRegs 0o177412) (bootRk d w) mem 100000)) := by
    refine leads_idle rfl fun p h => ?_
    exact h.load 0o012701 0o177412 (by decide) rfl rfl ⟨750, fun _ => rfl, by decide, by decide⟩ rfl
      rfl rfl rfl (by decide) (by decide)
  exact hstack.trans (hdrive.trans (hcopy.trans (hswap.trans (hshifts.trans haddress))))

/-- The registers of the controller are loaded one below the other. -/
theorem boot_command :
    Leads (fun s => (cpuStep s).cpu)
      (Portrayed (BootAt (romPc 14) (bootRegs 0o177412) (bootRk d w) mem 100000))
      (Portrayed (BootAt (romPc 18) (bootRegs 0o177406) { bootRk d w with rkwc := 0o177000 } mem
        130000)) := by
  have hda : Leads (fun s => (cpuStep s).cpu)
      (Portrayed (BootAt (romPc 14) (bootRegs 0o177412) (bootRk d w) mem 100000))
      (Portrayed (BootAt (romPc 15) (bootRegs 0o177412) (bootRk d w) mem 110000)) := by
    refine leads_idle rfl fun p h => ?_
    exact h.store 0o010311 (by decide) rfl ⟨1200, fun _ => rfl, by decide, by decide⟩ rfl rfl rfl
      (by decide) rfl rfl (by decide) puts_rkda (by decide)
  have hba : Leads (fun s => (cpuStep s).cpu)
      (Portrayed (BootAt (romPc 15) (bootRegs 0o177412) (bootRk d w) mem 110000))
      (Portrayed (BootAt (romPc 16) (bootRegs 0o177410) (bootRk d w) mem 120000)) := by
    refine leads_idle rfl fun p h => ?_
    have hgoes := h.clear 0o005041 (by decide) rfl ⟨1650, fun _ => rfl, by decide, by decide⟩ rfl rfl
      rfl (by decide) (by decide) rfl puts_rkba (by decide)
    exact hgoes.down
  have hwc : Leads (fun s => (cpuStep s).cpu)
      (Portrayed (BootAt (romPc 16) (bootRegs 0o177410) (bootRk d w) mem 120000))
      (Portrayed (BootAt (romPc 18) (bootRegs 0o177406) { bootRk d w with rkwc := 0o177000 } mem
        130000)) := by
    refine leads_idle rfl fun p h => ?_
    have hgoes := h.push 0o012741 0o177000 (by decide) rfl rfl
      ⟨1650, fun _ => rfl, by decide, by decide⟩ rfl rfl rfl rfl (by decide) (by decide) puts_rkwc
      (by decide)
    exact hgoes.down
  exact hda.trans (hba.trans hwc)

/-- The end of the transfer is due at most this late. -/
abbrev bootLimit : ℕ := 1200000

theorem boot_start (hw : 512 ≤ w) :
    Leads (fun s => (cpuStep s).cpu)
      (Portrayed (BootAt (romPc 18) (bootRegs 0o177406) { bootRk d w with rkwc := 0o177000 } mem
        130000))
      (Portrayed (Reading d w (romPc 20) (bootRegs 0o177404) (bootBlock d mem) bootLimit 140000)) := by
  refine leads_of_runs fun p h => ?_
  have hgoes := h.push 0o012741 5 (by decide) rfl rfl ⟨1650, fun _ => rfl, by decide, by decide⟩ rfl
    rfl rfl rfl (by decide) (by decide) (puts_go hw) (by decide)
  rcases hgoes.down with ⟨u, hrun, -, hu⟩
  have hnow := h.time
  have hdue : (p.time + rkBaseNs + 51200).toNat ≤ bootLimit := by
    rw [BitVec.toNat_add, BitVec.toNat_add]
    have hbase : (rkBaseNs : Time).toNat = 1000000 := rfl
    have hwords : (51200 : Time).toNat = 51200 := rfl
    show _ ≤ 1200000
    omega
  exact ⟨u, hrun, reading_settled hdue hu⟩

/-- The registers of the boot block. -/
def bootedRegs : Field3 → Word := Function.update (bootRegs 0o177404) 4 0o2020

/-- What the program does while the words move. -/
theorem boot_idle {block : Mem} :
    Leads (fun s => (cpuStep s).cpu)
      (Portrayed (Reading d w (romPc 20) (bootRegs 0o177404) block bootLimit 140000))
      (Portrayed (Reading d w (romPc 25) bootedRegs block bootLimit 180000)) := by
  have htimed {w : Word} (h : ∀ t, instrNs t w = 300) : Timed w := ⟨300, h, by decide, by decide⟩
  have hr2 : Leads (fun s => (cpuStep s).cpu)
      (Portrayed (Reading d w (romPc 20) (bootRegs 0o177404) block bootLimit 140000))
      (Portrayed (Reading d w (romPc 21) (bootRegs 0o177404) block bootLimit 150000)) := by
    refine leads_reading fun rk p h => ?_
    have hgoes := h.alter 0o005002 (by decide) rfl (htimed fun _ => rfl) rfl rfl rfl (by decide)
      (Acts.alu_clr _ false) (by decide)
    exact hgoes.same (by decide)
  have hr3 : Leads (fun s => (cpuStep s).cpu)
      (Portrayed (Reading d w (romPc 21) (bootRegs 0o177404) block bootLimit 150000))
      (Portrayed (Reading d w (romPc 22) (bootRegs 0o177404) block bootLimit 160000)) := by
    refine leads_reading fun rk p h => ?_
    have hgoes := h.alter 0o005003 (by decide) rfl (htimed fun _ => rfl) rfl rfl rfl (by decide)
      (Acts.alu_clr _ false) (by decide)
    exact hgoes.same (by decide)
  have hr4 : Leads (fun s => (cpuStep s).cpu)
      (Portrayed (Reading d w (romPc 22) (bootRegs 0o177404) block bootLimit 160000))
      (Portrayed (Reading d w (romPc 24) bootedRegs block bootLimit 170000)) := by
    refine leads_reading fun rk p h => ?_
    exact h.load 0o012704 0o002020 (by decide) rfl rfl ⟨750, fun _ => rfl, by decide, by decide⟩ rfl
      rfl rfl rfl (by decide) (by decide)
  have hr5 : Leads (fun s => (cpuStep s).cpu)
      (Portrayed (Reading d w (romPc 24) bootedRegs block bootLimit 170000))
      (Portrayed (Reading d w (romPc 25) bootedRegs block bootLimit 180000)) := by
    refine leads_reading fun rk p h => ?_
    have hgoes := h.alter 0o005005 (by decide) rfl (htimed fun _ => rfl) rfl rfl rfl (by decide)
      (Acts.alu_clr _ false) (by decide)
    exact hgoes.same (by decide)
  exact hr2.trans (hr3.trans (hr4.trans hr5))

theorem boot_end {block : Mem} :
    Leads (fun s => (cpuStep s).cpu)
      (Portrayed (Reading d w (romPc 25) bootedRegs block bootLimit 180000))
      (Portrayed fun p => ∃ t, BootAt 0 bootedRegs (bootedRk d w t) block 1260000 p) := by
  have hwait : Leads (fun s => (cpuStep s).cpu)
      (Portrayed (Reading d w (romPc 25) bootedRegs block bootLimit 180000))
      (Portrayed fun p => ∃ t, BootAt (romPc 27) bootedRegs (loadedRk d w t) block 1240000 p) := by
    have hends : Leads (fun s => (cpuStep s).cpu)
        (Portrayed (Reading d w (romPc 25) bootedRegs block bootLimit (bootLimit + 20000))) _ :=
      wait_ends rfl (by decide)
    refine .trans (.of_imp ?_) hends
    rintro s ⟨p, hs, t, ht, hp⟩
    refine ⟨p, hs, t, ht, ?_⟩
    rcases hp with ⟨hreading, hnow⟩ | hloaded
    · exact .inl ⟨hreading.mono (by decide), hnow⟩
    · exact .inr (hloaded.mono (by decide))
  have hrelease : Leads (fun s => (cpuStep s).cpu)
      (Portrayed fun p => ∃ t, BootAt (romPc 27) bootedRegs (loadedRk d w t) block 1240000 p)
      (Portrayed fun p => ∃ t, BootAt (romPc 28) bootedRegs (bootedRk d w t) block 1250000 p) := by
    refine leads_of_runs fun p ⟨t, h⟩ => ?_
    rcases h.release rfl (by decide) with ⟨u, hrun, -, hu⟩
    rw [rkSettle_idle _ rfl] at hu
    exact ⟨u, hrun, t, hu⟩
  refine hwait.trans (hrelease.trans (leads_of_runs fun p ⟨t, h⟩ => ?_))
  rcases h.enter (by decide) with ⟨u, hrun, -, hu⟩
  rw [rkSettle_idle _ rfl] at hu
  exact ⟨u, hrun, t, hu⟩

theorem boot_runs (hw : 512 ≤ w) :
    Leads (fun s => (cpuStep s).cpu)
      (Portrayed (BootAt (romPc 1) (fun _ => 0) (bootRk d w) mem 0))
      (Portrayed fun p => ∃ t, BootAt 0 bootedRegs (bootedRk d w t) (bootBlock d mem) 1260000 p) :=
  boot_setup.trans (boot_command.trans ((boot_start hw).trans (boot_idle.trans boot_end)))

end

/-! ## The boot -/

theorem bootDiskSize_ge (bytes : List Byte) : 512 ≤ bootDiskSize bytes := by
  have hdrive : (512 : BitVec 32) ≤ rkDriveWords := by decide
  unfold bootDiskSize
  dsimp only
  split
  · exact hdrive
  · exact BitVec.le_trans hdrive (BitVec.not_lt.1 ‹_›)

theorem bootCpu_shows (bytes : List Byte) : Shows (bootCpu bytes) (plain (bootCpu bytes)) where
  serene := {
    off := show ¬mmeOn cpuCreate by decide
    running := rfl
    awake := rfl
    trace := rfl
    yellow := rfl
    frozen := rfl
    extra := rfl
    trap := show cpuCreate.regs.psw &&& pswT = 0 by decide
    bus := {
      requests := rfl
      pirq := rfl
      clk := show cpuCreate.dev.clkCsr &&& kw11lIe = 0 by decide
      tto := show cpuCreate.dev.ttoCsr &&& dl11Ie = 0 by decide
      rk := show cpuCreate.dev.rk.rkcs &&& rkcsIe = 0 by decide
      rp := rfl
      tm := rfl
      rl := rfl } }
  sees := rfl

/-- The disk of the file as a function of the word number. -/
def diskWord (bytes : List Byte) (i : BitVec 32) : Word := (bootWords bytes).getD i.toNat 0

theorem bootCpu_at (bytes : List Byte) :
    BootAt (romPc 1) (fun _ => 0) (bootRk (diskWord bytes) (bootDiskSize bytes)) (bootCpu bytes).mem 0
      (plain (bootCpu bytes)) where
  cfg := rfl
  mmr3 := rfl
  bus := (bootCpu_shows bytes).serene.bus
  at_pc := rfl
  regs i hi := Function.update_of_ne hi _ _
  rk := rfl
  memory := rfl
  rom i hi := depositRom_word _ (by decide) hi
  time := le_rfl

/-- The machine at the entry of the boot block. -/
structure Booted (bytes : List Byte) (t : Cpu) : Prop where
  running : t.ctl.halted = false
  entry : t.regs.r regPc = 0
  drive : t.regs.r 0 = 0
  controller : t.regs.r 1 = 0o177404
  stack : t.regs.r regSp = 0o2000
  block : ∀ a, a.toNat < 512 → t.mem a = (bootWords bytes).getD a.toNat 0
  rest : ∀ a, 512 ≤ a.toNat → t.mem a = (bootCpu bytes).mem a
  disk : t.dev.rk.disk = bootDisk bytes
  ready : t.dev.rk.busy = false ∧ t.dev.rk.rkcs = rkcsDone ∧ t.dev.rk.rker = 0
  quiet : t.dev.intReq = 0 ∧ ¬mmeOn t

/-- Whatever the disk file holds, the ROM comes to the end: the first 512 words of the disk are at
address 0, the rest of memory is as it was, and the machine is about to execute the word at 0. -/
theorem boot_rom_loads (bytes : List Byte) : ∃ n, Booted bytes (cpuRun (bootCpu bytes) n) := by
  let d := diskWord bytes
  have hstart : Portrayed (BootAt (romPc 1) (fun _ => 0) (bootRk d (bootDiskSize bytes))
      (bootCpu bytes).mem 0) (bootCpu bytes) := ⟨_, bootCpu_shows bytes, bootCpu_at bytes⟩
  rcases boot_runs (bootDiskSize_ge bytes) _ hstart with ⟨n, p, hs, t, hp⟩
  rw [cpuRun_iterate] at hs
  have hsees {α : Type} (f : Plain → α) : f (plain (cpuRun (bootCpu bytes) n)) = f p :=
    congrArg f hs.sees
  have hreg (i : Field3) (hi : i ≠ regPc) : (cpuRun (bootCpu bytes) n).regs.r i = bootedRegs i :=
    (hsees fun q => q.r i).trans (hp.regs i hi)
  have hmem (a : BitVec 21) : (cpuRun (bootCpu bytes) n).mem a =
      bootBlock d (bootCpu bytes).mem a :=
    (hsees fun q => q.mem a).trans (congrFun hp.memory a)
  have hrk : (cpuRun (bootCpu bytes) n).dev.rk = bootedRk d (bootDiskSize bytes) t :=
    (hsees fun q => q.dev.rk).trans hp.rk
  refine ⟨n, hs.serene.running, (hsees Plain.pc).trans hp.at_pc, ?_, ?_, ?_, ?_, ?_, ?_, ?_, ?_⟩
  · exact (hreg 0 (by decide)).trans (by decide)
  · exact (hreg 1 (by decide)).trans (by decide)
  · exact (hreg regSp (by decide)).trans (by decide)
  · intro a ha
    have hword := bootBlock_word d (bootCpu bytes).mem ha
    have hcell : BitVec.ofNat 21 a.toNat = a := by simp
    have hindex : (BitVec.ofNat 32 a.toNat).toNat = a.toNat := by
      rw [BitVec.toNat_ofNat]
      omega
    rw [hcell] at hword
    rw [hmem, hword]
    show (bootWords bytes).getD (BitVec.ofNat 32 a.toNat).toNat 0 = _
    rw [hindex]
  · intro a ha
    rw [hmem]
    exact bootBlock_other d _ ha
  · rw [hrk]
    rfl
  · rw [hrk]
    exact ⟨rfl, rfl, rfl⟩
  · exact ⟨hs.serene.bus.requests, hs.serene.off⟩

end Pdp11

end
