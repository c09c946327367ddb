import Pdp11.Frontend.Deposits
import Pdp11.ConsoleStream

namespace Pdp11

open Reachability

/-! The program that runs in the window when there is no disk: it prints its message and halts. -/

/-- Poll the transmitter and print the bytes at 01040, then HALT. -/
def demoRom : List Word :=
  [0o012701, 0o001040, 0o112100, 0o001406, 0o105737, 0o177564, 0o100375, 0o110037, 0o177566,
    0o000770, 0o000000]

abbrev demoStart : Word := 0o1000

/-- The banner, without its NUL. -/
def demoMsg : List Byte :=
  [80, 68, 80, 45, 49, 49, 47, 55, 48, 32, 45, 45, 32, 83, 68, 76, 32, 99, 111, 110, 115, 111, 108,
    101, 13, 10]

def demoMem (msg : List Byte) : Mem :=
  depositBytes (depositRom cpuCreate.mem (demoStart.setWidth 32) demoRom) 0o1040 msg

/-- The machine the window opens with. -/
def demoCpu (msg : List Byte) : Cpu :=
  let cpu := { cpuCreate with dev.consoleOut := some [] }
  { cpu with
    mem := demoMem msg
    regs.r := Function.update cpu.regs.r regPc demoStart }

section

variable {msg : List Byte} {p q : Plain} {pc : Word} {k sent limit late : ℕ}

theorem demoMem_word (hfit : 0o1040 + msg.length < 0o160000) {i : ℕ} (hi : i < demoRom.length) :
    memReadWord (demoMem msg) (demoStart.setWidth 32 + BitVec.ofNat 32 i * 2) = demoRom[i] := by
  have hlen : demoRom.length = 11 := rfl
  have hstart : (demoStart.setWidth 32 : PhysAddr).toNat = 0o1000 := rfl
  have hmsg : (0o1040 : PhysAddr).toNat = 0o1040 := rfl
  unfold demoMem
  rw [depositBytes_word _ (by omega), depositRom_word _ (by omega) hi]
  have hkey := romKey_toNat (demoStart.setWidth 32) i (by omega)
  unfold romKey at hkey
  omega

/-- The message, and the zero byte behind it. -/
theorem demoMem_byte (hfit : 0o1040 + msg.length < 0o160000) {i : ℕ} (hi : i ≤ msg.length) :
    memReadByte (demoMem msg) (0o1040 + BitVec.ofNat 32 i) = msg.getD i 0 := by
  have hmsg : (0o1040 : PhysAddr).toNat = 0o1040 := rfl
  by_cases hlt : i < msg.length
  · unfold demoMem
    rw [depositBytes_byte _ (by omega) hlt]
    simp [hlt]
  · have hstart : (demoStart.setWidth 32 : PhysAddr).toNat = 0o1000 := rfl
    have hlen : demoRom.length = 11 := rfl
    have hcell := memCell_offset 0o1040 i (by omega)
    have hindex : (memIndex (0o1040 + BitVec.ofNat 32 i)).toNat = (0o1040 + i) / 2 := by
      rw [memIndex_toNat, BitVec.toNat_add, BitVec.toNat_ofNat]
      omega
    have hzero : memReadWord (depositRom cpuCreate.mem (demoStart.setWidth 32) demoRom)
        (0o1040 + BitVec.ofNat 32 i) = 0 := depositRom_other _ (by omega) (by omega)
    unfold demoMem
    rw [depositBytes_other _ (by omega) (by omega), memReadByte, hzero]
    simp [hlt]

/-- The transmitter takes a character, or will by `limit`. -/
def Sending (limit : ℕ) (p : Plain) : Prop :=
  p.dev.ttoCsr &&& dl11Done ≠ 0 ∨
    p.dev.ttoBusy = true ∧ p.time < p.dev.ttoDoneNs ∧ p.dev.ttoDoneNs.toNat ≤ limit

theorem Sending.after (h : Sending limit p) (ns : BitVec 32) : Sending limit (p.after ns) := by
  have htto := @settleBus_tto p.dev (p.time + ns.setWidth 64)
  unfold Sending
  show (settleBus _ p.dev).ttoCsr &&& dl11Done ≠ 0 ∨ (settleBus _ p.dev).ttoBusy = true ∧
    p.time + ns.setWidth 64 < (settleBus _ p.dev).ttoDoneNs ∧
    (settleBus _ p.dev).ttoDoneNs.toNat ≤ limit
  rw [htto.1, htto.2.1, htto.2.2]
  unfold settleTto
  by_cases hdue : p.dev.ttoBusy = true ∧ p.dev.ttoDoneNs ≤ p.time + ns.setWidth 64
  · left
    rw [if_pos hdue]
    show (p.dev.ttoCsr ||| dl11Done) &&& dl11Done ≠ 0
    rw [BitMask.or_and_self]
    decide
  · rw [if_neg hdue]
    rcases h with hready | ⟨hbusy, -, hlimit⟩
    · exact .inl hready
    · refine .inr ⟨hbusy, ?_, hlimit⟩
      exact BitVec.not_le.1 fun hle => hdue ⟨hbusy, hle⟩

/-- The program at `pc`, with `sent` characters out. -/
structure DemoAt (msg : List Byte) (pc : Word) (sent limit late : ℕ) (p : Plain) : Prop where
  cfg : p.cfg = cpuCreate.cfg
  mem : p.mem = demoMem msg
  bus : QuietBus p.dev
  at_pc : p.pc = pc
  out : p.dev.consoleOut = some (msg.take sent)
  sending : Sending limit p
  time : p.time.toNat ≤ late

theorem DemoAt.loaded (h : DemoAt msg pc sent limit late p)
    (hfit : 0o1040 + msg.length < 0o160000) : p.Loaded demoStart demoRom := by
  refine loaded_of_words (by decide) (by decide) ?_ fun i hi => ?_
  · rw [h.cfg]
    decide
  · rw [h.mem]
    exact demoMem_word hfit hi

/-- After an instruction that leaves memory and devices alone. -/
theorem DemoAt.after (h : DemoAt msg pc sent limit late p) {pc' : Word} {ns : BitVec 32}
    (hcfg : q.cfg = p.cfg) (hmem : q.mem = p.mem) (hdev : q.dev = p.dev) (htime : q.time = p.time)
    (hpc : q.pc = pc') (hns : ns.toNat ≤ 10000) (hlate : late + 10000 < 2 ^ 64) :
    DemoAt msg pc' sent limit (late + 10000) (q.after ns) where
  cfg := hcfg.trans h.cfg
  mem := hmem.trans h.mem
  bus := by
    show QuietBus (settleBus _ q.dev)
    rw [hdev]
    exact h.bus.settleBus
  at_pc := hpc
  out := by
    show (settleBus _ q.dev).consoleOut = _
    rw [settleBus_consoleOut, hdev, h.out]
  sending := by
    refine Sending.after ?_ ns
    have hsending := h.sending
    unfold Sending at hsending ⊢
    rwa [hdev, htime]
  time := by
    have hnow := h.time
    rw [Plain.after_time q ns (by rw [htime]; omega), htime]
    omega

theorem DemoAt.later (h : DemoAt msg pc sent limit late p) {ns : BitVec 32} (htime : q.time = p.time)
    (hns : ns.toNat ≤ 10000) (hpos : 0 < ns.toNat) (hlate : late + 10000 < 2 ^ 64) :
    p.time < (q.after ns).time := by
  have hnow := h.time
  rw [BitVec.lt_def, Plain.after_time q ns (by rw [htime]; omega), htime]
  omega

/-! ## Its instructions -/

/-- `MOV #msg, R1` -/
theorem demo_start (hfit : 0o1040 + msg.length < 0o160000)
    (h : DemoAt msg 0o1000 sent limit late p) (hlate : late + 10000 < 2 ^ 64) :
    ∃ q, Runs p q ∧ DemoAt msg 0o1004 sent limit (late + 10000) q ∧ q.r 1 = 0o1040 := by
  have hword : p.Code p.pc 0o012701 := by
    rw [h.at_pc]
    exact h.loaded hfit 0 (by decide)
  have hnext : p.Code (p.pc + 2) 0o001040 := by
    rw [h.at_pc]
    exact h.loaded hfit 1 (by decide)
  have hexec : Acts (execute 0o012701) (p.setR regPc (p.pc + 2)) ()
      ((((p.setR regPc (p.pc + 2)).setR regPc (p.pc + 2 + 2)).setR 1 0o1040).codes 0o1040 false) :=
    .mov rfl (.decode_immediate rfl (hnext.congr rfl rfl)) (.read_immediate _ _ _)
      (.decode_reg rfl rfl _) (.write_reg _ _ _)
  refine ⟨_, hexec.runs hword 750 (fun _ _ => rfl) h.bus, ?_, rfl⟩
  refine h.after rfl rfl rfl rfl ?_ (by decide) hlate
  show p.pc + 2 + 2 = 0o1004
  rw [h.at_pc]
  rfl

theorem movb_low (b : Byte) :
    (if (b.setWidth 16 : Word) &&& 0o200 ≠ 0 then (b.setWidth 16 : Word) ||| 0o177400
      else (b.setWidth 16 : Word) &&& 0o377) &&& 0o377 = (b.setWidth 16 : Word) := by
  apply BitVec.eq_of_getLsbD_eq
  intro i hi
  split
  · interval_cases i <;> simp
  · interval_cases i <;> simp

theorem byte_zero (b : Byte) : (b.setWidth 16 : Word) &&& widthMask true = 0 ↔ b = 0 := by
  constructor
  · intro h
    apply BitVec.eq_of_toNat_eq
    have hnat := congrArg BitVec.toNat h
    rw [BitVec.toNat_and, BitVec.toNat_setWidth] at hnat
    have hmask : (widthMask true).toNat = 2 ^ 8 - 1 := rfl
    have hb := b.isLt
    rw [hmask, Nat.and_two_pow_sub_one_eq_mod] at hnat
    have hz : (0 : Word).toNat = 0 := rfl
    have hz' : (0 : Byte).toNat = 0 := rfl
    omega
  · rintro rfl
    rfl

/-- `MOVB (R1)+, R0` takes the next character. -/
theorem demo_fetch (hfit : 0o1040 + msg.length < 0o160000)
    (h : DemoAt msg 0o1004 sent limit late p) (hlate : late + 10000 < 2 ^ 64)
    (hptr : p.r 1 = 0o1040 + BitVec.ofNat 16 k) (hk : k ≤ msg.length) :
    ∃ q, Runs p q ∧ DemoAt msg 0o1006 sent limit (late + 10000) q ∧
      q.r 1 = 0o1040 + BitVec.ofNat 16 (k + 1) ∧
      q.r 0 &&& 0o377 = (msg.getD k 0).setWidth 16 ∧ q.z = decide (msg.getD k 0 = 0) := by
  have hword : p.Code p.pc 0o112100 := by
    rw [h.at_pc]
    exact h.loaded hfit 2 (by decide)
  have hva : (p.r 1).toNat = 0o1040 + k := by
    rw [hptr, BitVec.toNat_add, BitVec.toNat_ofNat]
    show (0o1040 + k % 2 ^ 16) % 2 ^ 16 = _
    omega
  have hram : p.Ram (p.r 1) := by
    refine ⟨by omega, ?_⟩
    have htop : 0o160000 ≤ cpuCreate.cfg.memTop.toNat := by decide
    rw [h.cfg]
    omega
  have hbyte : p.byte (p.r 1) = msg.getD k 0 := by
    have haddr : unmappedPhysical (p.r 1) = 0o1040 + BitVec.ofNat 32 k := by
      apply BitVec.eq_of_toNat_eq
      rw [unmapped_toNat _ (by omega), hva, BitVec.toNat_add, BitVec.toNat_ofNat]
      show _ = (0o1040 + k % 2 ^ 32) % 2 ^ 32
      omega
    rw [Plain.byte, haddr, h.mem, demoMem_byte hfit hk]
  let p₁ := p.setR regPc (p.pc + 2)
  let p₂ := p₁.setR 1 (p.r 1 + 1)
  have hread : Acts (readOperand (.mem (p.r 1)) true) p₂ ((msg.getD k 0).setWidth 16) p₂ := by
    rw [← hbyte]
    exact .read_byte (p := p₂) (hram.congr rfl)
  have hexec : Acts (execute 0o112100) p₁ () ((p₂.setR 0 _).codes ((msg.getD k 0).setWidth 16) true) :=
    .mov rfl (.decode_increment rfl rfl (by decide) p₁) hread (.decode_reg rfl rfl p₂)
      (.setReg _ _ _)
  refine ⟨_, hexec.runs hword 750 (fun _ _ => rfl) h.bus, ?_, ?_, ?_, ?_⟩
  · refine h.after rfl rfl rfl rfl ?_ (by decide) hlate
    show p.pc + 2 = 0o1006
    rw [h.at_pc]
    rfl
  · show p.r 1 + 1 = _
    rw [hptr, BitVec.add_assoc, BitVec.ofNat_add]
    rfl
  · exact movb_low _
  · exact decide_eq_decide.2 (byte_zero _)

/-- `BEQ done` leaves the loop at the zero byte. -/
theorem demo_beq (hfit : 0o1040 + msg.length < 0o160000)
    (h : DemoAt msg 0o1006 sent limit late p) (hlate : late + 10000 < 2 ^ 64) :
    ∃ q, Runs p q ∧
      DemoAt msg (if p.z then 0o1024 else 0o1010) sent limit (late + 10000) q ∧
      q.r 1 = p.r 1 ∧ q.r 0 = p.r 0 := by
  have hword : p.Code p.pc 0o001406 := by
    rw [h.at_pc]
    exact h.loaded hfit 3 (by decide)
  refine ⟨_, .branch hword rfl rfl (fun _ _ hz => hz) h.bus, ?_, rfl, rfl⟩
  refine h.after rfl rfl rfl rfl ?_ ?_ hlate
  · show (if p.z then p.pc + 2 + _ else p.pc + 2) = _
    rw [h.at_pc]
    rfl
  · cases p.z <;> decide

/-! ### The transmitter -/

theorem inIo_xcsr (s : Cpu) (hoff : ¬mmeOn s) : InIo s dl11Xcsr :=
  ⟨hoff, by decide, by decide, by decide, by decide, by decide⟩

theorem inIo_xbuf (s : Cpu) (hoff : ¬mmeOn s) : InIo s dl11Xbuf :=
  ⟨hoff, by decide, by decide, by decide, by decide, by decide⟩

theorem xcsr_read (s : Cpu) :
    ioReadReg s dl11Xcsr = some (s.dev.ttoCsr &&& (dl11Done ||| dl11Ie), s) :=
  ioReadReg_dl11 (by decide)

theorem xbuf_read (s : Cpu) : ioReadReg s dl11Xbuf = some (s.dev.ttoBuf &&& 0o377, s) :=
  ioReadReg_dl11 (by decide)

/-- `TSTB @#XCSR` shows in N whether the transmitter is ready. -/
theorem demo_poll (hfit : 0o1040 + msg.length < 0o160000)
    (h : DemoAt msg 0o1010 sent limit late p) (hlate : late + 10000 < 2 ^ 64) :
    ∃ q, Runs p q ∧ DemoAt msg 0o1014 sent limit (late + 10000) q ∧ q.r 1 = p.r 1 ∧
      q.r 0 = p.r 0 ∧ q.n = decide (p.dev.ttoCsr &&& dl11Done ≠ 0) ∧ p.time < q.time := by
  have hword : p.Code p.pc 0o105737 := by
    rw [h.at_pc]
    exact h.loaded hfit 4 (by decide)
  have hnext : p.Code (p.pc + 2) dl11Xcsr := by
    rw [h.at_pc]
    exact h.loaded hfit 5 (by decide)
  let p₁ := p.setR regPc (p.pc + 2)
  let p₂ := p₁.setR regPc (p.pc + 2 + 2)
  let w := p.dev.ttoCsr &&& (dl11Done ||| dl11Ie)
  have hread : Acts (readOperand (.mem dl11Xcsr) true) p₂
      (((w &&& 0o377).setWidth 8).setWidth 16) p₂ :=
    .readByte_io inIo_xcsr xcsr_read (fun _ => rfl) fun s hs =>
      congrArg (fun q : Plain => q.dev.ttoCsr &&& (dl11Done ||| dl11Ie)) hs
  have hexec : Acts (execute 0o105737) p₁ ()
      (p₂.codes (((w &&& 0o377).setWidth 8).setWidth 16) true) :=
    .single rfl (.decode_absolute rfl (hnext.congr rfl rfl)) hread (.alu_tst _ _ _)
      (.whenM_false (by decide) _ _)
  refine ⟨_, hexec.runs hword 1350 (fun _ _ => rfl) h.bus, ?_, rfl, rfl, ?_,
    h.later rfl (by decide) (by decide) hlate⟩
  · refine h.after rfl rfl rfl rfl ?_ (by decide) hlate
    show p.pc + 2 + 2 = 0o1014
    rw [h.at_pc]
    rfl
  · have hbit : (((w &&& 0o377).setWidth 8).setWidth 16 : Word) &&& widthMsb true =
        p.dev.ttoCsr &&& dl11Done := by
      apply BitVec.eq_of_getLsbD_eq
      intro i hi
      interval_cases i <;> simp [w, widthMsb]
    show decide (_ &&& widthMsb true ≠ 0) = _
    rw [hbit]

/-- `BPL W` goes back to the poll until the transmitter is ready. -/
theorem demo_bpl (hfit : 0o1040 + msg.length < 0o160000)
    (h : DemoAt msg 0o1014 sent limit late p) (hlate : late + 10000 < 2 ^ 64) :
    ∃ q, Runs p q ∧
      DemoAt msg (if p.n then 0o1016 else 0o1010) sent limit (late + 10000) q ∧
      q.r 1 = p.r 1 ∧ q.r 0 = p.r 0 ∧ p.time < q.time := by
  have hword : p.Code p.pc 0o100375 := by
    rw [h.at_pc]
    exact h.loaded hfit 6 (by decide)
  have hns : (if !p.n then 600 else 300 : BitVec 32).toNat ≤ 10000 ∧
      0 < (if !p.n then 600 else 300 : BitVec 32).toNat := by
    cases p.n <;> decide
  refine ⟨_, .branch hword rfl rfl (fun s hn _ => congrArg (!·) hn) h.bus, ?_, rfl, rfl,
    h.later rfl hns.1 hns.2 hlate⟩
  refine h.after rfl rfl rfl rfl ?_ hns.1 hlate
  show (if !p.n then p.pc + 2 + _ else p.pc + 2) = _
  rw [h.at_pc]
  cases p.n <;> rfl

/-- A byte goes to the sink and keeps the transmitter busy for a character time. -/
def Plain.sends (p : Plain) (value : Word) : Plain :=
  { p with dev := { p.dev with
    ttoBuf := value &&& 0o377
    consoleOut := p.dev.consoleOut.map (· ++ [value.setWidth 8])
    ttoCsr := p.dev.ttoCsr &&& ~~~dl11Done
    intReq := p.dev.intReq &&& ~~~(1#32 <<< IntId.tto.bit)
    ttoBusy := true
    ttoDoneNs := p.time + dl11TxNs } }

theorem QuietBus.sends (h : QuietBus p.dev) (value : Word) : QuietBus (p.sends value).dev where
  requests := by
    show p.dev.intReq &&& _ = 0
    rw [h.requests]
    exact BitVec.zero_and
  pirq := h.pirq
  clk := h.clk
  tto := by
    show p.dev.ttoCsr &&& ~~~dl11Done &&& dl11Ie = 0
    rw [BitMask.and_not_and_eq _ (by decide)]
    exact h.tto
  rk := h.rk
  rp := h.rp
  tm := h.tm
  rl := h.rl

theorem acts_xbuf (value : Word) (p : Plain) :
    Acts (writeOperand (.mem dl11Xbuf) true value) p ()
      (p.sends ((p.dev.ttoBuf &&& 0o377 &&& 0o177400) ||| (value.setWidth 8).setWidth 16)) := by
  refine .writeByte_io (w := p.dev.ttoBuf &&& 0o377) (g := fun v s => consoleWrite s dl11Xbuf v)
    inIo_xbuf xbuf_read (fun _ => rfl) ?_ ?_ (fun _ _ => rfl) ?_
  · exact fun s hs => congrArg (fun q : Plain => q.dev.ttoBuf &&& 0o377) hs
  · exact fun v s => ioWriteReg_dl11 (by decide) v
  · rintro s rfl
    exact ⟨⟨rfl, rfl, rfl, rfl⟩, rfl⟩

/-- `MOVB R0, @#XBUF` -/
theorem demo_send (hfit : 0o1040 + msg.length < 0o160000)
    (h : DemoAt msg 0o1016 sent limit late p) (hlate : late + 1000000 < 2 ^ 64)
    (hsent : sent < msg.length) (hr0 : p.r 0 &&& 0o377 = (msg[sent]).setWidth 16) :
    ∃ q, Runs p q ∧ DemoAt msg 0o1022 (sent + 1) (late + 1000000) (late + 10000) q ∧
      q.r 1 = p.r 1 := by
  have hword : p.Code p.pc 0o110037 := by
    rw [h.at_pc]
    exact h.loaded hfit 7 (by decide)
  have hnext : p.Code (p.pc + 2) dl11Xbuf := by
    rw [h.at_pc]
    exact h.loaded hfit 8 (by decide)
  let p₁ := p.setR regPc (p.pc + 2)
  let p₂ := p₁.setR regPc (p.pc + 2 + 2)
  let value : Word := (msg[sent]).setWidth 16
  let merged : Word := (p.dev.ttoBuf &&& 0o377 &&& 0o177400) ||| (value.setWidth 8).setWidth 16
  have hread : Acts (readOperand (.reg 0) true) p₁ value p₁ := by
    rw [show value = p₁.r 0 &&& 0o377 from hr0.symm]
    exact .read_regByte 0 p₁
  have hexec : Acts (execute 0o110037) p₁ () ((p₂.sends merged).codes value true) :=
    .mov rfl (.decode_reg rfl rfl p₁) hread (.decode_absolute rfl (hnext.congr rfl rfl))
      (acts_xbuf value p₂)
  have hbyte : merged.setWidth 8 = msg[sent] := by
    apply BitVec.eq_of_getLsbD_eq
    intro i hi
    interval_cases i <;> simp [merged, value]
  have hnow := h.time
  have hdone : (p.time + dl11TxNs).toNat = p.time.toNat + 1000000 := by
    rw [BitVec.toNat_add]
    exact Nat.mod_eq_of_lt (by show p.time.toNat + 1000000 < 2 ^ 64; omega)
  have hsends : DemoAt msg 0o1022 (sent + 1) (late + 1000000) late
      ((p₂.sends merged).codes value true) := by
    refine ⟨h.cfg, h.mem, h.bus.sends (p := p₂) merged, ?_, ?_, .inr ⟨rfl, ?_, ?_⟩, hnow⟩
    · show p.pc + 2 + 2 = 0o1022
      rw [h.at_pc]
      rfl
    · show p.dev.consoleOut.map (· ++ [merged.setWidth 8]) = _
      rw [h.out, hbyte, List.take_add_one, List.getElem?_eq_getElem hsent]
      rfl
    · show p.time < p.time + dl11TxNs
      rw [BitVec.lt_def, hdone]
      omega
    · show (p.time + dl11TxNs).toNat ≤ _
      omega
  refine ⟨_, hexec.runs hword 2100 (fun _ _ => rfl) hsends.bus, ?_, rfl⟩
  exact hsends.after rfl rfl rfl rfl hsends.at_pc (by decide) (by omega)

/-- `BR L` -/
theorem demo_br (hfit : 0o1040 + msg.length < 0o160000)
    (h : DemoAt msg 0o1022 sent limit late p) (hlate : late + 10000 < 2 ^ 64) :
    ∃ q, Runs p q ∧ DemoAt msg 0o1004 sent limit (late + 10000) q ∧ q.r 1 = p.r 1 := by
  have hword : p.Code p.pc 0o000770 := by
    rw [h.at_pc]
    exact h.loaded hfit 9 (by decide)
  have hrun := Runs.branch hword rfl rfl (fun s _ _ => show branchTaken s _ = true from rfl) h.bus
  refine ⟨_, hrun, ?_, rfl⟩
  refine h.after rfl rfl rfl rfl ?_ (by decide) hlate
  show p.pc + 2 + _ = 0o1004
  rw [h.at_pc]
  rfl

theorem DemoAt.mono {limit' late' : ℕ} (h : DemoAt msg pc sent limit late p) (hlimit : limit ≤ limit')
    (hlate : late ≤ late') : DemoAt msg pc sent limit' late' p := by
  refine ⟨h.cfg, h.mem, h.bus, h.at_pc, h.out, ?_, h.time.trans hlate⟩
  rcases h.sending with hready | ⟨hbusy, hnow, hdone⟩
  · exact .inl hready
  · exact .inr ⟨hbusy, hnow, hdone.trans hlimit⟩

/-! ## Its loops -/

/-- The poll of the transmitter for character `k`. -/
structure Polling (msg : List Byte) (k : ℕ) (b : Byte) (pc : Word) (limit late : ℕ) (p : Plain) :
    Prop where
  demo : DemoAt msg pc k limit late p
  ptr : p.r 1 = 0o1040 + BitVec.ofNat 16 (k + 1)
  char : p.r 0 &&& 0o377 = b.setWidth 16

/-- The poll ends: as long as it goes on, the time of the end of the last character comes nearer. -/
theorem poll_ends (hfit : 0o1040 + msg.length < 0o160000) (hlimit : limit + 1000000 < 2 ^ 64)
    (b : Byte) :
    Leads (fun s => (cpuStep s).cpu)
      (Portrayed (Polling msg k b 0o1010 limit (limit + 20000)))
      (Portrayed (Polling msg k b 0o1016 limit (limit + 40000))) := by
  refine .loop (fun s => if s.dev.ttoCsr &&& dl11Done ≠ 0 then 0 else limit - s.acct.timeNs.toNat)
    fun rank => ?_
  rintro s ⟨⟨p, hs, hp⟩, hrank⟩
  by_cases hready : p.dev.ttoCsr &&& dl11Done ≠ 0
  · -- the transmitter is ready: the branch falls through
    rcases demo_poll hfit hp.demo (by omega) with ⟨q, hq, hdemo, hptr, hchar, hn, -⟩
    rcases demo_bpl hfit hdemo (by omega) with ⟨u, hu, hdemo', hptr', hchar', -⟩
    rw [hn, decide_eq_true hready, if_pos rfl] at hdemo'
    refine ⟨2, .inl ⟨u, hu _ (hq _ hs), hdemo'.mono le_rfl (by omega), ?_, ?_⟩⟩
    · rw [hptr', hptr, hp.ptr]
    · rw [hchar', hchar, hp.char]
  · have hsending : p.dev.ttoBusy = true ∧ p.time < p.dev.ttoDoneNs ∧
        p.dev.ttoDoneNs.toNat ≤ limit := hp.demo.sending.resolve_left hready
    have hnow : p.time.toNat < limit := lt_of_lt_of_le hsending.2.1 hsending.2.2
    have hdemo₀ : DemoAt msg 0o1010 k limit limit p := { hp.demo with time := hnow.le }
    rcases demo_poll hfit hdemo₀ (by omega) with ⟨q, hq, hdemo, hptr, hchar, hn, hlater⟩
    rcases demo_bpl hfit hdemo (by omega) with ⟨u, hu, hdemo', hptr', hchar', hlater'⟩
    rw [hn, decide_eq_false hready, if_neg (by decide)] at hdemo'
    have hshown := hu _ (hq _ hs)
    refine ⟨2, .inr ⟨⟨u, hshown, hdemo'.mono le_rfl (by omega), ?_, ?_⟩, ?_⟩⟩
    · rw [hptr', hptr, hp.ptr]
    · rw [hchar', hchar, hp.char]
    · -- ready at last, or a little closer to it
      have hstart : s.acct.timeNs = p.time := congrArg Plain.time hs.sees
      have hwaiting : ¬s.dev.ttoCsr &&& dl11Done ≠ 0 := by
        rw [show s.dev = p.dev from congrArg Plain.dev hs.sees]
        exact hready
      have hend : (cpuStep (cpuStep s).cpu).cpu.acct.timeNs = u.time :=
        congrArg Plain.time hshown.sees
      have hless : p.time.toNat < u.time.toNat := lt_trans hlater hlater'
      rw [if_neg hwaiting, hstart] at hrank
      show (if (cpuStep (cpuStep s).cpu).cpu.dev.ttoCsr &&& dl11Done ≠ 0 then 0
        else limit - (cpuStep (cpuStep s).cpu).cpu.acct.timeNs.toNat) < rank
      rw [hend]
      split <;> omega

/-- A bound on the time at which character `k` is fetched. -/
def demoTime (k : ℕ) : ℕ := 2000000 * (k + 1)

theorem demoTime_eq (k : ℕ) : demoTime k = 2000000 * (k + 1) := rfl

/-- The head of the loop, with `k` characters sent. -/
structure Looping (msg : List Byte) (k : ℕ) (p : Plain) : Prop where
  demo : DemoAt msg 0o1004 k (demoTime k + 1000000) (demoTime k) p
  ptr : p.r 1 = 0o1040 + BitVec.ofNat 16 k

theorem demoTime_lt (hfit : 0o1040 + msg.length < 0o160000) (hk : k ≤ msg.length) :
    demoTime k + 10000000 < 2 ^ 64 := by
  rw [demoTime_eq]
  omega

/-- The fetch of character `k` or of the zero byte, up to the branch on it. -/
theorem demo_reads (hfit : 0o1040 + msg.length < 0o160000) (hk : k ≤ msg.length) :
    Leads (fun s => (cpuStep s).cpu) (Portrayed (Looping msg k))
      (Portrayed (Polling msg k (msg.getD k 0) (if msg.getD k 0 = 0 then 0o1024 else 0o1010)
        (demoTime k + 1000000) (demoTime k + 20000))) := by
  have htime := demoTime_lt hfit hk
  refine leads_of_runs (Q := fun p => Polling msg k (msg.getD k 0) 0o1006 (demoTime k + 1000000)
    (demoTime k + 10000) p ∧ p.z = decide (msg.getD k 0 = 0)) ?_ |>.trans (leads_of_runs ?_)
  · intro p hp
    rcases demo_fetch hfit hp.demo (by omega) hp.ptr hk with ⟨q, hq, hdemo, hptr, hchar, hz⟩
    exact ⟨q, hq, ⟨hdemo, hptr, hchar⟩, hz⟩
  · rintro p ⟨hp, hz⟩
    rcases demo_beq hfit hp.demo (by omega) with ⟨q, hq, hdemo, hptr, hchar⟩
    rw [hz] at hdemo
    refine ⟨q, hq, ?_, ?_, ?_⟩
    · have hlate : demoTime k + 10000 + 10000 ≤ demoTime k + 20000 := by omega
      simpa using hdemo.mono le_rfl hlate
    · rw [hptr, hp.ptr]
    · rw [hchar, hp.char]

/-- One round of the loop prints one character. -/
theorem demo_round (hfit : 0o1040 + msg.length < 0o160000) (hk : k < msg.length)
    (hchar : msg[k] ≠ 0) :
    Leads (fun s => (cpuStep s).cpu) (Portrayed (Looping msg k)) (Portrayed (Looping msg (k + 1))) := by
  have htime := demoTime_lt hfit hk.le
  have hget : msg.getD k 0 = msg[k] := by simp [hk]
  have hreads := demo_reads hfit hk.le
  rw [hget, if_neg hchar] at hreads
  have hlimit : demoTime k + 1000000 + 1000000 < 2 ^ 64 := by omega
  have hpoll := poll_ends (k := k) hfit hlimit msg[k]
  have henter : Leads (fun s => (cpuStep s).cpu)
      (Portrayed (Polling msg k msg[k] 0o1010 (demoTime k + 1000000) (demoTime k + 20000)))
      (Portrayed (Polling msg k msg[k] 0o1010 (demoTime k + 1000000)
        (demoTime k + 1000000 + 20000))) := by
    refine .of_imp ?_
    rintro s ⟨p, hs, hp⟩
    exact ⟨p, hs, hp.demo.mono le_rfl (by omega), hp.ptr, hp.char⟩
  have hsend : Leads (fun s => (cpuStep s).cpu)
      (Portrayed (Polling msg k msg[k] 0o1016 (demoTime k + 1000000)
        (demoTime k + 1000000 + 40000)))
      (Portrayed fun p => DemoAt msg 0o1022 (k + 1) (demoTime k + 1000000 + 40000 + 1000000)
        (demoTime k + 1000000 + 40000 + 10000) p ∧ p.r 1 = 0o1040 + BitVec.ofNat 16 (k + 1)) := by
    refine leads_of_runs fun p hp => ?_
    rcases demo_send hfit hp.demo (by omega) hk hp.char with ⟨q, hq, hdemo, hptr⟩
    exact ⟨q, hq, hdemo, hptr.trans hp.ptr⟩
  refine hreads.trans (henter.trans (hpoll.trans (hsend.trans (leads_of_runs ?_))))
  rintro p ⟨hdemo, hptr⟩
  rcases demo_br hfit hdemo (by omega) with ⟨q, hq, hdemo', hptr'⟩
  refine ⟨q, hq, hdemo'.mono ?_ ?_, hptr'.trans hptr⟩
  · rw [demoTime_eq, demoTime_eq]
    omega
  · rw [demoTime_eq, demoTime_eq]
    omega

end

/-! ## The whole program -/

section

variable {msg : List Byte}

theorem demoCpu_shows (msg : List Byte) : Shows (demoCpu msg) (plain (demoCpu msg)) where
  serene := {
    off := show ¬mmeOn cpuCreate by decide
    running := rfl
    awake := rfl
    trace := rfl
    yellow := rfl
    frozen := rfl
    extra := rfl
    trap := show cpuCreate.regs.psw &&& pswT = 0 by decide
    bus := {
      requests := rfl
      pirq := rfl
      clk := show cpuCreate.dev.clkCsr &&& kw11lIe = 0 by decide
      tto := show cpuCreate.dev.ttoCsr &&& dl11Ie = 0 by decide
      rk := show cpuCreate.dev.rk.rkcs &&& rkcsIe = 0 by decide
      rp := rfl
      tm := rfl
      rl := rfl } }
  sees := rfl

theorem demoCpu_at (msg : List Byte) :
    DemoAt msg 0o1000 0 (demoTime 0) 0 (plain (demoCpu msg)) where
  cfg := rfl
  mem := rfl
  bus := (demoCpu_shows msg).serene.bus
  at_pc := rfl
  out := rfl
  sending := .inl (show cpuCreate.dev.ttoCsr &&& dl11Done ≠ 0 by decide)
  time := le_rfl

theorem demo_halts (hmsg : ∀ b ∈ msg, b ≠ 0) (hfit : 0o1040 + msg.length < 0o160000) :
    Leads (fun s => (cpuStep s).cpu) (Portrayed (Looping msg 0)) fun s =>
      s.ctl.halted = true ∧ s.dev.consoleOut = some msg := by
  have hrounds := Leads.rounds (I := fun k => Portrayed (Looping msg k)) msg.length fun k hk =>
    demo_round hfit hk (hmsg _ (List.getElem_mem hk))
  have hend := demo_reads hfit (k := msg.length) le_rfl
  have hzero : msg.getD msg.length 0 = 0 := by simp
  rw [if_pos hzero] at hend
  refine hrounds.trans (hend.trans (.one ?_))
  rintro s ⟨p, hs, hp⟩
  have hword : p.Code p.pc 0 := by
    rw [hp.demo.at_pc]
    exact hp.demo.loaded hfit 10 (by decide)
  rcases hs.halts hword with ⟨hhalted, hplain⟩
  refine ⟨hhalted, ?_⟩
  rw [show (cpuStep s).cpu.dev = _ from congrArg Plain.dev hplain]
  show (settleBus _ p.dev).consoleOut = some msg
  rw [settleBus_consoleOut, hp.demo.out, List.take_length]

theorem cpuRun_halted {s : Cpu} {n i : ℕ} (h : (cpuRun s n).ctl.halted = true) (hi : n ≤ i) :
    cpuRun s i = cpuRun s n := by
  induction i, hi using Nat.le_induction with
  | base => rfl
  | succ i _ ih => rw [cpuRun, ih, cpuStep_halted h]

/-- What the console has received grows at its end. -/
theorem cpuRun_out_grows (s : Cpu) {i n : ℕ} (hi : i ≤ n) :
    ∃ more, (cpuRun s n).dev.consoleOut = (cpuRun s i).dev.consoleOut.map (· ++ more) := by
  induction n, hi using Nat.le_induction with
  | base => exact ⟨[], by simp⟩
  | succ n _ ih =>
    rcases ih with ⟨more, hmore⟩
    refine ⟨more ++ sentBytes (cpuStep (cpuRun s n)).events, ?_⟩
    rw [cpuRun, (cpuStep_console _).out, hmore, Option.map_map]
    congr 1
    funext out
    simp

/-- For every message without a zero byte that fits the memory: the program prints the message,
nothing else on the way, and halts. -/
theorem demo_prints (hmsg : ∀ b ∈ msg, b ≠ 0) (hfit : 0o1040 + msg.length < 0o160000) :
    (∃ n, ∀ i, n ≤ i → (cpuRun (demoCpu msg) i).ctl.halted = true ∧
      (cpuRun (demoCpu msg) i).dev.consoleOut = some msg) ∧
    ∀ i, ∃ out, out <+: msg ∧ (cpuRun (demoCpu msg) i).dev.consoleOut = some out := by
  have hfirst : Leads (fun s => (cpuStep s).cpu) (fun s => s = demoCpu msg)
      (Portrayed (Looping msg 0)) := by
    have hstart : Leads (fun s => (cpuStep s).cpu) (Portrayed (DemoAt msg 0o1000 0 (demoTime 0) 0))
        (Portrayed (Looping msg 0)) := by
      refine leads_of_runs fun p hp => ?_
      rcases demo_start hfit hp (by decide) with ⟨q, hq, hdemo, hptr⟩
      exact ⟨q, hq, hdemo.mono (by decide) (by decide), hptr⟩
    refine .trans (.of_imp ?_) hstart
    rintro s rfl
    exact ⟨_, demoCpu_shows msg, demoCpu_at msg⟩
  rcases hfirst.trans (demo_halts hmsg hfit) _ rfl with ⟨n, hhalted, hout⟩
  rw [cpuRun_iterate] at hhalted hout
  constructor
  · refine ⟨n, fun i hi => ?_⟩
    rw [cpuRun_halted hhalted hi]
    exact ⟨hhalted, hout⟩
  · intro i
    have hprefix {i : ℕ} (hi : i ≤ n) :
        ∃ out, out <+: msg ∧ (cpuRun (demoCpu msg) i).dev.consoleOut = some out := by
      rcases cpuRun_out_grows (demoCpu msg) hi with ⟨more, hmore⟩
      rw [hout] at hmore
      rcases Option.map_eq_some_iff.1 hmore.symm with ⟨out, hsome, happend⟩
      exact ⟨out, ⟨more, happend⟩, hsome⟩
    rcases Nat.le_total i n with hi | hi
    · exact hprefix hi
    · rw [cpuRun_halted hhalted hi]
      exact hprefix le_rfl

/-- The banner of the source. -/
theorem banner_printed :
    (∃ n, ∀ i, n ≤ i → (cpuRun (demoCpu demoMsg) i).ctl.halted = true ∧
      (cpuRun (demoCpu demoMsg) i).dev.consoleOut = some demoMsg) ∧
    ∀ i, ∃ out, out <+: demoMsg ∧ (cpuRun (demoCpu demoMsg) i).dev.consoleOut = some out :=
  demo_prints (by decide) (by decide)

end

end Pdp11
