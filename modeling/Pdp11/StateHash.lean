import Pdp11.Step
import Pdp11.Lib.ByteSequence

namespace Pdp11

open ByteSequence

/-! The identity hash of the machine. -/

attribute [ext] Cpu RegFile Control Mmu SysRegs FpRegs Devices Accounting Cache Rk11 Rp11 Tm11 Rl11 Rx11

/-! ## What is hashed -/

/-- FNV-1a over some more bytes. -/
def fnv1a (h : BitVec 64) (bytes : List Byte) : BitVec 64 :=
  bytes.foldl (fun h b => (h ^^^ b.setWidth 64) * 0x100000001b3) h

abbrev fnvOffset : BitVec 64 := 0xcbf29ce484222325

abbrev wordBytes (xs : List Word) : List Byte := scalars 2 xs

abbrev longBytes (xs : List (BitVec 32)) : List Byte := scalars 4 xs

abbrev quadBytes (xs : List (BitVec 64)) : List Byte := scalars 8 xs

def cpuChunks (s : Cpu) : List (List Byte) :=
  [wordBytes (elements 8 fun i => s.regs.r (.ofNat 3 i)), wordBytes [s.regs.psw],
    [flag s.ctl.halted], [flag s.ctl.waiting], [flag s.ctl.tracePending],
    [flag s.ctl.stackYellowPending], [flag s.ctl.ccFrozen], wordBytes [s.dev.pirq],
    wordBytes (elements 12 fun i => s.regs.regfile (.ofNat 3 (i / 2)) (.ofNat 1 i)),
    wordBytes (elements 4 fun i => s.regs.stackfile (.ofNat 2 i))]

def mmuChunks (s : Cpu) : List (List Byte) :=
  [wordBytes [s.mmu.mmr0], wordBytes [s.mmu.mmr1], wordBytes [s.mmu.mmr2], wordBytes [s.mmu.mmr3],
    wordBytes [s.sys.sr], wordBytes [s.sys.dr], wordBytes [s.sys.memerr], wordBytes [s.sys.ccr],
    wordBytes [s.sys.hitmiss], wordBytes [s.sys.cpuerr], wordBytes [s.sys.mbrk],
    wordBytes [s.sys.stklim], wordBytes (elements 64 fun i => s.mmu.par (.ofNat 6 i)),
    wordBytes (elements 64 fun i => s.mmu.pdr (.ofNat 6 i)),
    longBytes (elements 32 fun i => s.dev.ubMap (.ofNat 5 i))]

def fpChunks (s : Cpu) : List (List Byte) :=
  [quadBytes (elements 6 fun i => s.fp.fac (.ofNat 3 i)), wordBytes [s.fp.fps],
    wordBytes [s.fp.fec], wordBytes [s.fp.fea]]

/-- Interrupts, the line clock and the console. -/
def lineChunks (s : Cpu) : List (List Byte) :=
  [longBytes [s.dev.intReq], wordBytes [s.dev.clkCsr], longBytes [s.dev.clkTickNs],
    quadBytes [s.dev.clkNextNs], wordBytes [s.dev.ttiCsr], wordBytes [s.dev.ttiBuf],
    wordBytes [s.dev.ttoCsr], wordBytes [s.dev.ttoBuf], [flag s.dev.ttoBusy],
    quadBytes [s.dev.ttoDoneNs]]

def rkChunks (rk : Rk11) : List (List Byte) :=
  [wordBytes [rk.rkcs, rk.rker, rk.rkwc, rk.rkba, rk.rkda, rk.rkds], longBytes [rk.diskWords],
    [flag rk.busy], quadBytes [rk.doneNs]]

def rpChunks (rp : Rp11) : List (List Byte) :=
  [wordBytes [rp.cs1, rp.wc, rp.ba, rp.cs2, rp.bae, rp.da, rp.dc, rp.cc, rp.ds, rp.er1],
    longBytes [rp.diskWords], [flag rp.busy], quadBytes [rp.doneNs]]

def tmChunks (tm : Tm11) : List (List Byte) :=
  [wordBytes [tm.sta, tm.cmd, tm.bc, tm.ca, tm.db, tm.rdl], longBytes [tm.tapeLen],
    longBytes [tm.pos], [flag tm.wrp], [flag tm.busy], quadBytes [tm.doneNs]]

def rlChunks (rl : Rl11) : List (List Byte) :=
  [wordBytes [rl.rlcs, rl.rlba, rl.rlda, rl.rlmp, rl.rlbae, rl.trk], longBytes [rl.diskWords],
    [flag rl.busy], quadBytes [rl.doneNs]]

/-- The numbers of the states of the command state machine. -/
def RxState.code : RxState → Byte
  | .idle => 0 | .rwds => 1 | .rwdt => 2 | .rwxfr => 3 | .fill => 4 | .empty => 5 | .cmddone => 6

def rxChunks (rx : Rx11) : List (List Byte) :=
  [wordBytes [rx.rxcs], [rx.rxdb, rx.rxes, rx.ecode, rx.track, rx.sector, rx.state.code, rx.bptr,
    rx.curTrack], elements 128 fun i => rx.buf (.ofNat 7 i), longBytes [rx.diskBytes]]

/-- The cache structure, its two ways side by side. -/
def cacheBytes (c : Cache) : List Byte :=
  wordBytes (elements 512 fun i => c.tag (.ofNat 8 (i / 2)) (.ofNat 1 i)) ++
    elements 512 (fun i => flag (c.valid (.ofNat 8 (i / 2)) (.ofNat 1 i))) ++
    elements 256 (fun i => (c.victim (.ofNat 8 i)).setWidth 8) ++ quadBytes [c.misses]

def acctChunks (a : Accounting) : List (List Byte) :=
  [cacheBytes a.cache, quadBytes [a.timeNs], quadBytes [a.instrCount]]

/-- The words of a disk; none when it is detached. -/
def diskContents (disk : DiskImage) (words : BitVec 32) : List Byte :=
  match disk with
  | none => []
  | some d => wordBytes (elements words.toNat fun i => d (.ofNat 32 i))

/-- The bytes of a tape; none when it is detached. -/
def tapeContents (tape : ByteImage) (len : BitVec 32) : List Byte :=
  match tape with
  | none => []
  | some t => elements len.toNat fun i => t (.ofNat 32 i)

/-- Memory, and the media that are hashed: those of the RK11, the RP04 and the TM11. -/
def storeChunks (s : Cpu) : List (List Byte) :=
  [wordBytes (elements (2 ^ 21) fun i => s.mem (.ofNat 21 i)),
    diskContents s.dev.rk.disk s.dev.rk.diskWords, diskContents s.dev.rp.disk s.dev.rp.diskWords,
    tapeContents s.dev.tm.tape s.dev.tm.tapeLen]

/-- The calls of `fnv1a`, each with the bytes it is given. -/
def hashChunks (s : Cpu) : List (List Byte) :=
  cpuChunks s ++ (mmuChunks s ++ (fpChunks s ++ (lineChunks s ++ (rkChunks s.dev.rk ++
    (rpChunks s.dev.rp ++ (tmChunks s.dev.tm ++ (rlChunks s.dev.rl ++ (rxChunks s.dev.rx ++
      (acctChunks s.acct ++ storeChunks s)))))))))

/-- The byte sequence the hash is of. -/
def hashBytes (s : Cpu) : List Byte := (hashChunks s).flatten

/-- `pdp11_state_hash`. -/
def stateHash (s : Cpu) : BitVec 64 := (hashChunks s).foldl fnv1a fnvOffset

theorem stateHash_eq (s : Cpu) : stateHash s = fnv1a fnvOffset (hashBytes s) := by
  unfold stateHash hashBytes fnv1a
  rw [List.foldl_flatten]

/-! ## What is to be covered -/

/-- The media attached to a machine: the size of each, in words for the disks and in bytes for
the tape and the floppy. -/
structure Media where
  rk : Option (BitVec 32)
  rp : Option (BitVec 32)
  tm : Option (BitVec 32)
  rl : Option (BitVec 32)
  rx : Option (BitVec 32)

def media (s : Cpu) : Media :=
  { rk := s.dev.rk.disk.map fun _ => s.dev.rk.diskWords
    rp := s.dev.rp.disk.map fun _ => s.dev.rp.diskWords
    tm := s.dev.tm.tape.map fun _ => s.dev.tm.tapeLen
    rl := s.dev.rl.disk.map fun _ => s.dev.rl.diskWords
    rx := s.dev.rx.disk.map fun _ => s.dev.rx.diskBytes }

/-- A medium as far as it reaches. -/
def contents {w : ℕ} (image : Option (BitVec 32 → BitVec w)) (size : BitVec 32) :
    Option (BitVec 32 → BitVec w) :=
  image.map fun d i => if i < size then d i else 0

/-- The state of a machine without what the comparison leaves out: the bookkeeping of traps and
aborts, of which a halt in the middle of a trap can leave `inTrapPush` and `servicingStackTrap` set,
the elements past the ends of arrays and media, and the console sink of the host. -/
def identity (s : Cpu) : Cpu :=
  { s with
    regs.regfile := fun i b => if i < 6 then s.regs.regfile i b else 0
    ctl.inTrapPush := false
    ctl.servicingStackTrap := false
    ctl.abortVec := 0
    ctl.abortDepth := 0
    fp.fac := fun i => if i < 6 then s.fp.fac i else 0
    dev.consoleOut := none
    dev.rk.disk := contents s.dev.rk.disk s.dev.rk.diskWords
    dev.rp.disk := contents s.dev.rp.disk s.dev.rp.diskWords
    dev.tm.tape := contents s.dev.tm.tape s.dev.tm.tapeLen
    dev.rl.disk := contents s.dev.rl.disk s.dev.rl.diskWords
    dev.rx.disk := contents s.dev.rx.disk s.dev.rx.diskBytes
    acct.eisExtraNs := 0 }

/-! ## Reading the state back -/

theorem length_diskContents (disk : DiskImage) (words : BitVec 32) :
    (diskContents disk words).length =
      (disk.map fun _ => words).elim 0 fun n => n.toNat * 2 := by
  cases disk <;> simp [diskContents]

theorem length_tapeContents (tape : ByteImage) (len : BitVec 32) :
    (tapeContents tape len).length = (tape.map fun _ => len).elim 0 BitVec.toNat := by
  cases tape <;> simp [tapeContents]

theorem hashBytes_inj {s t : Cpu} (hm : media s = media t) (h : hashBytes s = hashBytes t) :
    hashChunks s = hashChunks t := by
  have hrk : (s.dev.rk.disk.map fun _ => s.dev.rk.diskWords) =
      t.dev.rk.disk.map fun _ => t.dev.rk.diskWords := congrArg Media.rk hm
  have hrp : (s.dev.rp.disk.map fun _ => s.dev.rp.diskWords) =
      t.dev.rp.disk.map fun _ => t.dev.rp.diskWords := congrArg Media.rp hm
  have htm : (s.dev.tm.tape.map fun _ => s.dev.tm.tapeLen) =
      t.dev.tm.tape.map fun _ => t.dev.tm.tapeLen := congrArg Media.tm hm
  refine List.eq_iff_flatten_eq.2 ⟨h, ?_⟩
  simp only [hashChunks, cpuChunks, mmuChunks, fpChunks, lineChunks, rkChunks, rpChunks, tmChunks,
    rlChunks, rxChunks, acctChunks, storeChunks, cacheBytes, List.map_append, List.map_cons,
    List.map_nil, List.length_append, List.length_cons, List.length_nil, length_scalars,
    length_elements, length_diskContents, length_tapeContents, hrk, hrp, htm]

theorem word_inj {x y : Word} (h : wordBytes [x] = wordBytes [y]) : x = y :=
  (List.cons.inj (scalars_inj (w := 16) (k := 2) (by decide) h rfl)).1

theorem long_inj {x y : BitVec 32} (h : longBytes [x] = longBytes [y]) : x = y :=
  (List.cons.inj (scalars_inj (w := 32) (k := 4) (by decide) h rfl)).1

theorem quad_inj {x y : BitVec 64} (h : quadBytes [x] = quadBytes [y]) : x = y :=
  (List.cons.inj (scalars_inj (w := 64) (k := 8) (by decide) h rfl)).1

theorem wordArray_inj {n : ℕ} {f g : ℕ → Word}
    (h : wordBytes (elements n f) = wordBytes (elements n g)) : ∀ i < n, f i = g i :=
  elements_inj (scalars_inj (w := 16) (k := 2) (by decide) h (by simp))

theorem longArray_inj {n : ℕ} {f g : ℕ → BitVec 32}
    (h : longBytes (elements n f) = longBytes (elements n g)) : ∀ i < n, f i = g i :=
  elements_inj (scalars_inj (w := 32) (k := 4) (by decide) h (by simp))

theorem quadArray_inj {n : ℕ} {f g : ℕ → BitVec 64}
    (h : quadBytes (elements n f) = quadBytes (elements n g)) : ∀ i < n, f i = g i :=
  elements_inj (scalars_inj (w := 64) (k := 8) (by decide) h (by simp))

/-- The registers of a structure, hashed as one run of words. -/
theorem words_inj {xs ys : List Word} (h : wordBytes xs = wordBytes ys)
    (hlen : xs.length = ys.length) : xs = ys :=
  scalars_inj (w := 16) (k := 2) (by decide) h hlen

theorem cpuChunks_inj {s t : Cpu} (h : cpuChunks s = cpuChunks t) :
    (identity s).regs = (identity t).regs ∧ (identity s).ctl = (identity t).ctl ∧
      s.dev.pirq = t.dev.pirq := by
  simp only [cpuChunks, List.cons.injEq, and_true] at h
  obtain ⟨hr, hpsw, hhalted, hwaiting, htrace, hyellow, hfrozen, hpirq, hfile, hstack⟩ := h
  refine ⟨RegFile.ext (eq_of_elements (wordArray_inj hr)) (word_inj hpsw) ?_
    (eq_of_elements (wordArray_inj hstack)), ?_, word_inj hpirq⟩
  · funext i b
    show (if i < 6 then s.regs.regfile i b else 0) = if i < 6 then t.regs.regfile i b else 0
    split
    · exact eq_at_of_pairs (n := 6) (wordArray_inj hfile) (BitVec.lt_def.1 ‹_›) b
    · rfl
  · exact Control.ext (flag_inj hhalted) (flag_inj hwaiting) (flag_inj htrace) (flag_inj hyellow)
      rfl rfl (flag_inj hfrozen) rfl rfl

theorem mmuChunks_inj {s t : Cpu} (h : mmuChunks s = mmuChunks t) :
    s.mmu = t.mmu ∧ s.sys = t.sys ∧ s.dev.ubMap = t.dev.ubMap := by
  simp only [mmuChunks, List.cons.injEq, and_true] at h
  obtain ⟨h0, h1, h2, h3, hsr, hdr, hmemerr, hccr, hhitmiss, hcpuerr, hmbrk, hstklim, hpar, hpdr,
    hmap⟩ := h
  exact ⟨Mmu.ext (word_inj h0) (word_inj h3) (word_inj h1) (word_inj h2)
      (eq_of_elements (wordArray_inj hpar)) (eq_of_elements (wordArray_inj hpdr)),
    SysRegs.ext (word_inj hsr) (word_inj hdr) (word_inj hmemerr) (word_inj hccr) (word_inj hhitmiss)
      (word_inj hcpuerr) (word_inj hmbrk) (word_inj hstklim),
    eq_of_elements (longArray_inj hmap)⟩

theorem fpChunks_inj {s t : Cpu} (h : fpChunks s = fpChunks t) :
    (identity s).fp = (identity t).fp := by
  simp only [fpChunks, List.cons.injEq, and_true] at h
  obtain ⟨hfac, hfps, hfec, hfea⟩ := h
  refine FpRegs.ext ?_ (word_inj hfps) (word_inj hfec) (word_inj hfea)
  funext i
  show (if i < 6 then s.fp.fac i else 0) = if i < 6 then t.fp.fac i else 0
  split
  · exact eq_at_of_elements (n := 6) (quadArray_inj hfac) (BitVec.lt_def.1 ‹_›)
  · rfl

theorem rkChunks_inj {rk rk' : Rk11} (h : rkChunks rk = rkChunks rk') :
    rk = { rk' with disk := rk.disk } := by
  simp only [rkChunks, List.cons.injEq, and_true] at h
  obtain ⟨hregs, hwords, hbusy, hdone⟩ := h
  have hregs := words_inj hregs rfl
  simp only [List.cons.injEq, and_true] at hregs
  obtain ⟨hcs, her, hwc, hba, hda, hds⟩ := hregs
  exact Rk11.ext hcs her hwc hba hda hds rfl (long_inj hwords) (flag_inj hbusy) (quad_inj hdone)

theorem rpChunks_inj {rp rp' : Rp11} (h : rpChunks rp = rpChunks rp') :
    rp = { rp' with disk := rp.disk } := by
  simp only [rpChunks, List.cons.injEq, and_true] at h
  obtain ⟨hregs, hwords, hbusy, hdone⟩ := h
  have hregs := words_inj hregs rfl
  simp only [List.cons.injEq, and_true] at hregs
  obtain ⟨hcs1, hwc, hba, hcs2, hbae, hda, hdc, hcc, hds, her1⟩ := hregs
  exact Rp11.ext hcs1 hwc hba hcs2 hbae hda hdc hcc hds her1 rfl (long_inj hwords) (flag_inj hbusy)
    (quad_inj hdone)

theorem tmChunks_inj {tm tm' : Tm11} (h : tmChunks tm = tmChunks tm') :
    tm = { tm' with tape := tm.tape } := by
  simp only [tmChunks, List.cons.injEq, and_true] at h
  obtain ⟨hregs, hlen, hpos, hwrp, hbusy, hdone⟩ := h
  have hregs := words_inj hregs rfl
  simp only [List.cons.injEq, and_true] at hregs
  obtain ⟨hsta, hcmd, hbc, hca, hdb, hrdl⟩ := hregs
  exact Tm11.ext hsta hcmd hbc hca hdb hrdl rfl (long_inj hlen) (long_inj hpos) (flag_inj hwrp)
    (flag_inj hbusy) (quad_inj hdone)

theorem rlChunks_inj {rl rl' : Rl11} (h : rlChunks rl = rlChunks rl') :
    rl = { rl' with disk := rl.disk } := by
  simp only [rlChunks, List.cons.injEq, and_true] at h
  obtain ⟨hregs, hwords, hbusy, hdone⟩ := h
  have hregs := words_inj hregs rfl
  simp only [List.cons.injEq, and_true] at hregs
  obtain ⟨hcs, hba, hda, hmp, hbae, htrk⟩ := hregs
  exact Rl11.ext hcs hba hda hmp hbae htrk rfl (long_inj hwords) (flag_inj hbusy) (quad_inj hdone)

theorem RxState.code_inj {a b : RxState} (h : a.code = b.code) : a = b := by
  revert h
  cases a <;> cases b <;> decide

theorem rxChunks_inj {rx rx' : Rx11} (h : rxChunks rx = rxChunks rx') :
    rx = { rx' with disk := rx.disk } := by
  simp only [rxChunks, List.cons.injEq, and_true] at h
  obtain ⟨hcs, ⟨hdb, hes, hecode, htrack, hsector, hstate, hbptr, hcur⟩, hbuf, hbytes⟩ := h
  exact Rx11.ext (word_inj hcs) hdb hes hecode htrack hsector (RxState.code_inj hstate) hbptr hcur
    (eq_of_elements (elements_inj hbuf)) rfl (long_inj hbytes)

theorem cacheBytes_inj {c c' : Cache} (h : cacheBytes c = cacheBytes c') : c = c' := by
  unfold cacheBytes at h
  obtain ⟨h, hmisses⟩ := List.append_inj h (by simp)
  obtain ⟨h, hvictim⟩ := List.append_inj h (by simp)
  obtain ⟨htag, hvalid⟩ := List.append_inj h (by simp)
  refine Cache.ext ?_ ?_ ?_ (quad_inj hmisses)
  · funext i b
    exact eq_at_of_pairs (n := 256) (wordArray_inj htag) i.isLt b
  · funext i b
    have hflags := elements_inj (n := 512) hvalid
    exact eq_at_of_pairs (n := 256) (fun j hj => flag_inj (hflags j hj)) i.isLt b
  · refine eq_of_elements fun i hi => ?_
    have hbyte := elements_inj (n := 256) hvictim i hi
    have hbit := congrArg (BitVec.setWidth 1) hbyte
    simpa using hbit

theorem contents_of_disk {disk disk' : DiskImage} {words : BitVec 32}
    (hsome : disk.isSome = disk'.isSome)
    (h : diskContents disk words = diskContents disk' words) :
    contents disk words = contents disk' words := by
  cases disk with
  | none =>
    cases disk' with
    | none => rfl
    | some d' => cases hsome
  | some d =>
    cases disk' with
    | none => cases hsome
    | some d' =>
      refine congrArg some (funext fun i => ?_)
      dsimp only
      split
      · exact eq_at_of_elements (wordArray_inj h) (BitVec.lt_def.1 ‹_›)
      · rfl

theorem contents_of_tape {tape tape' : ByteImage} {len : BitVec 32}
    (hsome : tape.isSome = tape'.isSome)
    (h : tapeContents tape len = tapeContents tape' len) :
    contents tape len = contents tape' len := by
  cases tape with
  | none =>
    cases tape' with
    | none => rfl
    | some d' => cases hsome
  | some d =>
    cases tape' with
    | none => cases hsome
    | some d' =>
      refine congrArg some (funext fun i => ?_)
      dsimp only
      split
      · exact eq_at_of_elements (elements_inj h) (BitVec.lt_def.1 ‹_›)
      · rfl

/-- The same medium is attached. -/
theorem isSome_of_size {α : Type} {x y : Option α} {m n : BitVec 32}
    (h : (x.map fun _ => m) = y.map fun _ => n) : x.isSome = y.isSome := by
  cases x <;> cases y <;> first | rfl | cases h

/-- The hashed bytes determine the whole state but the contents of the RL11's and the RX11's
media. -/
theorem identity_of_hashBytes {s t : Cpu} (hcfg : s.cfg = t.cfg) (hm : media s = media t)
    (h : hashBytes s = hashBytes t)
    (hrl : contents s.dev.rl.disk s.dev.rl.diskWords = contents t.dev.rl.disk t.dev.rl.diskWords)
    (hrx : contents s.dev.rx.disk s.dev.rx.diskBytes = contents t.dev.rx.disk t.dev.rx.diskBytes) :
    identity s = identity t := by
  have h := hashBytes_inj hm h
  -- the groups have fixed numbers of chunks, so that they split off one by one
  obtain ⟨hcpu, h⟩ := List.append_inj h rfl
  obtain ⟨hmmu, h⟩ := List.append_inj h rfl
  obtain ⟨hfp, h⟩ := List.append_inj h rfl
  obtain ⟨hline, h⟩ := List.append_inj h rfl
  obtain ⟨hrkc, h⟩ := List.append_inj h rfl
  obtain ⟨hrpc, h⟩ := List.append_inj h rfl
  obtain ⟨htmc, h⟩ := List.append_inj h rfl
  obtain ⟨hrlc, h⟩ := List.append_inj h rfl
  obtain ⟨hrxc, h⟩ := List.append_inj h rfl
  have hlen (a : Accounting) : (acctChunks a).length = 3 := by
    simp only [acctChunks, List.length_cons, List.length_nil]
  obtain ⟨hacct, hstore⟩ := List.append_inj h ((hlen _).trans (hlen _).symm)
  obtain ⟨hregs, hctl, hpirq⟩ := cpuChunks_inj hcpu
  obtain ⟨hmmu, hsys, hmap⟩ := mmuChunks_inj hmmu
  simp only [lineChunks, List.cons.injEq, and_true] at hline
  obtain ⟨hreq, hclk, htick, hnext, htti, httib, htto, httob, hbusy, hdone⟩ := hline
  simp only [acctChunks, List.cons.injEq, and_true] at hacct
  obtain ⟨hcache, htime, hcount⟩ := hacct
  simp only [storeChunks, List.cons.injEq, and_true] at hstore
  obtain ⟨hmem, hrkd, hrpd, htmd⟩ := hstore
  have hrk := rkChunks_inj hrkc
  have hrp := rpChunks_inj hrpc
  have htm := tmChunks_inj htmc
  have hrl' := rlChunks_inj hrlc
  have hrx' := rxChunks_inj hrxc
  have hrkw : s.dev.rk.diskWords = t.dev.rk.diskWords := by rw [hrk]
  have hrpw : s.dev.rp.diskWords = t.dev.rp.diskWords := by rw [hrp]
  have htmw : s.dev.tm.tapeLen = t.dev.tm.tapeLen := by rw [htm]
  rw [hrkw] at hrkd
  rw [hrpw] at hrpd
  rw [htmw] at htmd
  -- the media are hashed as far as they reach
  have hrkc := contents_of_disk (isSome_of_size (congrArg Media.rk hm)) hrkd
  have hrpc := contents_of_disk (isSome_of_size (congrArg Media.rp hm)) hrpd
  have htmc := contents_of_tape (isSome_of_size (congrArg Media.tm hm)) htmd
  refine Cpu.ext hcfg hregs hctl hmmu hsys (fpChunks_inj hfp) ?_ ?_
    (eq_of_elements (wordArray_inj hmem))
  · refine Devices.ext hpirq (long_inj hreq) (word_inj hclk) (long_inj htick) (quad_inj hnext)
      (word_inj htti) (word_inj httib) (word_inj htto) (word_inj httob) (flag_inj hbusy)
      (quad_inj hdone) rfl ?_ ?_ ?_ ?_ ?_ hmap
    · show { s.dev.rk with disk := contents s.dev.rk.disk s.dev.rk.diskWords } =
        { t.dev.rk with disk := contents t.dev.rk.disk t.dev.rk.diskWords }
      rw [hrkw, hrkc, hrk]
    · show { s.dev.rp with disk := contents s.dev.rp.disk s.dev.rp.diskWords } =
        { t.dev.rp with disk := contents t.dev.rp.disk t.dev.rp.diskWords }
      rw [hrpw, hrpc, hrp]
    · show { s.dev.tm with tape := contents s.dev.tm.tape s.dev.tm.tapeLen } =
        { t.dev.tm with tape := contents t.dev.tm.tape t.dev.tm.tapeLen }
      rw [htmw, htmc, htm]
    · show { s.dev.rl with disk := contents s.dev.rl.disk s.dev.rl.diskWords } =
        { t.dev.rl with disk := contents t.dev.rl.disk t.dev.rl.diskWords }
      rw [hrl, hrl']
    · show { s.dev.rx with disk := contents s.dev.rx.disk s.dev.rx.diskBytes } =
        { t.dev.rx with disk := contents t.dev.rx.disk t.dev.rx.diskBytes }
      rw [hrx, hrx']
  · exact Accounting.ext (quad_inj hcount) (quad_inj htime) rfl (cacheBytes_inj hcache)

/-! ## Coverage -/

/-- A medium without contents. -/
def NoContents (size : Option (BitVec 32)) : Prop := size = none ∨ size = some 0

theorem contents_eq_of_none {w : ℕ} {x y : Option (BitVec 32 → BitVec w)} {m n : BitVec 32}
    (hsize : (x.map fun _ => m) = y.map fun _ => n) (h : NoContents (x.map fun _ => m)) :
    contents x m = contents y n := by
  cases x with
  | none =>
    cases y with
    | none => rfl
    | some e => cases hsize
  | some d =>
    cases y with
    | none => cases hsize
    | some e =>
      obtain hn | hz := h
      · cases hn
      · have hm : m = 0 := Option.some.inj hz
        have hn : m = n := Option.some.inj hsize
        subst hn hm
        refine congrArg some (funext fun i => ?_)
        have hi : ¬i < 0 := by simp
        dsimp only
        rw [if_neg hi, if_neg hi]

/-- A machine of a configuration with given media, whose RL11 and RX11 media are filled with the
given values. -/
def filled (cfg : Config) (m : Media) (word : Word) (byte : Byte) : Cpu :=
  { cpuCreate with
    cfg := cfg
    dev.rk.disk := m.rk.map fun _ _ => 0
    dev.rk.diskWords := m.rk.getD 0
    dev.rp.disk := m.rp.map fun _ _ => 0
    dev.rp.diskWords := m.rp.getD 0
    dev.tm.tape := m.tm.map fun _ _ => 0
    dev.tm.tapeLen := m.tm.getD 0
    dev.rl.disk := m.rl.map fun _ _ => word
    dev.rl.diskWords := m.rl.getD 0
    dev.rx.disk := m.rx.map fun _ _ => byte
    dev.rx.diskBytes := m.rx.getD 0 }

theorem media_filled (cfg : Config) (m : Media) (word : Word) (byte : Byte) :
    media (filled cfg m word byte) = m := by
  have hsize {w : ℕ} (size : Option (BitVec 32)) (d : BitVec 32 → BitVec w) :
      ((size.map fun _ => d).map fun _ => size.getD 0) = size := by
    cases size <;> rfl
  obtain ⟨rk, rp, tm, rl, rx⟩ := m
  simp only [media, filled, hsize]

/-- The contents of a medium that has some show what it is filled with. -/
theorem contents_fill_inj {w : ℕ} {size : Option (BitVec 32)} (h : ¬NoContents size) {v v' : BitVec w}
    (hc : contents (size.map fun _ _ => v) (size.getD 0) =
      contents (size.map fun _ _ => v') (size.getD 0)) : v = v' := by
  cases size with
  | none => exact absurd (.inl rfl) h
  | some n =>
    have hn : (0 : BitVec 32) < n := by
      by_contra hn
      have hz : n = 0 := by simpa using hn
      exact h (.inr (by rw [hz]))
    have hz := congrFun (Option.some.inj hc) 0
    simpa only [Option.getD_some, if_pos hn] using hz

/-- The hash covers the whole state of the machines of a configuration exactly when neither an
RL11 nor an RX11 medium with contents is attached. -/
theorem hash_covers_iff (cfg : Config) (m : Media) :
    (∀ s t : Cpu, s.cfg = cfg → t.cfg = cfg → media s = m → media t = m →
      hashBytes s = hashBytes t → identity s = identity t) ↔
      NoContents m.rl ∧ NoContents m.rx := by
  constructor
  · intro h
    have hfilled (word : Word) (byte : Byte) :
        identity (filled cfg m word byte) = identity (filled cfg m 0 0) :=
      h _ _ rfl rfl (media_filled cfg m word byte) (media_filled cfg m 0 0) rfl
    constructor
    · by_contra hrl
      have hc := congrArg (fun s : Cpu => s.dev.rl.disk) (hfilled 1 0)
      exact absurd (contents_fill_inj hrl hc) (by decide)
    · by_contra hrx
      have hc := congrArg (fun s : Cpu => s.dev.rx.disk) (hfilled 0 1)
      exact absurd (contents_fill_inj hrx hc) (by decide)
  · rintro ⟨hrl, hrx⟩ s t hs ht hms hmt hbytes
    have hm : media s = media t := hms.trans hmt.symm
    refine identity_of_hashBytes (hs.trans ht.symm) hm hbytes ?_ ?_
    · have hnone : NoContents (media s).rl := hms ▸ hrl
      exact contents_eq_of_none (congrArg Media.rl hm) hnone
    · have hnone : NoContents (media s).rx := hms ▸ hrx
      exact contents_eq_of_none (congrArg Media.rx hm) hnone

/-- An 11/70 just created, with an RL01 pack of one word throughout. -/
def packed (word : Word) : Cpu := rlAttach cpuCreate (some fun _ => word) 0o12000000

/-- Two packs that differ in every word are hashed alike. -/
theorem packed_hashed_alike : ¬∀ s t : Cpu, s.cfg = t.cfg → media s = media t →
    hashBytes s = hashBytes t → identity s = identity t := by
  intro h
  have hid := h (packed 0) (packed 1) rfl rfl rfl
  have hpack : ¬NoContents (some 0o12000000) := by
    rintro (hn | hz)
    · cases hn
    · exact absurd (Option.some.inj hz) (by decide)
  have hc := contents_fill_inj hpack (congrArg (fun s : Cpu => s.dev.rl.disk) hid)
  exact absurd hc (by decide)

end Pdp11
