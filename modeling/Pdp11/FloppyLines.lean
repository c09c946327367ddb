import Pdp11.DeviceLines

namespace Pdp11

open InterruptLine Function

/-! ## RX11 -/

theorem Moved.rx {s t : Cpu} {l : InterruptLine} (h : Moved .rx s t l) {rx : Rx11} {mem : Mem}
    (f : InterruptLine → InterruptLine)
    (hf : lineOf { t.dev with rx := rx } .rx = f (lines t .rx)) :
    Moved .rx s { t with dev.rx := rx, mem := mem } (f l) := by
  refine h.step f (fun d hd => ?_) hf fun he => absurd rfl he
  cases d <;> first | rfl | exact absurd rfl hd

/-- A change of the RX11 that no line shows. -/
def RxQuiet (s t : Cpu) : Prop := lines t = lines s

theorem RxQuiet.refl (s : Cpu) : RxQuiet s s := rfl

theorem Moved.rxQuiet {s t u : Cpu} {l : InterruptLine} (h : Moved .rx s t l) (hu : RxQuiet t u) :
    Moved .rx s u l := ⟨hu.trans h.moves, fun he => absurd rfl he⟩

theorem RxQuiet.follows {s t : Cpu} (h : RxQuiet s t) : Follows Served .rx s t (lines s .rx) :=
  ⟨lines s .rx, .rest _, (Moved.refl .rx s).rxQuiet h⟩

theorem RxQuiet.rx {s t : Cpu} (h : RxQuiet s t) {rx : Rx11} {mem : Mem}
    (hcs : rx.rxcs &&& 0o140 = t.dev.rx.rxcs &&& 0o140)
    (hidle : rx.state = .idle ↔ t.dev.rx.state = .idle) :
    RxQuiet s { t with dev.rx := rx, mem := mem } := by
  have hbit (i : ℕ) (hi : (0o140 : Word).getLsbD i = true) :
      rx.rxcs.getLsbD i = t.dev.rx.rxcs.getLsbD i := by
    have hb := congrArg (fun v : Word => v.getLsbD i) hcs
    simpa only [BitVec.getLsbD_and, hi, Bool.and_true] using hb
  have hmoved : Moved .rx t { t with dev.rx := rx, mem := mem } (lines t .rx) := by
    refine (Moved.refl .rx t).rx id ?_
    simp only [lineOf, hbit 5 (by decide), hbit 6 (by decide), ne_eq, hidle]
    rfl
  exact hmoved.kept.trans h

theorem rxDone_moved {s t : Cpu} {l : InterruptLine} (h : Moved .rx s t l) (esrFlags : Byte)
    (newEcode : Option Byte) : Moved .rx s (rxDone t esrFlags newEcode) l.arrive := by
  have hline : lineOf { t.dev with rx := { t.dev.rx with
      state := .idle
      rxcs := t.dev.rx.rxcs ||| rxcsDone } } .rx =
      { lines t .rx with done := true, busy := false } := by
    simp [lineOf, requests]
  have h1 : Moved .rx s { t with
      dev.rx.state := .idle
      dev.rx.rxcs := t.dev.rx.rxcs ||| rxcsDone } { l with done := true, busy := false } :=
    h.rx (fun l => { l with done := true, busy := false }) hline
  have hie : (t.dev.rx.rxcs ||| rxcsDone).getLsbD 6 = l.ie := by
    rw [← h.own]
    simp [lineOf]
  have h2 := h1.arrive hie
  have hrxes {u : Cpu} (hu : Moved .rx s u l.arrive) (rxes : Byte) :
      Moved .rx s { u with dev.rx.rxes := rxes } l.arrive :=
    hu.rxQuiet ((RxQuiet.refl u).rx rfl .rfl)
  have herr {u : Cpu} (hu : Moved .rx s u l.arrive) (code : Byte) : Moved .rx s
      (if 0 < code then { u with dev.rx.rxcs := u.dev.rx.rxcs ||| rxcsErr } else u) l.arrive := by
    split
    · exact hu.rxQuiet ((RxQuiet.refl u).rx (BitMask.or_and_eq _ (by decide)) .rfl)
    · exact hu
  cases newEcode with
  | none => exact hrxes h2 _
  | some code => exact (herr (hrxes h2 _) code).rxQuiet ((RxQuiet.refl _).rx rfl .rfl)

theorem rxTransfer_moved {s t : Cpu} {l : InterruptLine} (h : Moved .rx s t l) :
    Moved .rx s (rxTransfer t) l.arrive := by
  have hquiet {u : Cpu} (hu : RxQuiet t u) (esrFlags : Byte) (newEcode : Option Byte) :
      Moved .rx s (rxDone u esrFlags newEcode) l.arrive := rxDone_moved (h.rxQuiet hu) _ _
  have h0 := RxQuiet.refl t
  have h1 : RxQuiet t { t with dev.rx.curTrack := t.dev.rx.track } := h0.rx rfl .rfl
  have h2 : RxQuiet t (if rxFunc t.dev.rx = rxFuncWrdel then
      { t with dev.rx.curTrack := t.dev.rx.track, dev.rx.rxes := t.dev.rx.rxes ||| rxesDd }
      else { t with dev.rx.curTrack := t.dev.rx.track }) := by
    split
    · exact h0.rx rfl .rfl
    · exact h1
  have hbuf {u : Cpu} (hu : RxQuiet t u) (buf : BitVec 7 → Byte) :
      RxQuiet t { u with dev.rx.buf := buf } := hu.rx rfl .rfl
  have hdisk {u : Cpu} (hu : RxQuiet t u) (disk : ByteImage) :
      RxQuiet t { u with dev.rx.disk := disk } := hu.rx rfl .rfl
  unfold rxTransfer
  dsimp only
  split
  · exact hquiet h0 _ _
  split
  · exact hquiet h0 _ _
  split
  · exact hquiet h1 _ _
  split
  · exact hquiet (hbuf h2 _) _ _
  · exact hquiet (hdisk h2 _) _ _

/-- A step of the state machine completes the command or moves no line. -/
theorem rxStep_follows {s t : Cpu} {l : InterruptLine} (h : Moved .rx s t l) :
    Follows Served .rx s (rxStep t) l := by
  have hdone {u : Cpu} (hu : RxQuiet t u) (newEcode : Option Byte) :
      Follows Served .rx s (rxDone u 0 newEcode) l :=
    ⟨_, .arrive l, rxDone_moved (h.rxQuiet hu) _ _⟩
  have hquiet {u : Cpu} (hu : RxQuiet t u) : Follows Served .rx s u l := ⟨l, .rest l, h.rxQuiet hu⟩
  have h0 := RxQuiet.refl t
  have htr (csr : Word) : (csr ||| rxcsTr) &&& 0o140 = csr &&& 0o140 :=
    BitMask.or_and_eq _ (by decide)
  have hfill : RxQuiet t { t with
      dev.rx.buf := Function.update t.dev.rx.buf (t.dev.rx.bptr.setWidth 7) t.dev.rx.rxdb
      dev.rx.bptr := t.dev.rx.bptr + 1 } := h0.rx rfl .rfl
  have hecode : RxQuiet t { t with dev.rx.rxdb := t.dev.rx.ecode } := h0.rx rfl .rfl
  unfold rxStep
  dsimp only
  split
  · exact .ite (hdone h0 _) (hquiet (h0.rx (htr _) .rfl))
  · exact .ite (hquiet (RxQuiet.rx hfill (htr _) .rfl)) (hdone hfill _)
  · rename_i hstate
    exact hquiet (h0.rx (htr _) (by simp [hstate]))
  · rename_i hstate
    exact ⟨_, .arrive l, rxTransfer_moved (h.rxQuiet (h0.rx rfl (by simp [hstate])))⟩
  · exact ⟨_, .arrive l, rxTransfer_moved h⟩
  · exact .ite (hdone hecode _) (hdone h0 _)
  · exact hquiet h0

theorem rxResetState_moved (s : Cpu) : Moved .rx s (rxResetState s) (lines s .rx).clear := by
  unfold rxResetState
  dsimp only
  have h1 (rxes : Byte) : Moved .rx s { s with
      dev.rx.rxcs := rxcsDone
      dev.rx.rxes := rxes
      dev.rx.rxdb := rxes
      dev.rx.ecode := 0
      dev.rx.state := .idle
      dev.rx.bptr := 0 } ⟨true, false, false, (lines s .rx).requested⟩ := by
    refine (Moved.refl .rx s).rx (fun l => ⟨true, false, false, l.requested⟩) ?_
    simp [lineOf, requests]
  exact (h1 _).drop

/-- Taking a byte from, or giving one to, a command that has requested the transfer. -/
theorem rxResume_follows {s t : Cpu} (h : RxQuiet s t) :
    Follows Served .rx s (rxStep { t with dev.rx.rxcs := t.dev.rx.rxcs &&& ~~~rxcsTr })
      (lines s .rx) := by
  have h1 : RxQuiet s { t with dev.rx.rxcs := t.dev.rx.rxcs &&& ~~~rxcsTr } :=
    h.rx (BitMask.and_not_and_eq _ (by decide)) .rfl
  exact rxStep_follows ((Moved.refl .rx s).rxQuiet h1)

theorem rxRead_follows (s : Cpu) (addr : Word) :
    Follows Served .rx s (rxRead s addr).2 (lines s .rx) := by
  unfold rxRead
  dsimp only
  split_ifs
  · exact (RxQuiet.refl s).follows
  · exact rxResume_follows (.refl s)
  · exact (RxQuiet.refl s).follows

/-- The functions a launch completes at once. -/
def rxEndsAtOnce (value : Word) : Bool :=
  ((value >>> 1) &&& 7) ∉ [rxFuncFill, rxFuncEmpty, rxFuncRead, rxFuncWrite, rxFuncWrdel]

/-- A launch loads the enable bit and leaves a request where it is. -/
theorem rxGo_moved (s : Cpu) (value : Word) :
    Moved .rx s (rxGo s value)
      (if rxEndsAtOnce value then ((lines s .rx).launch (value.getLsbD 6)).arrive
      else (lines s .rx).launch (value.getLsbD 6)) := by
  have h1 : Moved .rx s { s with
      dev.rx.rxcs := value &&& (rxcsIe ||| rxcsDrv ||| rxcsFunc)
      dev.rx.bptr := 0 } { lines s .rx with done := false, ie := value.getLsbD 6 } := by
    refine (Moved.refl .rx s).rx (fun l => { l with done := false, ie := value.getLsbD 6 }) ?_
    simp [lineOf, requests]
  generalize hs1 : ({ s with
      dev.rx.rxcs := value &&& (rxcsIe ||| rxcsDrv ||| rxcsFunc)
      dev.rx.bptr := 0 } : Cpu) = s1 at h1
  have hfunc : rxFunc s1.dev.rx = (value >>> 1) &&& 7 := by
    subst hs1
    show ((value &&& (rxcsIe ||| rxcsDrv ||| rxcsFunc)) >>> 1) &&& 7 = (value >>> 1) &&& 7
    rw [BitVec.ushiftRight_and_distrib, BitVec.and_assoc]
    rfl
  have hbptr : s1.dev.rx.bptr = 0 := by
    subst hs1
    rfl
  have hlaunch {state : RxState} (hstate : state ≠ .idle) : Moved .rx s
      { s1 with dev.rx.state := state } ((lines s .rx).launch (value.getLsbD 6)) := by
    refine h1.rx (fun l => { l with busy := true }) ?_
    simp [lineOf, requests, hstate]
  have htr {t : Cpu} (h : Moved .rx s t ((lines s .rx).launch (value.getLsbD 6))) (rxes : Byte) :
      Moved .rx s { t with dev.rx.rxcs := t.dev.rx.rxcs ||| rxcsTr, dev.rx.rxes := rxes }
        ((lines s .rx).launch (value.getLsbD 6)) :=
    h.rxQuiet ((RxQuiet.refl t).rx (BitMask.or_and_eq _ (by decide)) .rfl)
  have hbyte {t : Cpu} (h : Moved .rx s t ((lines s .rx).launch (value.getLsbD 6))) (rxdb bptr : Byte) :
      Moved .rx s { t with
        dev.rx.rxdb := rxdb
        dev.rx.bptr := bptr
        dev.rx.rxcs := t.dev.rx.rxcs ||| rxcsTr } ((lines s .rx).launch (value.getLsbD 6)) :=
    h.rxQuiet ((RxQuiet.refl t).rx (BitMask.or_and_eq _ (by decide)) .rfl)
  -- EMPTY gives its first byte at once
  have hempty : rxStep { s1 with dev.rx.state := .empty } = { s1 with
      dev.rx.state := .empty
      dev.rx.rxdb := s1.dev.rx.buf (s1.dev.rx.bptr.setWidth 7)
      dev.rx.bptr := s1.dev.rx.bptr + 1
      dev.rx.rxcs := s1.dev.rx.rxcs ||| rxcsTr } := by
    show (if rxNumby ≤ s1.dev.rx.bptr then _ else _) = _
    rw [hbptr, if_neg (by decide)]
  -- the other functions end within the launch
  have hended : Moved .rx s (rxStep { s1 with dev.rx.state := .cmddone })
      ((lines s .rx).launch (value.getLsbD 6)).arrive := by
    have h2 : Moved .rx s { s1 with dev.rx.state := .cmddone } _ := hlaunch (by decide)
    have hecode (t : Cpu) : RxQuiet t { t with dev.rx.rxdb := t.dev.rx.ecode } :=
      (RxQuiet.refl t).rx rfl .rfl
    show Moved .rx s (if rxFunc s1.dev.rx = rxFuncEcode then _ else _) _
    split
    · exact rxDone_moved (h2.rxQuiet (hecode _)) _ _
    · exact rxDone_moved h2 _ _
  unfold rxGo rxEndsAtOnce
  rw [hs1]
  dsimp only
  rw [hfunc]
  generalize (value >>> 1) &&& 7 = func
  by_cases h0 : func = rxFuncFill
  · subst h0
    have h1 : Moved .rx s { s1 with dev.rx.state := .fill } _ := hlaunch (by decide)
    exact htr h1 _
  rw [if_neg h0]
  by_cases h1 : func = rxFuncEmpty
  · subst h1
    rw [if_pos rfl, hempty]
    have h2 : Moved .rx s { s1 with dev.rx.state := .empty } _ := hlaunch (by decide)
    exact hbyte h2 _ _
  rw [if_neg h1]
  by_cases h2 : func = rxFuncRead ∨ func = rxFuncWrite ∨ func = rxFuncWrdel
  · rw [if_pos h2, if_neg (by rcases h2 with rfl | rfl | rfl <;> decide)]
    have h3 : Moved .rx s { s1 with dev.rx.state := .rwds } _ := hlaunch (by decide)
    exact htr h3 _
  · have hends : func ∉ [rxFuncFill, rxFuncEmpty, rxFuncRead, rxFuncWrite, rxFuncWrdel] := by
      simp only [List.mem_cons, List.not_mem_nil, or_false]
      tauto
    rw [if_neg h2, if_pos (decide_eq_true hends)]
    exact hended

/-- A write that launches a function: GO without INIT, from the idle state. -/
def rxLaunches (s : Cpu) (addr value : Word) : Prop :=
  addr = 0o177170 ∧ value &&& rxcsInit = 0 ∧ value &&& rxcsGo ≠ 0 ∧ s.dev.rx.state = .idle

theorem rxWrite_launch {s : Cpu} {addr value : Word} (h : rxLaunches s addr value) :
    rxWrite s addr value = rxGo s value := by
  obtain ⟨ha, hinit, hgo⟩ := h
  unfold rxWrite rxWriteRxcs
  rw [if_pos ha, if_neg (not_not.2 hinit), if_pos hgo]

theorem rxIe_moved (s : Cpu) (value : Word) :
    Moved .rx s
      (let s := ieWrite s (s.dev.rx.rxcs &&& (rxcsDone ||| rxcsIe) = rxcsDone) value .rx
      { s with dev.rx.rxcs := (s.dev.rx.rxcs &&& ~~~rxcsRw) ||| (value &&& rxcsRw) })
      ((lines s .rx).setIe (value.getLsbD 6)) := by
  have h1 := (Moved.refl .rx s).ieWrite (rxDone_only s.dev.rx.rxcs) value
  refine h1.rx (fun l => { l with ie := value.getLsbD 6 }) ?_
  simp [lineOf, requests]

/-- A write of RXCS without INIT and GO. -/
theorem rxWriteRxcs_ie (s : Cpu) {value : Word} (hinit : value &&& rxcsInit = 0)
    (hgo : value &&& rxcsGo = 0) :
    Moved .rx s (rxWriteRxcs s value) ((lines s .rx).setIe (value.getLsbD 6)) := by
  unfold rxWriteRxcs
  rw [if_neg (not_not.2 hinit), if_neg fun hlaunch => hlaunch.1 hgo]
  exact rxIe_moved s value

/-- A write of RXDB gives a byte to a command that has requested it. -/
theorem rxWriteData_follows (s : Cpu) {addr : Word} (h : addr ≠ 0o177170) (value : Word) :
    Follows Served .rx s (rxWrite s addr value) (lines s .rx) := by
  have hbyte (rxdb : Byte) : RxQuiet s { s with dev.rx.rxdb := rxdb } :=
    (RxQuiet.refl s).rx rfl .rfl
  unfold rxWrite
  rw [if_neg h]
  exact .ite (.ite (rxResume_follows (hbyte _)) (hbyte _).follows) (RxQuiet.refl s).follows

/-- A write that launches nothing. -/
theorem rxWrite_follows {s : Cpu} {addr value : Word} (h : ¬rxLaunches s addr value) :
    Follows Steps .rx s (rxWrite s addr value) (lines s .rx) := by
  by_cases ha : addr = 0o177170
  · unfold rxWrite rxWriteRxcs
    rw [if_pos ha]
    refine .ite_of (fun _ => ?_) fun hinit => .ite_of (fun hgo => ?_) fun _ => ?_
    · exact (rxResetState_moved s).follows (Step.clear _).steps
    · exact absurd ⟨ha, not_not.1 hinit, hgo⟩ h
    · exact (rxIe_moved s value).follows (Step.setIe _ _).steps
  · exact (rxWriteData_follows s ha value).mono fun _ _ => Served.steps

end Pdp11
