import Pdp11.ControllerFrames
import Pdp11.UnitEffects
import Pdp11.ByteWrites

namespace Pdp11

open FaultState

/-! The console sends what programs store in its buffer, and keeps a character until it is taken. -/

/-- The bytes that the stores to XBUF among some events send. -/
def sentBytes (es : List Event) : List Byte :=
  (writesOf es).filterMap fun w => if w.1 = dl11Xbuf then some (w.2.setWidth 8) else none

theorem sentBytes_append (es es' : List Event) :
    sentBytes (es ++ es') = sentBytes es ++ sentBytes es' := by
  simp [sentBytes, writesOf, List.filterMap_append]

/-- The receiver holds a character that no program has taken. -/
def unread (s : Cpu) : Prop := s.dev.ttiCsr &&& dl11Done ≠ 0

instance (s : Cpu) : Decidable (unread s) := inferInstanceAs (Decidable (_ ≠ _))

/-- The console sends the bytes `out`; a character in the receiver stays or is taken. -/
structure ConsoleMoves (s t : Cpu) (out : List Byte) : Prop where
  out : t.dev.consoleOut = s.dev.consoleOut.map (· ++ out)
  buf : t.dev.ttiBuf = s.dev.ttiBuf
  unread : unread t → unread s

namespace ConsoleMoves

variable {s t u : Cpu} {out out' : List Byte}

theorem of_same (hout : t.dev.consoleOut = s.dev.consoleOut) (hbuf : t.dev.ttiBuf = s.dev.ttiBuf)
    (hcsr : Pdp11.unread t → Pdp11.unread s) : ConsoleMoves s t [] := by
  refine ⟨?_, hbuf, hcsr⟩
  rw [hout]
  cases s.dev.consoleOut <;> simp

theorem of_dev (h : t.dev = s.dev) : ConsoleMoves s t [] := by
  refine .of_same (by rw [h]) (by rw [h]) fun hu => ?_
  unfold Pdp11.unread at hu ⊢
  rwa [h] at hu

theorem of_units (h : UnitsOnly s t) : ConsoleMoves s t [] := by
  have hcsr : t.dev.ttiCsr = s.dev.ttiCsr := h.congr fun c => c.dev.ttiCsr
  refine .of_same (h.congr fun c => c.dev.consoleOut) (h.congr fun c => c.dev.ttiBuf) fun hu => ?_
  unfold Pdp11.unread at hu ⊢
  rwa [hcsr] at hu

theorem trans (h : ConsoleMoves s t out) (h' : ConsoleMoves t u out') :
    ConsoleMoves s u (out ++ out') := by
  refine ⟨?_, h'.buf.trans h.buf, fun hu => h.unread (h'.unread hu)⟩
  rw [h'.out, h.out]
  cases s.dev.consoleOut <;> simp

end ConsoleMoves

theorem setIe_unread (csr value : Word) :
    ((csr &&& ~~~dl11Ie) ||| (value &&& dl11Ie)) &&& dl11Done = csr &&& dl11Done := by
  have hvalue : value &&& dl11Ie &&& dl11Done = 0#16 := by
    rw [BitVec.and_assoc, show (dl11Ie : Word) &&& dl11Done = 0#16 by decide, BitVec.and_zero]
  have hcsr : csr &&& ~~~dl11Ie &&& dl11Done = csr &&& dl11Done := by
    rw [BitVec.and_assoc, show ~~~(dl11Ie : Word) &&& dl11Done = dl11Done by decide]
  rw [BitMask.or_and_eq _ hvalue, hcsr]

theorem sentBytes_other {a : Word} (h : a ≠ dl11Xbuf) (value : Word) :
    sentBytes [.ioWrite a value] = [] := by
  show List.filterMap _ [(a, value)] = []
  rw [List.filterMap_cons_none]
  · rfl
  · exact if_neg h

theorem consoleWrite_moves (s : Cpu) (a value : Word) :
    ConsoleMoves s (consoleWrite s a value) (sentBytes [.ioWrite a value]) := by
  have hcsr (csr : Word) (d : IntId) (t : Cpu) (ht : t = dl11CsrInt s csr value d) :
      t.dev.consoleOut = s.dev.consoleOut ∧ t.dev.ttiBuf = s.dev.ttiBuf ∧
        t.dev.ttiCsr = s.dev.ttiCsr := by
    subst ht
    unfold dl11CsrInt
    split_ifs <;> exact ⟨rfl, rfl, rfl⟩
  by_cases hx : a = dl11Xbuf
  · subst hx
    exact ⟨rfl, rfl, id⟩
  · have hsent := sentBytes_other hx value
    rw [hsent]
    unfold consoleWrite
    split
    · obtain ⟨hout, hbuf, htti⟩ := hcsr s.dev.ttiCsr .tti _ rfl
      refine .of_same hout hbuf fun hu => ?_
      unfold unread at hu ⊢
      dsimp only at hu
      rwa [htti, setIe_unread] at hu
    split
    · obtain ⟨hout, hbuf, htti⟩ := hcsr s.dev.ttoCsr .tto _ rfl
      refine .of_same hout hbuf fun hu => ?_
      unfold unread at hu ⊢
      dsimp only at hu
      rwa [htti] at hu
    · exact .of_dev rfl

theorem consoleRead_moves (s : Cpu) (a : Word) : ConsoleMoves s (consoleRead s a).2 [] := by
  unfold consoleRead
  split_ifs
  · exact .of_dev rfl
  · -- RBUF: the character is taken
    refine .of_same rfl rfl fun hu => absurd ?_ hu
    show s.dev.ttiCsr &&& ~~~dl11Done &&& dl11Done = 0
    rw [BitVec.and_assoc, show ~~~(dl11Done : Word) &&& dl11Done = 0#16 by decide]
    exact BitVec.and_zero
  all_goals exact .of_dev rfl

theorem regRead_console {s t : Cpu} {a : Word} (h : RegRead s a t) : ConsoleMoves s t [] := by
  have hs : UnitsOnly s s := .refl s
  cases h with
  | none => exact .of_dev rfl
  | console => exact consoleRead_moves s a
  | tm => exact .of_units (tmRead_unseen outside_tm hs a)
  | rl => exact .of_units (rlRead_unseen outside_rl hs a)
  | rx => exact .of_units (rxRead_unseen outside_rx hs a)

/-- The register that answers at XBUF is the transmitter buffer. -/
theorem regWrite_console {s t : Cpu} {a value : Word} (ht : ioWriteReg s a value = some t) :
    ConsoleMoves s t (sentBytes [.ioWrite a value]) := by
  have hs : UnitsOnly s s := .refl s
  by_cases hx : a = dl11Xbuf
  · subst hx
    rw [ioWriteReg_dl11 (by decide)] at ht
    cases ht
    exact consoleWrite_moves s _ value
  have hsent := sentBytes_other hx value
  cases ioWriteReg_regWrite ht with
  | console => exact consoleWrite_moves s a value
  | processor _ hdev _ =>
    rw [hsent]
    refine .of_same (by rw [hdev]) (by rw [hdev]) fun hu => ?_
    unfold unread at hu ⊢
    rwa [hdev] at hu
  | clk _ =>
    rw [hsent]
    unfold clkWrite
    dsimp only
    split_ifs <;> exact .of_same rfl rfl id
  | rk => exact hsent ▸ .of_units (rkWrite_unseen outside_rk hs a value fun _ _ _ => trivial)
  | tm => exact hsent ▸ .of_units (tmWrite_unseen outside_tm hs a value)
  | rl => exact hsent ▸ .of_units (rlWrite_unseen outside_rl hs a value fun _ _ _ => trivial)
  | rx => exact hsent ▸ .of_units (rxWrite_unseen outside_rx hs a value)
  | rp => exact hsent ▸ .of_units (rpWrite_unseen outside_rp hs a value fun _ _ _ => trivial)

/-- The console before and after some part of a call of the step. -/
def Streams (m m' : Machine) : Prop :=
  ∃ es, m'.events = m.events ++ es ∧ ConsoleMoves m.cpu m'.cpu (sentBytes es)

theorem streams_programs : ProgramRelation Streams where
  trans m m' m'' := by
    rintro ⟨es, he, h⟩ ⟨es', he', h'⟩
    refine ⟨es ++ es', ?_, ?_⟩
    · rw [he', he, List.append_assoc]
    · rw [sentBytes_append]
      exact h.trans h'
  same m m' h := by
    rintro ⟨es, he, hes⟩
    refine ⟨es, he, ?_⟩
    rw [sentBytes, hes]
    exact .of_dev h.dev
  read m a p h :=
    ⟨[], (List.append_nil _).symm, regRead_console (ioReadReg_regRead h)⟩
  write m a value := by
    cases hs : ioWriteReg m.cpu a value with
    | none =>
      refine ⟨[.ioWrite a value], rfl, ?_⟩
      have hx : a ≠ dl11Xbuf := by
        rintro rfl
        rw [ioWriteReg_dl11 (by decide)] at hs
        cases hs
      rw [sentBytes_other hx]
      exact .of_dev rfl
    | some s' => exact ⟨[.ioWrite a value], rfl, regWrite_console hs⟩

theorem serviceStation_console (s : Cpu) : ConsoleMoves s (serviceStation s) [] := by
  unfold serviceStation serviceClock clkTick consoleTxPoll
  dsimp only
  split_ifs <;> exact .of_same rfl rfl id

/-- A call of the step sends what it stores in XBUF, and brings no character of its own. -/
theorem cpuStep_console (s : Cpu) :
    ConsoleMoves s (cpuStep s).cpu (sentBytes (cpuStep s).events) := by
  have hquiet {f : Cpu → Cpu} (hf : ∀ s, ConsoleMoves s (f s) []) :
      Respects Streams (modifyCpu f) :=
    fun m => ⟨[], (List.append_nil _).symm, hf m.cpu⟩
  have hinit : Respects Streams (modifyCpu busInit) := by
    refine hquiet fun s => .of_same rfl rfl fun hu => absurd ?_ hu
    exact BitVec.zero_and
  have hack (p : Pending) : Respects Streams (modifyCpu (acknowledge p)) := by
    refine hquiet fun s => ?_
    cases p <;> exact .of_same rfl rfl id
  have hservice (m : Machine) (acct : Accounting) :
      Streams m { m with cpu := serviceDueEvents { m.cpu with acct := acct } } := by
    refine ⟨[], (List.append_nil _).symm, ?_⟩
    have hdev : ConsoleMoves m.cpu { m.cpu with acct := acct } [] := .of_dev rfl
    exact (hdev.trans (serviceStation_console _)).trans (.of_units (serviceDueEvents_unitsOnly _))
  obtain ⟨es, he, h⟩ := streams_programs.cpuStep hinit hack hservice s
  rw [List.nil_append] at he
  rwa [← he] at h

/-! ## Runs -/

/-- What `n` calls of the step send, oldest first. -/
def sentRun (s : Cpu) : ℕ → List Byte
  | 0 => []
  | n + 1 => sentRun s n ++ sentBytes (cpuStep (cpuRun s n)).events

/-- Over any run the sink receives the bytes of the stores to XBUF, each once and in their order;
the receiver keeps its character, and is filled by nothing that the processor does. -/
theorem console_stream (s : Cpu) (n : ℕ) : ConsoleMoves s (cpuRun s n) (sentRun s n) := by
  induction n with
  | zero => exact .of_dev rfl
  | succ n ih => exact ih.trans (cpuStep_console _)

end Pdp11
