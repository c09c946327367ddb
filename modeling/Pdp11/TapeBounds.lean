import Pdp11.TapeCommands
import Pdp11.Lib.Checked
import Pdp11.Lib.GuardedRun

namespace Pdp11

open Checked GuardedRun

/-! The tape commands with every access of the tape buffer checked against the image. -/

/-! ## Checked accesses -/

/-- A byte of the tape buffer inside the image. -/
def tapeByte (tm : Tm11) (i : BitVec 32) : Option Byte :=
  if i < tm.tapeLen then some (tm.tape.read i) else none

/-- A store into the tape buffer inside the image. -/
def tapeStore (tm : Tm11) (i : BitVec 32) (b : Byte) : Option Tm11 :=
  if i < tm.tapeLen then some { tm with tape := tm.tape.write i b } else none

/-- `tap_len_at`, checked. -/
def tapLenChecked (tm : Tm11) (idx : BitVec 32) : Option (BitVec 32) :=
  if tm.tapeLen < idx + 4 then pure 0xFFFFFFFF
  else do
    let b0 ← tapeByte tm idx
    let b1 ← tapeByte tm (idx + 1)
    let b2 ← tapeByte tm (idx + 2)
    let b3 ← tapeByte tm (idx + 3)
    pure (b0.setWidth 32 ||| (b1.setWidth 32 <<< 8) ||| (b2.setWidth 32 <<< 16) |||
      (b3.setWidth 32 <<< 24))

/-- A record header or trailer, checked. -/
def tapWriteLenChecked (tm : Tm11) (idx cbc : BitVec 32) : Option Tm11 := do
  let tm ← tapeStore tm idx ((cbc &&& 0o377).setWidth 8)
  let tm ← tapeStore tm (idx + 1) (((cbc >>> 8) &&& 0o377).setWidth 8)
  let tm ← tapeStore tm (idx + 3) 0
  tapeStore tm (idx + 2) 0

def tmExecReadChecked (s : Cpu) (xma cbc : BitVec 32) : Option Cpu := do
  let tm := s.dev.tm
  let rl ← tapLenChecked tm tm.pos
  if rl = 0 then
    pure { s with
      dev.tm.sta := tm.sta ||| staEof
      dev.tm.pos := tm.pos + 4 }
  else if rl = 0xFFFFFFFF then
    pure { s with dev.tm.sta := tm.sta ||| staIll }
  else do
    let data := tm.pos + 4
    let n := if rl < cbc then rl else cbc
    let s := if cbc < rl then { s with dev.tm.sta := tm.sta ||| staRle } else s
    let s ← (List.range n.toNat).foldlM (fun s i => do
      let b ← tapeByte s.dev.tm (data + BitVec.ofNat 32 i)
      pure (tmMemWriteByte s ((xma + BitVec.ofNat 32 i) &&& 0o777777) b)) s
    pure { s with
      dev.tm.ca := (xma + n).setWidth 16
      dev.tm.bc := tm.bc + n.setWidth 16
      dev.tm.pos := tapPast tm.pos rl }

/-- The pad byte of an odd record, checked. -/
def tapPadChecked (s : Cpu) (idx cbc : BitVec 32) : Option Cpu :=
  if cbc &&& 1 ≠ 0 then do
    let tm ← tapeStore s.dev.tm idx 0
    pure { s with dev.tm := tm }
  else pure s

def tmExecWriteChecked (s : Cpu) (xma cbc : BitVec 32) : Option Cpu :=
  let tm := s.dev.tm
  let need := tapPast tm.pos cbc
  if tm.wrp ∨ tm.tapeLen < need then
    pure { s with dev.tm.sta := tm.sta ||| staIll }
  else do
    let tm' ← tapWriteLenChecked tm tm.pos cbc
    let s := { s with dev.tm := tm' }
    let s ← (List.range cbc.toNat).foldlM (fun s i => do
      let b := tmMemReadByte s ((xma + BitVec.ofNat 32 i) &&& 0o777777)
      let tm' ← tapeStore s.dev.tm (tm.pos + 4 + BitVec.ofNat 32 i) b
      pure { s with dev.tm := tm' }) s
    let s ← tapPadChecked s (tm.pos + 4 + cbc) cbc
    let trailer := tm.pos + 4 + ((cbc + 1) &&& ~~~1)
    let tm' ← tapWriteLenChecked s.dev.tm trailer cbc
    pure { s with
      dev.tm := { tm' with
        ca := (xma + cbc).setWidth 16
        bc := 0
        pos := trailer + 4 } }

def tmExecWreofChecked (s : Cpu) : Option Cpu :=
  let tm := s.dev.tm
  if tm.wrp ∨ tm.tapeLen < tm.pos + 4 then
    pure { s with dev.tm.sta := tm.sta ||| staIll }
  else do
    let tm' ← tapWriteLenChecked tm tm.pos 0
    pure { s with dev.tm := { tm' with pos := tm.pos + 4 } }

def tmExecSpacefChecked (s : Cpu) : Option Cpu := do
  let tm := s.dev.tm
  let rl ← tapLenChecked tm tm.pos
  if rl = 0 then
    pure { s with
      dev.tm.sta := tm.sta ||| staEof
      dev.tm.pos := tm.pos + 4 }
  else if rl = 0xFFFFFFFF then
    pure { s with dev.tm.sta := tm.sta ||| staIll }
  else
    pure { s with
      dev.tm.pos := tapPast tm.pos rl
      dev.tm.bc := tm.bc + 1 }

def tmExecSpacerChecked (s : Cpu) : Option Cpu :=
  let tm := s.dev.tm
  if tm.pos = 0 then
    pure { s with dev.tm.sta := tm.sta ||| staBot }
  else do
    let tl ← tapLenChecked tm (tm.pos - 4)
    if tl = 0 then pure { s with dev.tm.pos := tm.pos - 4 }
    else pure { s with dev.tm.pos := tm.pos - (4 + ((tl + 1) &&& ~~~1) + 4) }

/-- The command of a function code, checked. -/
def tmCommandChecked (s : Cpu) (func : Word) (xma cbc : BitVec 32) : Option Cpu :=
  if func = tmFncRead then tmExecReadChecked s xma cbc
  else if func = tmFncWrite ∨ func = tmFncWrext then tmExecWriteChecked s xma cbc
  else if func = tmFncWreof then tmExecWreofChecked s
  else if func = tmFncSpacef then tmExecSpacefChecked s
  else if func = tmFncSpacer then tmExecSpacerChecked s
  else pure s

/-- `tm_execute`, checked. -/
def tmExecuteChecked (s : Cpu) (func : Word) : Option Cpu := do
  let xma := tmGetEma s.dev.tm.cmd ||| s.dev.tm.ca.setWidth 32
  let cbc : BitVec 32 := (0o200000 - s.dev.tm.bc.setWidth 32) &&& 0o177777
  let s ← tmCommandChecked s func xma cbc
  pure (tmSetDone s)

/-- A completion, checked. -/
def tmPollChecked (s : Cpu) : Option Cpu :=
  if !s.dev.tm.busy ∨ s.acct.timeNs < s.dev.tm.doneNs then pure s
  else
    let func := tmGetFnc s.dev.tm.cmd
    if func = tmFncRewind ∨ func = tmFncUnload then pure (tmPoll s)
    else tmExecuteChecked s func

/-! ## When the accesses are inside -/

/-- The four bytes from an index on lie inside the image. -/
def SpanInside (tm : Tm11) (idx : BitVec 32) : Prop :=
  idx < tm.tapeLen ∧ idx + 1 < tm.tapeLen ∧ idx + 2 < tm.tapeLen ∧ idx + 3 < tm.tapeLen

/-- A length is read past the end, or inside the image. -/
def LenInside (tm : Tm11) (idx : BitVec 32) : Prop := ¬tm.tapeLen < idx + 4 → SpanInside tm idx

theorem tapeByte_checks (tm : Tm11) (i : BitVec 32) :
    Checks (tapeByte tm i) (i < tm.tapeLen) (tm.tape.read i) :=
  .of (fun h => if_pos h) fun h => if_neg h

theorem tapeStore_checks (tm : Tm11) (i : BitVec 32) (b : Byte) :
    Checks (tapeStore tm i b) (i < tm.tapeLen) { tm with tape := tm.tape.write i b } :=
  .of (fun h => if_pos h) fun h => if_neg h

theorem tapLenChecked_checks (tm : Tm11) (idx : BitVec 32) :
    Checks (tapLenChecked tm idx) (LenInside tm idx) (tapLenAt tm idx) := by
  have hbytes := (tapeByte_checks tm idx).bind (f := fun b0 => do
    let b1 ← tapeByte tm (idx + 1)
    let b2 ← tapeByte tm (idx + 2)
    let b3 ← tapeByte tm (idx + 3)
    pure (b0.setWidth 32 ||| (b1.setWidth 32 <<< 8) ||| (b2.setWidth 32 <<< 16) |||
      (b3.setWidth 32 <<< 24)))
    ((tapeByte_checks tm (idx + 1)).bind
      ((tapeByte_checks tm (idx + 2)).bind (tapeByte_checks tm (idx + 3)).map))
  refine Checks.ite (fun h => checks_pure_of _ fun hn => absurd h hn) fun h => hbytes.iff ?_
  exact ⟨fun hspan _ => hspan, fun hlen => hlen h⟩

theorem tapWriteLenChecked_checks (tm : Tm11) (idx cbc : BitVec 32) :
    Checks (tapWriteLenChecked tm idx cbc) (SpanInside tm idx)
      { tm with tape := tapWriteLen tm.tape idx cbc } := by
  refine ((tapeStore_checks tm idx _).bind ((tapeStore_checks _ (idx + 1) _).bind
    ((tapeStore_checks _ (idx + 3) 0).bind (tapeStore_checks _ (idx + 2) 0)))).iff ?_
  unfold SpanInside
  exact ⟨fun ⟨h0, h1, h3, h2⟩ => ⟨h0, h1, h2, h3⟩, fun ⟨h0, h1, h2, h3⟩ => ⟨h0, h1, h3, h2⟩⟩

/-- What a READ or a SPACE FORWARD finds at the position: a mark, the end, or a record. -/
def Found (tm : Tm11) (P : BitVec 32 → Prop) : Prop :=
  tapLenAt tm tm.pos ≠ 0 → tapLenAt tm tm.pos ≠ 0xFFFFFFFF → P (tapLenAt tm tm.pos)

/-- The bytes a READ takes from a record. -/
def DataInside (tm : Tm11) (cbc rl : BitVec 32) : Prop :=
  ∀ i ∈ List.range (if rl < cbc then rl else cbc).toNat, tm.pos + 4 + BitVec.ofNat 32 i < tm.tapeLen

theorem tmExecReadChecked_checks (s : Cpu) (xma cbc : BitVec 32) :
    Checks (tmExecReadChecked s xma cbc)
      (LenInside s.dev.tm s.dev.tm.pos ∧ Found s.dev.tm (DataInside s.dev.tm cbc))
      (tmExecRead s xma cbc) := by
  refine (tapLenChecked_checks s.dev.tm s.dev.tm.pos).bind ?_
  unfold tmExecRead
  dsimp only
  refine Checks.ite (fun h0 => checks_pure_of _ fun hn => absurd h0 hn) fun h0 =>
    Checks.ite (fun h1 => checks_pure_of _ fun _ hn => absurd h1 hn) fun h1 => ?_
  have hloop := checks_foldlM (I := fun t : Cpu => t.dev.tm.tapeLen = s.dev.tm.tapeLen)
    (f := fun t i => do
      let b ← tapeByte t.dev.tm (s.dev.tm.pos + 4 + BitVec.ofNat 32 i)
      pure (tmMemWriteByte t ((xma + BitVec.ofNat 32 i) &&& 0o777777) b))
    (g := fun t i => tmMemWriteByte t ((xma + BitVec.ofNat 32 i) &&& 0o777777)
      (t.dev.tm.tape.read (s.dev.tm.pos + 4 + BitVec.ofNat 32 i)))
    (c := fun i => s.dev.tm.pos + 4 + BitVec.ofNat 32 i < s.dev.tm.tapeLen)
    (fun t i ht => ht ▸ (tapeByte_checks t.dev.tm _).map) (fun t i ht => ht)
  refine Checks.iff (Checks.bind (hloop _ ?_) (checks_pure _)) ?_
  · split <;> rfl
  · rw [and_true]
    exact ⟨fun h _ _ => h, fun h => h h0 h1⟩

theorem tmExecSpacefChecked_checks (s : Cpu) :
    Checks (tmExecSpacefChecked s) (LenInside s.dev.tm s.dev.tm.pos) (tmExecSpacef s) := by
  refine Checks.iff (Checks.bind (tapLenChecked_checks s.dev.tm s.dev.tm.pos) ?_) (iff_of_eq (and_true _))
  unfold tmExecSpacef
  dsimp only
  exact Checks.ite (fun _ => checks_pure _) fun _ =>
    Checks.ite (fun _ => checks_pure _) fun _ => checks_pure _

theorem tmExecSpacerChecked_checks (s : Cpu) :
    Checks (tmExecSpacerChecked s)
      (s.dev.tm.pos ≠ 0 → LenInside s.dev.tm (s.dev.tm.pos - 4)) (tmExecSpacer s) := by
  unfold tmExecSpacerChecked tmExecSpacer
  dsimp only
  refine Checks.ite (fun h0 => checks_pure_of _ fun hn => absurd h0 hn) fun h0 => ?_
  refine Checks.iff (Checks.bind (tapLenChecked_checks s.dev.tm (s.dev.tm.pos - 4))
    (Checks.ite (fun _ => checks_pure _) fun _ => checks_pure _)) ?_
  rw [and_true]
  exact ⟨fun h _ => h, fun h => h h0⟩

theorem tmExecWreofChecked_checks (s : Cpu) :
    Checks (tmExecWreofChecked s)
      (¬(s.dev.tm.wrp ∨ s.dev.tm.tapeLen < s.dev.tm.pos + 4) → SpanInside s.dev.tm s.dev.tm.pos)
      (tmExecWreof s) := by
  unfold tmExecWreofChecked tmExecWreof
  dsimp only
  refine Checks.ite (fun h0 => checks_pure_of _ fun hn => absurd h0 hn) fun h0 => ?_
  refine Checks.iff (tapWriteLenChecked_checks s.dev.tm s.dev.tm.pos 0).map ?_
  exact ⟨fun h _ => h, fun h => h h0⟩

/-- The accesses of a WRITE that is not refused: header, data, the pad of an odd record, trailer. -/
structure RecordInside (tm : Tm11) (cbc : BitVec 32) : Prop where
  header : SpanInside tm tm.pos
  data : ∀ i ∈ List.range cbc.toNat, tm.pos + 4 + BitVec.ofNat 32 i < tm.tapeLen
  pad : cbc &&& 1 ≠ 0 → tm.pos + 4 + cbc < tm.tapeLen
  trailer : SpanInside tm (tm.pos + 4 + ((cbc + 1) &&& ~~~1))

theorem tmExecWriteChecked_checks (s : Cpu) (xma cbc : BitVec 32) :
    Checks (tmExecWriteChecked s xma cbc)
      (¬(s.dev.tm.wrp ∨ s.dev.tm.tapeLen < tapPast s.dev.tm.pos cbc) → RecordInside s.dev.tm cbc)
      (tmExecWrite s xma cbc) := by
  unfold tmExecWriteChecked tmExecWrite
  dsimp only
  refine Checks.ite (fun h0 => checks_pure_of _ fun hn => absurd h0 hn) fun h0 => ?_
  have hspan (t : Cpu) (idx : BitVec 32) (ht : t.dev.tm.tapeLen = s.dev.tm.tapeLen) :
      Checks (tapWriteLenChecked t.dev.tm idx cbc) (SpanInside s.dev.tm idx)
        { t.dev.tm with tape := tapWriteLen t.dev.tm.tape idx cbc } := by
    refine (tapWriteLenChecked_checks t.dev.tm idx cbc).iff ?_
    rw [SpanInside, SpanInside, ht]
  have hstore (t : Cpu) (idx : BitVec 32) (b : Byte) (ht : t.dev.tm.tapeLen = s.dev.tm.tapeLen) :
      Checks (do let tm' ← tapeStore t.dev.tm idx b; pure { t with dev.tm := tm' })
        (idx < s.dev.tm.tapeLen) { t with dev.tm.tape := t.dev.tm.tape.write idx b } :=
    ht ▸ (tapeStore_checks t.dev.tm idx b).map
  have hpad (t : Cpu) (idx : BitVec 32) (ht : t.dev.tm.tapeLen = s.dev.tm.tapeLen) :
      Checks (tapPadChecked t idx cbc) (cbc &&& 1 ≠ 0 → idx < s.dev.tm.tapeLen)
        (if cbc &&& 1 ≠ 0 then { t with dev.tm.tape := t.dev.tm.tape.write idx 0 } else t) :=
    Checks.ite (fun h => (hstore t idx 0 ht).iff ⟨fun h _ => h, fun hn => hn h⟩)
      fun h => checks_pure_of _ fun hn => absurd hn h
  -- no store of the loop changes the length of the tape, against which each is checked
  have hloop := checks_foldlM (I := fun t : Cpu => t.dev.tm.tapeLen = s.dev.tm.tapeLen)
    (f := fun t i => do
      let b := tmMemReadByte t ((xma + BitVec.ofNat 32 i) &&& 0o777777)
      let tm' ← tapeStore t.dev.tm (s.dev.tm.pos + 4 + BitVec.ofNat 32 i) b
      pure { t with dev.tm := tm' })
    (g := fun t i =>
      let b := tmMemReadByte t ((xma + BitVec.ofNat 32 i) &&& 0o777777)
      { t with dev.tm.tape := t.dev.tm.tape.write (s.dev.tm.pos + 4 + BitVec.ofNat 32 i) b })
    (c := fun i => s.dev.tm.pos + 4 + BitVec.ofNat 32 i < s.dev.tm.tapeLen)
    (fun t i ht => hstore t _ _ ht) (fun t i ht => ht)
  have hlen (l : List ℕ) (t : Cpu) (ht : t.dev.tm.tapeLen = s.dev.tm.tapeLen) :
      (l.foldl (fun t i =>
        let b := tmMemReadByte t ((xma + BitVec.ofNat 32 i) &&& 0o777777)
        { t with dev.tm.tape := t.dev.tm.tape.write (s.dev.tm.pos + 4 + BitVec.ofNat 32 i) b })
        t).dev.tm.tapeLen = s.dev.tm.tapeLen :=
    l.foldlRecOn (motive := fun t : Cpu => t.dev.tm.tapeLen = s.dev.tm.tapeLen) _ ht
      fun _ h _ _ => h
  refine Checks.iff (Checks.bind (hspan s _ rfl) (Checks.bind (hloop _ rfl)
    (Checks.bind (hpad _ _ (hlen _ _ rfl)) (hspan _ _ ?_).map))) ?_
  · split
    · exact hlen _ _ rfl
    · exact hlen _ _ rfl
  · exact ⟨fun h _ => ⟨h.1, h.2.1, h.2.2.1, h.2.2.2⟩, fun h =>
      ⟨(h h0).header, (h h0).data, (h h0).pad, (h h0).trailer⟩⟩

/-! ## Positions -/

theorem even_toNat (x : BitVec 32) : (x &&& ~~~1).toNat = 2 * (x.toNat / 2) := by
  have heq : x &&& ~~~1#32 = (x >>> 1) <<< 1 := by
    ext i hi
    simp only [← BitVec.getLsbD_eq_getElem, BitVec.getLsbD_and, BitVec.getLsbD_not,
      BitVec.getLsbD_shiftLeft, BitVec.getLsbD_ushiftRight, hi, decide_true, Bool.true_and]
    cases i with
    | zero => simp
    | succ i =>
      have hone : (1#32).getLsbD (i + 1) = false := by simp
      rw [hone, Nat.add_comm 1, Nat.add_sub_cancel]
      simp
  have hlt := x.isLt
  have hdiv : x.toNat >>> 1 = x.toNat / 2 := Nat.shiftRight_eq_div_pow _ 1
  have hval : (x &&& ~~~1#32).toNat = 2 * (x.toNat / 2) := by
    rw [heq, BitVec.toNat_shiftLeft, BitVec.toNat_ushiftRight, Nat.shiftLeft_eq, hdiv]
    omega
  exact hval

/-- The bytes a record's data takes, padded to even. -/
def tapPadded (rl : BitVec 32) : ℕ := ((rl + 1) &&& ~~~1).toNat

theorem tapPadded_eq {rl : BitVec 32} (h : rl ≠ 0xFFFFFFFF) :
    tapPadded rl = 2 * ((rl.toNat + 1) / 2) := by
  have hne : rl.toNat ≠ 0xFFFFFFFF := fun he => h (BitVec.eq_of_toNat_eq he)
  have hlt := rl.isLt
  have hadd : (rl + 1).toNat = (rl.toNat + 1) % 2 ^ 32 := BitVec.toNat_add _ _
  rw [tapPadded, even_toNat, hadd]
  omega

theorem toNat_add_lt {x : BitVec 32} {n : ℕ} (h : x.toNat + n < 2 ^ 32) :
    (x + BitVec.ofNat 32 n).toNat = x.toNat + n := by
  rw [BitVec.toNat_add, BitVec.toNat_ofNat]
  omega

theorem tapPast_toNat {pos rl : BitVec 32} (h : pos.toNat + 8 + tapPadded rl < 2 ^ 32) :
    (tapPast pos rl).toNat = pos.toNat + 8 + tapPadded rl := by
  unfold tapPadded at h ⊢
  unfold tapPast
  generalize (rl + 1) &&& ~~~1 = p at h ⊢
  have h1 : (4 + p + 4 : BitVec 32).toNat = p.toNat + 8 := by
    have hp : (4 + p + 4 : BitVec 32) = p + BitVec.ofNat 32 8 := by bv_omega
    rw [hp, toNat_add_lt (by omega)]
  rw [BitVec.toNat_add, h1]
  omega

/-- The image is shorter than `2^31` bytes, and the position lies in it or at its end. -/
structure TapePlaced (tm : Tm11) : Prop where
  size : tm.tapeLen.toNat < 2 ^ 31
  pos : tm.pos.toNat ≤ tm.tapeLen.toNat

/-- The record a forward command finds at the position ends within the image. -/
def RecordAhead (tm : Tm11) : Prop :=
  Found tm fun rl => tm.pos.toNat + 8 + tapPadded rl ≤ tm.tapeLen.toNat

/-- Before the position stands a trailing length, of a mark or of a record that begins within the
image. -/
def RecordBehind (tm : Tm11) : Prop :=
  tm.pos = 0 ∨ 4 ≤ tm.pos.toNat ∧ (tapLenAt tm (tm.pos - 4) = 0 ∨
    8 + tapPadded (tapLenAt tm (tm.pos - 4)) ≤ tm.pos.toNat)

theorem spanInside_of_le {tm : Tm11} {idx : BitVec 32}
    (h : idx.toNat + 4 ≤ tm.tapeLen.toNat) : SpanInside tm idx := by
  have hlt := tm.tapeLen.isLt
  have hidx (k : ℕ) (hk : k < 4) : idx + BitVec.ofNat 32 k < tm.tapeLen := by
    rw [BitVec.lt_def, toNat_add_lt (by omega)]
    omega
  have h0 : idx < tm.tapeLen := by
    rw [BitVec.lt_def]
    omega
  exact ⟨h0, hidx 1 (by omega), hidx 2 (by omega), hidx 3 (by omega)⟩

/-- A length that starts within the image or at its end is read inside it. -/
theorem lenInside_of_le {tm : Tm11} {idx : BitVec 32} (h : idx.toNat < 2 ^ 32 - 4) :
    LenInside tm idx := by
  intro hlen
  refine spanInside_of_le ?_
  have hle := BitVec.not_lt.1 hlen
  have hsum : (idx + 4).toNat = idx.toNat + 4 := toNat_add_lt (n := 4) (by omega)
  rw [BitVec.le_def, hsum] at hle
  exact hle

section Completion

variable {tm : Tm11} (h : TapePlaced tm)
include h

theorem TapePlaced.lenInside : LenInside tm tm.pos := by
  have hsize := h.size
  have hpos := h.pos
  exact lenInside_of_le (by omega)

theorem TapePlaced.dataInside (hahead : RecordAhead tm) (cbc : BitVec 32) :
    Found tm (DataInside tm cbc) := by
  intro h0 h1 i hi
  have hfits := hahead h0 h1
  have hpad := tapPadded_eq h1
  have hsize := h.size
  have hi : i < (tapLenAt tm tm.pos).toNat := by
    have hlt := List.mem_range.1 hi
    split at hlt
    · exact hlt
    · rename_i hle
      have := BitVec.le_def.1 (BitVec.not_lt.1 hle)
      omega
  have h4 : (tm.pos + 4).toNat = tm.pos.toNat + 4 := toNat_add_lt (n := 4) (by omega)
  rw [BitVec.lt_def, toNat_add_lt (by omega), h4]
  omega

theorem TapePlaced.behind (hbehind : RecordBehind tm) (h0 : tm.pos ≠ 0) :
    LenInside tm (tm.pos - 4) := by
  obtain hz | ⟨h4, -⟩ := hbehind
  · exact absurd hz h0
  · have hsize := h.size
    have hpos := h.pos
    have hsub : (tm.pos - 4).toNat = tm.pos.toNat - 4 := by
      rw [BitVec.toNat_sub]
      simp only [BitVec.reduceToNat]
      omega
    exact lenInside_of_le (by omega)

/-- A WRITE that is not refused stays in the image. -/
theorem TapePlaced.recordInside {cbc : BitVec 32} (hcbc : cbc.toNat < 2 ^ 16)
    (hfits : ¬(tm.wrp ∨ tm.tapeLen < tapPast tm.pos cbc)) : RecordInside tm cbc := by
  have hsize := h.size
  have hpos := h.pos
  have hpad : tapPadded cbc = 2 * ((cbc.toNat + 1) / 2) := by
    refine tapPadded_eq ?_
    rintro rfl
    simp at hcbc
  have hpast : (tapPast tm.pos cbc).toNat = tm.pos.toNat + 8 + tapPadded cbc :=
    tapPast_toNat (by omega)
  have hle : tm.pos.toNat + 8 + tapPadded cbc ≤ tm.tapeLen.toNat := by
    rw [← hpast]
    exact BitVec.le_def.1 (BitVec.not_lt.1 fun hlt => hfits (.inr hlt))
  have h4 : (tm.pos + 4).toNat = tm.pos.toNat + 4 := toNat_add_lt (n := 4) (by omega)
  have htrailer : (tm.pos + 4 + ((cbc + 1) &&& ~~~1)).toNat = tm.pos.toNat + 4 + tapPadded cbc := by
    rw [BitVec.toNat_add, h4]
    have : ((cbc + 1) &&& ~~~1).toNat = tapPadded cbc := rfl
    omega
  refine ⟨spanInside_of_le (by omega), fun i hi => ?_, fun hodd => ?_, spanInside_of_le (by omega)⟩
  · have hi := List.mem_range.1 hi
    rw [BitVec.lt_def, toNat_add_lt (by omega), h4]
    omega
  · have hcbc' : (tm.pos + 4 + cbc).toNat = tm.pos.toNat + 4 + cbc.toNat := by
      rw [BitVec.toNat_add, h4]
      omega
    have hodd' : cbc.toNat % 2 = 1 := by
      by_contra heven
      refine hodd (BitVec.eq_of_toNat_eq ?_)
      have hand : (cbc &&& 1).toNat = cbc.toNat &&& 1 := BitVec.toNat_and _ _
      rw [hand, Nat.and_one_is_mod]
      simp only [BitVec.reduceToNat]
      omega
    rw [BitVec.lt_def, hcbc']
    omega

end Completion

/-! ## Completions -/

/-- What the condition asks of a completion: a READ or a SPACE FORWARD finds no record that runs
past the end of the image, a SPACE REVERSE no record that runs past its beginning. -/
def CompletionFits (s : Cpu) : Prop :=
  ∀ op ∈ tmPollOperation s, match op with
    | .read | .spaceForward => RecordAhead s.dev.tm
    | .spaceReverse => RecordBehind s.dev.tm
    | .rewind | .write | .mark => True

/-- The position after a READ or a SPACE FORWARD. -/
def tapeAhead (tm : Tm11) : BitVec 32 :=
  let rl := tapLenAt tm tm.pos
  if rl = 0 then tm.pos + 4 else if rl = 0xFFFFFFFF then tm.pos else tapPast tm.pos rl

/-- The position after a SPACE REVERSE. -/
def tapeBehind (tm : Tm11) : BitVec 32 :=
  let tl := tapLenAt tm (tm.pos - 4)
  if tm.pos = 0 then tm.pos
  else if tl = 0 then tm.pos - 4 else tm.pos - (4 + ((tl + 1) &&& ~~~1) + 4)

/-- A tape at a new position, with the image it had. -/
structure MovedTo (pos : BitVec 32) (tm tm' : Tm11) : Prop where
  tape : tm'.tape = tm.tape
  tapeLen : tm'.tapeLen = tm.tapeLen
  pos : tm'.pos = pos

theorem tmSetDone_position (s : Cpu) : MovedTo s.dev.tm.pos s.dev.tm (tmSetDone s).dev.tm := by
  unfold tmSetDone
  dsimp only
  split <;> exact ⟨rfl, rfl, rfl⟩

theorem tmExecRead_position (s : Cpu) (xma cbc : BitVec 32) :
    MovedTo (tapeAhead s.dev.tm) s.dev.tm (tmExecRead s xma cbc).dev.tm := by
  have hloop (l : List ℕ) (t : Cpu) : (l.foldl (fun t i =>
      tmMemWriteByte t ((xma + BitVec.ofNat 32 i) &&& 0o777777)
        (t.dev.tm.tape.read (s.dev.tm.pos + 4 + BitVec.ofNat 32 i))) t).dev = t.dev :=
    l.foldlRecOn (motive := fun u : Cpu => u.dev = t.dev) _ rfl fun _ hu _ _ => hu
  unfold tmExecRead tapeAhead
  dsimp only
  by_cases h0 : tapLenAt s.dev.tm s.dev.tm.pos = 0
  · rw [if_pos h0, if_pos h0]
    exact ⟨rfl, rfl, rfl⟩
  by_cases h1 : tapLenAt s.dev.tm s.dev.tm.pos = 0xFFFFFFFF
  · rw [if_neg h0, if_neg h0, if_pos h1, if_pos h1]
    exact ⟨rfl, rfl, rfl⟩
  rw [if_neg h0, if_neg h0, if_neg h1, if_neg h1]
  refine ⟨?_, ?_, rfl⟩
  · dsimp only
    rw [hloop]
    split <;> rfl
  · dsimp only
    rw [hloop]
    split <;> rfl

theorem tmExecSpacef_position (s : Cpu) :
    MovedTo (tapeAhead s.dev.tm) s.dev.tm (tmExecSpacef s).dev.tm := by
  unfold tmExecSpacef tapeAhead
  dsimp only
  split_ifs <;> exact ⟨rfl, rfl, rfl⟩

theorem tmExecSpacer_position (s : Cpu) :
    MovedTo (tapeBehind s.dev.tm) s.dev.tm (tmExecSpacer s).dev.tm := by
  unfold tmExecSpacer tapeBehind
  dsimp only
  split_ifs <;> exact ⟨rfl, rfl, rfl⟩

/-- The length of the image and the position after a WRITE. -/
theorem tmExecWrite_placed (s : Cpu) (xma cbc : BitVec 32) :
    (tmExecWrite s xma cbc).dev.tm.tapeLen = s.dev.tm.tapeLen ∧
      (tmExecWrite s xma cbc).dev.tm.pos =
        if s.dev.tm.wrp ∨ s.dev.tm.tapeLen < tapPast s.dev.tm.pos cbc then s.dev.tm.pos
        else tapPast s.dev.tm.pos cbc := by
  have hloop (l : List ℕ) (t : Cpu) : (l.foldl (fun t i =>
      let b := tmMemReadByte t ((xma + BitVec.ofNat 32 i) &&& 0o777777)
      { t with dev.tm.tape := t.dev.tm.tape.write (s.dev.tm.pos + 4 + BitVec.ofNat 32 i) b })
      t).dev.tm.tapeLen = t.dev.tm.tapeLen :=
    l.foldlRecOn (motive := fun u : Cpu => u.dev.tm.tapeLen = t.dev.tm.tapeLen) _ rfl
      fun _ hu _ _ => hu
  unfold tmExecWrite
  dsimp only
  by_cases h : s.dev.tm.wrp ∨ s.dev.tm.tapeLen < tapPast s.dev.tm.pos cbc
  · rw [if_pos h, if_pos h]
    exact ⟨rfl, rfl⟩
  · rw [if_neg h, if_neg h]
    refine ⟨?_, ?_⟩
    · dsimp only
      split
      · dsimp only
        rw [hloop]
      · rw [hloop]
    · show s.dev.tm.pos + 4 + _ + 4 = s.dev.tm.pos + (4 + _ + 4)
      rw [← BitVec.add_assoc, ← BitVec.add_assoc]

theorem tmExecWreof_placed (s : Cpu) :
    (tmExecWreof s).dev.tm.tapeLen = s.dev.tm.tapeLen ∧
      (tmExecWreof s).dev.tm.pos =
        if s.dev.tm.wrp ∨ s.dev.tm.tapeLen < s.dev.tm.pos + 4 then s.dev.tm.pos
        else s.dev.tm.pos + 4 := by
  unfold tmExecWreof
  dsimp only
  split_ifs <;> exact ⟨rfl, rfl⟩

/-! ## The position -/

theorem TapePlaced.moved {pos : BitVec 32} {tm tm' : Tm11} (h : TapePlaced tm)
    (hm : MovedTo pos tm tm') (hpos : pos.toNat ≤ tm.tapeLen.toNat) : TapePlaced tm' := by
  refine ⟨?_, ?_⟩
  · rw [hm.tapeLen]
    exact h.size
  · rw [hm.tapeLen, hm.pos]
    exact hpos

/-- A tape mark takes four bytes of the image, and a record that ends within it ends within it. -/
theorem TapePlaced.ahead_le {tm : Tm11} (h : TapePlaced tm) (hahead : RecordAhead tm) :
    (tapeAhead tm).toNat ≤ tm.tapeLen.toNat := by
  unfold tapeAhead
  dsimp only
  split_ifs with h0 h1
  · have hle : ¬tm.tapeLen < tm.pos + 4 := by
      intro hlt
      rw [tapLenAt, if_pos hlt] at h0
      cases h0
    exact BitVec.le_def.1 (BitVec.not_lt.1 hle)
  · exact h.pos
  · have hsize := h.size
    have hfits := hahead h0 h1
    rw [tapPast_toNat (by omega)]
    exact hfits

theorem TapePlaced.behind_le {tm : Tm11} (h : TapePlaced tm) (hbehind : RecordBehind tm) :
    (tapeBehind tm).toNat ≤ tm.tapeLen.toNat := by
  have hpos := h.pos
  unfold tapeBehind
  dsimp only
  split_ifs with h0 h1
  · exact hpos
  · obtain hz | ⟨h4, -⟩ := hbehind
    · exact absurd hz h0
    · bv_omega
  · obtain hz | ⟨h4, hz | hle⟩ := hbehind
    · exact absurd hz h0
    · exact absurd hz h1
    · unfold tapPadded at hle
      generalize (tapLenAt tm (tm.pos - 4) + 1) &&& ~~~1 = p at hle ⊢
      bv_omega

theorem TapePlaced.setDone {s : Cpu} (h : TapePlaced s.dev.tm) : TapePlaced (tmSetDone s).dev.tm :=
  h.moved (tmSetDone_position s) h.pos

theorem tmByteCount_lt (tm : Tm11) : (tmByteCount tm).toNat < 2 ^ 16 := by
  have hand : (tmByteCount tm).toNat =
      (0o200000 - tm.bc.setWidth 32 : BitVec 32).toNat &&& 0o177777 := BitVec.toNat_and _ _
  have hle := Nat.and_le_right (n := (0o200000 - tm.bc.setWidth 32 : BitVec 32).toNat) (m := 0o177777)
  omega

/-- A checked part of a command makes its accesses inside the image, and leaves the position in
it. -/
structure StaysInside (x : Option Cpu) (t : Cpu) : Prop where
  checked : x = some t
  placed : TapePlaced t.dev.tm

section Commands

variable {s : Cpu} (h : TapePlaced s.dev.tm)
include h

theorem TapePlaced.read (hahead : RecordAhead s.dev.tm) (xma cbc : BitVec 32) :
    StaysInside (tmExecReadChecked s xma cbc) (tmExecRead s xma cbc) :=
  ⟨(tmExecReadChecked_checks s xma cbc).eq_some ⟨h.lenInside, h.dataInside hahead cbc⟩,
    h.moved (tmExecRead_position s xma cbc) (h.ahead_le hahead)⟩

theorem TapePlaced.write (xma : BitVec 32) {cbc : BitVec 32} (hcbc : cbc.toNat < 2 ^ 16) :
    StaysInside (tmExecWriteChecked s xma cbc) (tmExecWrite s xma cbc) := by
  refine ⟨(tmExecWriteChecked_checks s xma cbc).eq_some fun hfits => h.recordInside hcbc hfits, ?_⟩
  obtain ⟨hlen, hpos⟩ := tmExecWrite_placed s xma cbc
  refine ⟨?_, ?_⟩
  · rw [hlen]
    exact h.size
  · rw [hlen, hpos]
    split_ifs with hfits
    · exact h.pos
    · exact BitVec.le_def.1 (BitVec.not_lt.1 fun hlt => hfits (.inr hlt))

theorem TapePlaced.wreof : StaysInside (tmExecWreofChecked s) (tmExecWreof s) := by
  have hsize := h.size
  have hpos := h.pos
  refine ⟨(tmExecWreofChecked_checks s).eq_some fun hfits => ?_, ?_⟩
  · have hle := BitVec.le_def.1 (BitVec.not_lt.1 fun hlt => hfits (.inr hlt))
    have h4 : (s.dev.tm.pos + 4).toNat = s.dev.tm.pos.toNat + 4 := toNat_add_lt (n := 4) (by omega)
    exact spanInside_of_le (by omega)
  · obtain ⟨hlen, hpos'⟩ := tmExecWreof_placed s
    refine ⟨?_, ?_⟩
    · rw [hlen]
      exact hsize
    · rw [hlen, hpos']
      split_ifs with hfits
      · exact hpos
      · exact BitVec.le_def.1 (BitVec.not_lt.1 fun hlt => hfits (.inr hlt))

theorem TapePlaced.spacef (hahead : RecordAhead s.dev.tm) :
    StaysInside (tmExecSpacefChecked s) (tmExecSpacef s) :=
  ⟨(tmExecSpacefChecked_checks s).eq_some h.lenInside,
    h.moved (tmExecSpacef_position s) (h.ahead_le hahead)⟩

theorem TapePlaced.spacer (hbehind : RecordBehind s.dev.tm) :
    StaysInside (tmExecSpacerChecked s) (tmExecSpacer s) :=
  ⟨(tmExecSpacerChecked_checks s).eq_some (h.behind hbehind),
    h.moved (tmExecSpacer_position s) (h.behind_le hbehind)⟩

/-- A command that the condition admits. -/
theorem TapePlaced.execute {func : Word}
    (hread : func = tmFncRead ∨ func = tmFncSpacef → RecordAhead s.dev.tm)
    (hreverse : func = tmFncSpacer → RecordBehind s.dev.tm) :
    StaysInside (tmExecuteChecked s func) (tmExecute s func) := by
  have hdone {x : Option Cpu} {t : Cpu} (hx : StaysInside x t) :
      StaysInside (do let t ← x; pure (tmSetDone t)) (tmSetDone t) := by
    refine ⟨?_, hx.placed.setDone⟩
    rw [hx.checked]
    rfl
  have hcount := tmByteCount_lt s.dev.tm
  unfold tmExecuteChecked tmExecute
  refine hdone ?_
  unfold tmCommandChecked
  by_cases h1 : func = tmFncRead
  · rw [if_pos h1, if_pos h1]
    exact h.read (hread (.inl h1)) _ _
  rw [if_neg h1, if_neg h1]
  by_cases h2 : func = tmFncWrite ∨ func = tmFncWrext
  · rw [if_pos h2, if_pos h2]
    exact h.write _ hcount
  rw [if_neg h2, if_neg h2]
  by_cases h3 : func = tmFncWreof
  · rw [if_pos h3, if_pos h3]
    exact h.wreof
  rw [if_neg h3, if_neg h3]
  by_cases h4 : func = tmFncSpacef
  · rw [if_pos h4, if_pos h4]
    exact h.spacef (hread (.inr h4))
  rw [if_neg h4, if_neg h4]
  by_cases h5 : func = tmFncSpacer
  · rw [if_pos h5, if_pos h5]
    exact h.spacer (hreverse h5)
  rw [if_neg h5, if_neg h5]
  exact ⟨rfl, h⟩

/-- A completion that meets the condition. -/
theorem TapePlaced.poll (hfits : CompletionFits s) : StaysInside (tmPollChecked s) (tmPoll s) := by
  unfold CompletionFits tmPollOperation at hfits
  unfold tmPollChecked
  by_cases hdue : !s.dev.tm.busy ∨ s.acct.timeNs < s.dev.tm.doneNs
  · have hpoll : tmPoll s = s := if_pos hdue
    rw [if_pos hdue, hpoll]
    exact ⟨rfl, h⟩
  rw [if_neg hdue] at hfits ⊢
  have hfits := hfits _ rfl
  dsimp only
  by_cases hrewind : tmGetFnc s.dev.tm.cmd = tmFncRewind ∨ tmGetFnc s.dev.tm.cmd = tmFncUnload
  · rw [if_pos hrewind]
    refine ⟨rfl, ?_⟩
    have hpoll : tmPoll s = tmSetDone { s with
        dev.tm.pos := 0
        dev.tm.sta := s.dev.tm.sta &&& ~~~staRew } := (if_neg hdue).trans (if_pos hrewind)
    rw [hpoll]
    have hplaced : TapePlaced { s.dev.tm with
        pos := 0
        sta := s.dev.tm.sta &&& ~~~staRew } := ⟨h.size, Nat.zero_le _⟩
    exact hplaced.setDone
  · have hpoll : tmPoll s = tmExecute s (tmGetFnc s.dev.tm.cmd) :=
      (if_neg hdue).trans (if_neg hrewind)
    rw [if_neg hrewind, hpoll]
    refine h.execute (fun hf => ?_) fun hf => ?_
    · rcases hf with hf | hf <;> rw [hf] at hfits <;> exact hfits
    · rw [hf] at hfits
      exact hfits

end Commands

/-! ## Runs of the controller -/

/-- What may happen to the tape: an image is attached, a register accessed, a command completes;
the machine is reset; or anything happens that leaves the controller alone. -/
inductive TapeOp
  | attach (tape : ByteImage) (len : BitVec 32) (wrp : Bool)
  | write (addr value : Word)
  | read (addr : Word)
  | poll
  | reset
  | init
  | elsewhere (t : Cpu)

def TapeOp.apply (op : TapeOp) (s : Cpu) : Cpu :=
  match op with
  | .attach tape len wrp => tmAttach s tape len wrp
  | .write addr value => tmWrite s addr value
  | .read addr => (tmRead s addr).2
  | .poll => tmPoll s
  | .reset => cpuReset s
  | .init => busInit s
  | .elsewhere t => { t with dev.tm := s.dev.tm }

/-- Images are shorter than `2^31` bytes. -/
def TapeOp.Small : TapeOp → Prop
  | .attach _ len _ => len.toNat < 2 ^ 31
  | _ => True

/-- Completions meet the condition. -/
def TapeOp.Fits (op : TapeOp) (s : Cpu) : Prop :=
  match op with
  | .poll => CompletionFits s
  | _ => True

/-- Starting a command moves no tape. -/
theorem tmGo_position (s : Cpu) : MovedTo s.dev.tm.pos s.dev.tm (tmGo s).dev.tm := by
  unfold tmGo
  dsimp only
  split
  · obtain ⟨htape, hlen, hpos⟩ :=
      tmSetDone_position { s with dev.tm.sta := s.dev.tm.sta ||| staIll }
    exact ⟨htape, hlen, hpos⟩
  · exact ⟨rfl, rfl, rfl⟩

theorem tmWrite_position (s : Cpu) (addr value : Word) :
    MovedTo s.dev.tm.pos s.dev.tm (tmWrite s addr value).dev.tm := by
  have hmtc : MovedTo s.dev.tm.pos s.dev.tm (tmWriteMtc s value).dev.tm := by
    by_cases hinit : value &&& mtcInit = 0
    · obtain ⟨intReq, heq⟩ := tmWriteMtc_eq (s := s) hinit
      rw [heq]
      dsimp only
      split
      · obtain ⟨htape, hlen, hpos⟩ := tmGo_position { s with
          dev.intReq := intReq
          dev.tm.cmd := (s.dev.tm.cmd &&& ~~~mtcRw) ||| (value &&& mtcRw) }
        exact ⟨htape, hlen, hpos⟩
      · exact ⟨rfl, rfl, rfl⟩
    · unfold tmWriteMtc
      rw [if_pos hinit]
      exact ⟨rfl, rfl, rfl⟩
  unfold tmWrite
  split_ifs
  · exact hmtc
  all_goals exact ⟨rfl, rfl, rfl⟩

theorem tmRead_position (s : Cpu) (addr : Word) :
    MovedTo s.dev.tm.pos s.dev.tm (tmRead s addr).2.dev.tm := by
  unfold tmRead
  dsimp only
  split_ifs <;> exact ⟨rfl, rfl, rfl⟩

theorem TapeOp.placed {op : TapeOp} {s : Cpu} (hop : op.Small ∧ op.Fits s)
    (h : TapePlaced s.dev.tm) : TapePlaced (op.apply s).dev.tm := by
  obtain ⟨hsmall, hfits⟩ := hop
  cases op with
  | attach tape len wrp => exact ⟨hsmall, Nat.zero_le _⟩
  | write addr value => exact h.moved (tmWrite_position s addr value) h.pos
  | read addr => exact h.moved (tmRead_position s addr) h.pos
  | poll => exact (h.poll hfits).placed
  | reset => exact ⟨h.size, h.pos⟩
  | init => exact ⟨h.size, h.pos⟩
  | elsewhere t => exact h

/-- From the attachment of an image shorter than `2^31` bytes on, over completions that find no
record running past an end of it: the position stays in the image, and so does every access of the
tape buffer that such a completion makes. -/
theorem tape_accesses_inside {s t : Cpu} {tape : ByteImage} {len : BitVec 32} {wrp : Bool}
    (hlen : len.toNat < 2 ^ 31)
    (h : Run TapeOp.apply (fun op s => op.Small ∧ op.Fits s) (tmAttach s tape len wrp) t) :
    t.dev.tm.pos ≤ t.dev.tm.tapeLen ∧
      (CompletionFits t → tmPollChecked t = some (tmPoll t)) := by
  have hstart : TapePlaced (tmAttach s tape len wrp).dev.tm := ⟨hlen, Nat.zero_le _⟩
  have ht : TapePlaced t.dev.tm :=
    h.invariant (I := fun u => TapePlaced u.dev.tm) (fun _ _ hop hu => TapeOp.placed hop hu) hstart
  exact ⟨ht.pos, fun hfits => (ht.poll hfits).checked⟩

/-! ## A truncated record -/

/-- A record of four bytes. -/
def shortTape : ByteImage :=
  some fun i => if i = 0 ∨ i = 8 then 4 else if i = 4 then 0o252 else if i = 5 then 0o273 else 0

/-- A READ of the record from an image of the given length, due. -/
def shortRead (len : BitVec 32) : Cpu :=
  let s := tmWrite (tmWrite (tmAttach cpuCreate shortTape len false) 0o172524 0o177774) 0o172522 3
  { s with acct.timeNs := s.dev.tm.doneNs }

theorem shortRead_reached (len : BitVec 32) :
    Run TapeOp.apply (fun op s => op.Small ∧ op.Fits s) (tmAttach cpuCreate shortTape len false)
      (shortRead len) := by
  have h0 : Run TapeOp.apply (fun op s => op.Small ∧ op.Fits s)
      (tmAttach cpuCreate shortTape len false) (tmAttach cpuCreate shortTape len false) := .refl _
  have h1 := h0.snoc (TapeOp.write 0o172524 0o177774) ⟨trivial, trivial⟩
  have h2 := h1.snoc (TapeOp.write 0o172522 3) ⟨trivial, trivial⟩
  exact h2.snoc (TapeOp.elsewhere (shortRead len)) ⟨trivial, trivial⟩

/-- From an image that ends within the data the READ takes bytes beyond it, and leaves the position
there. -/
theorem tape_accesses_outside : ¬∀ (s t : Cpu) (tape : ByteImage) (len : BitVec 32) (wrp : Bool),
    len.toNat < 2 ^ 31 → Run TapeOp.apply (fun op _ => op.Small) (tmAttach s tape len wrp) t →
    (tmPollChecked t).isSome = true ∧ (tmPoll t).dev.tm.pos ≤ (tmPoll t).dev.tm.tapeLen := by
  intro h
  have hrun := (shortRead_reached 6).mono fun _ _ hop => hop.1
  obtain ⟨hchecked, hpos⟩ := h cpuCreate (shortRead 6) shortTape 6 false (by decide) hrun
  exact absurd hchecked (by decide)

/-- From the whole image it does not. -/
theorem short_read_inside : tmPollChecked (shortRead 12) = some (tmPoll (shortRead 12)) := by
  refine (tape_accesses_inside (by decide) (shortRead_reached 12)).2 ?_
  intro op hop
  have hread : op = .read := by
    have hdue : tmPollOperation (shortRead 12) = some .read := by decide
    exact (Option.some.inj (hdue.symm.trans hop)).symm
  subst hread
  intro _ _
  decide

end Pdp11
