import Pdp11.State

namespace Pdp11

abbrev mtcGo : Word := 0o000001
abbrev mtcEma : Word := 0o000060
abbrev mtcIe : Word := 0o000100
abbrev mtcDone : Word := 0o000200
abbrev mtcInit : Word := 0o010000
abbrev mtcErr : Word := 0o100000
abbrev mtcRw : Word := 0o166576

abbrev tmFncUnload : Word := 0
abbrev tmFncRead : Word := 1
abbrev tmFncWrite : Word := 2
abbrev tmFncWreof : Word := 3
abbrev tmFncSpacef : Word := 4
abbrev tmFncSpacer : Word := 5
abbrev tmFncWrext : Word := 6
abbrev tmFncRewind : Word := 7

abbrev staTur : Word := 0o000001
abbrev staRew : Word := 0o000002
abbrev staWlk : Word := 0o000004
abbrev staBot : Word := 0o000040
abbrev staOnl : Word := 0o000100
abbrev staNxm : Word := 0o000200
abbrev staRle : Word := 0o001000
abbrev staEot : Word := 0o002000
abbrev staEof : Word := 0o040000
abbrev staIll : Word := 0o100000
abbrev staDyn : Word := staEof ||| staEot ||| staOnl ||| staBot ||| staWlk ||| staRew ||| staTur
abbrev staEflgs : Word := staIll ||| staEof ||| staRle ||| staNxm

abbrev tmBaseNs : Time := 4000000
abbrev tmByteNs : BitVec 32 := 100

def tmGetFnc (c : Word) : Word := (c >>> 1) &&& 0o7
def tmGetEma (c : Word) : BitVec 32 := (c &&& mtcEma).setWidth 32 <<< 12

/-- The byte of an attached image; the tape and floppy check for one before they transfer. -/
def ByteImage.read (image : ByteImage) (i : BitVec 32) : Byte := (image.getD fun _ => 0) i

def ByteImage.write (image : ByteImage) (i : BitVec 32) (value : Byte) : ByteImage :=
  image.map fun d => Function.update d i value

/-- A byte of memory as the tape's DMA reaches it, through the Unibus map. -/
def tmMemReadByte (s : Cpu) (a : BitVec 32) : Byte :=
  let pa := unibusMap s a
  let w := memReadWord s.mem (pa &&& ~~~1)
  if pa &&& 1 ≠ 0 then (w >>> 8).setWidth 8 else (w &&& 0o377).setWidth 8

def tmMemWriteByte (s : Cpu) (a : BitVec 32) (b : Byte) : Cpu :=
  let pa := unibusMap s a
  let w := memReadWord s.mem (pa &&& ~~~1)
  let w := if pa &&& 1 ≠ 0 then (w &&& 0o377) ||| (b.setWidth 16 <<< 8)
    else (w &&& 0o177400) ||| b.setWidth 16
  { s with mem := memWriteWord s.mem (pa &&& ~~~1) w }

/-- Little-endian record length at a tape position, or all ones past the end. -/
def tapLenAt (tm : Tm11) (idx : BitVec 32) : BitVec 32 :=
  if tm.tapeLen < idx + 4 then 0xFFFFFFFF
  else
    (tm.tape.read idx).setWidth 32 ||| ((tm.tape.read (idx + 1)).setWidth 32 <<< 8) |||
      ((tm.tape.read (idx + 2)).setWidth 32 <<< 16) |||
      ((tm.tape.read (idx + 3)).setWidth 32 <<< 24)

def tmLenAtIsEom (tm : Tm11) : Bool := tm.tape.isSome && decide (tm.tapeLen ≤ tm.pos)

def tmSetDone (s : Cpu) : Cpu :=
  let s := { s with
    dev.tm.busy := false
    dev.tm.cmd := s.dev.tm.cmd ||| mtcDone }
  if s.dev.tm.cmd &&& mtcIe ≠ 0 then setInt s .tm else clrInt s .tm

/-- MTS with its dynamic bits. -/
def tmStatus (tm : Tm11) : Word :=
  let s := tm.sta &&& ~~~staDyn
  let s := if tm.tape.isSome then
      let s := s ||| staOnl
      let s := if tm.pos = 0 then s ||| staBot else s
      let s := if tm.wrp then s ||| staWlk else s
      if tmLenAtIsEom tm then s ||| staEot else s
    else s
  if !tm.busy then s ||| staTur else s

/-- The position past a record: header, data padded to even, trailer. -/
def tapPast (pos rl : BitVec 32) : BitVec 32 := pos + (4 + ((rl + 1) &&& ~~~1) + 4)

/-- The little-endian bytes of a record header or trailer, whose count fits in 16 bits. -/
def tapWriteLen (tape : ByteImage) (idx cbc : BitVec 32) : ByteImage :=
  let tape := tape.write idx ((cbc &&& 0o377).setWidth 8)
  let tape := tape.write (idx + 1) (((cbc >>> 8) &&& 0o377).setWidth 8)
  (tape.write (idx + 3) 0).write (idx + 2) 0

def tmExecRead (s : Cpu) (xma cbc : BitVec 32) : Cpu :=
  let tm := s.dev.tm
  let rl := tapLenAt tm tm.pos
  if rl = 0 then
    { s with
      dev.tm.sta := tm.sta ||| staEof
      dev.tm.pos := tm.pos + 4 }
  else if rl = 0xFFFFFFFF then
    { s with dev.tm.sta := tm.sta ||| staIll }
  else
    let data := tm.pos + 4
    let n := if rl < cbc then rl else cbc
    let s := if cbc < rl then { s with dev.tm.sta := tm.sta ||| staRle } else s
    let s := (List.range n.toNat).foldl (fun s i =>
      tmMemWriteByte s ((xma + BitVec.ofNat 32 i) &&& 0o777777)
        (s.dev.tm.tape.read (data + BitVec.ofNat 32 i))) s
    { s with
      dev.tm.ca := (xma + n).setWidth 16
      dev.tm.bc := tm.bc + n.setWidth 16
      dev.tm.pos := tapPast tm.pos rl }

def tmExecWrite (s : Cpu) (xma cbc : BitVec 32) : Cpu :=
  let tm := s.dev.tm
  let need := tapPast tm.pos cbc
  if tm.wrp ∨ tm.tapeLen < need then
    { s with dev.tm.sta := tm.sta ||| staIll }
  else
    let s := { s with dev.tm.tape := tapWriteLen tm.tape tm.pos cbc }
    let s := (List.range cbc.toNat).foldl (fun s i =>
      let b := tmMemReadByte s ((xma + BitVec.ofNat 32 i) &&& 0o777777)
      { s with dev.tm.tape := s.dev.tm.tape.write (tm.pos + 4 + BitVec.ofNat 32 i) b }) s
    let s := if cbc &&& 1 ≠ 0 then
        { s with dev.tm.tape := s.dev.tm.tape.write (tm.pos + 4 + cbc) 0 }
      else s
    let trailer := tm.pos + 4 + ((cbc + 1) &&& ~~~1)
    { s with
      dev.tm.tape := tapWriteLen s.dev.tm.tape trailer cbc
      dev.tm.ca := (xma + cbc).setWidth 16
      dev.tm.bc := 0
      dev.tm.pos := trailer + 4 }

def tmExecWreof (s : Cpu) : Cpu :=
  let tm := s.dev.tm
  if tm.wrp ∨ tm.tapeLen < tm.pos + 4 then
    { s with dev.tm.sta := tm.sta ||| staIll }
  else
    { s with
      dev.tm.tape := tapWriteLen tm.tape tm.pos 0
      dev.tm.pos := tm.pos + 4 }

def tmExecSpacef (s : Cpu) : Cpu :=
  let tm := s.dev.tm
  let rl := tapLenAt tm tm.pos
  if rl = 0 then
    { s with
      dev.tm.sta := tm.sta ||| staEof
      dev.tm.pos := tm.pos + 4 }
  else if rl = 0xFFFFFFFF then
    { s with dev.tm.sta := tm.sta ||| staIll }
  else
    { s with
      dev.tm.pos := tapPast tm.pos rl
      dev.tm.bc := tm.bc + 1 }

def tmExecSpacer (s : Cpu) : Cpu :=
  let tm := s.dev.tm
  if tm.pos = 0 then
    { s with dev.tm.sta := tm.sta ||| staBot }
  else
    let tl := tapLenAt tm (tm.pos - 4)
    if tl = 0 then { s with dev.tm.pos := tm.pos - 4 }
    else { s with dev.tm.pos := tm.pos - (4 + ((tl + 1) &&& ~~~1) + 4) }

/-- Execute a tape command. -/
def tmExecute (s : Cpu) (func : Word) : Cpu :=
  let xma := tmGetEma s.dev.tm.cmd ||| s.dev.tm.ca.setWidth 32
  let cbc : BitVec 32 := (0o200000 - s.dev.tm.bc.setWidth 32) &&& 0o177777
  tmSetDone
    (if func = tmFncRead then tmExecRead s xma cbc
    else if func = tmFncWrite ∨ func = tmFncWrext then tmExecWrite s xma cbc
    else if func = tmFncWreof then tmExecWreof s
    else if func = tmFncSpacef then tmExecSpacef s
    else if func = tmFncSpacer then tmExecSpacer s
    else s)

def tmPoll (s : Cpu) : Cpu :=
  if !s.dev.tm.busy ∨ s.acct.timeNs < s.dev.tm.doneNs then s
  else
    let func := tmGetFnc s.dev.tm.cmd
    if func = tmFncRewind ∨ func = tmFncUnload then
      tmSetDone { s with
        dev.tm.pos := 0
        dev.tm.sta := s.dev.tm.sta &&& ~~~staRew }
    else tmExecute s func

/-- Start a command (MTC written with GO and DONE set). -/
def tmGo (s : Cpu) : Cpu :=
  let func := tmGetFnc s.dev.tm.cmd
  let wr : Bool := func = tmFncWrite ∨ func = tmFncWreof ∨ func = tmFncWrext
  if s.dev.tm.tape.isNone ∨ (wr ∧ s.dev.tm.wrp) then
    tmSetDone { s with dev.tm.sta := s.dev.tm.sta ||| staIll }
  else
    let s := { s with
      dev.tm.sta := if func = tmFncRewind then staRew else 0
      dev.tm.cmd := s.dev.tm.cmd &&& ~~~mtcDone }
    let s := clrInt s .tm
    let cbc : BitVec 32 := (0o200000 - s.dev.tm.bc.setWidth 32) &&& 0o177777
    { s with
      dev.tm.busy := true
      dev.tm.doneNs := s.acct.timeNs + tmBaseNs + (cbc * tmByteNs).setWidth 64 }

def tmAttach (s : Cpu) (tape : ByteImage) (len : BitVec 32) (wrp : Bool) : Cpu :=
  { s with
    dev.tm.tape := tape
    dev.tm.tapeLen := len
    dev.tm.wrp := wrp
    dev.tm.pos := 0 }

def tmRead (s : Cpu) (addr : Word) : Word × Cpu :=
  let tm := s.dev.tm
  if addr = 0o172520 then (tmStatus tm, s)
  else if addr = 0o172522 then
    let c := tm.cmd &&& ~~~mtcErr
    (if tmStatus tm &&& staEflgs ≠ 0 then c ||| mtcErr else c, s)
  else if addr = 0o172524 then (tm.bc, s)
  else if addr = 0o172526 then (tm.ca, s)
  else if addr = 0o172530 then (tm.db, s)
  else if addr = 0o172532 then
    -- the read-lines "clock" toggles
    (tm.rdl ^^^ 0o100000, { s with dev.tm.rdl := tm.rdl ^^^ 0o100000 })
  else (0, s)

def tmWriteMtc (s : Cpu) (value : Word) : Cpu :=
  if value &&& mtcInit ≠ 0 then
    clrInt { s with
      dev.tm.cmd := mtcDone
      dev.tm.sta := 0
      dev.tm.bc := 0
      dev.tm.ca := 0
      dev.tm.db := 0
      dev.tm.busy := false } .tm
  else
    let s := if value &&& mtcIe = 0 then clrInt s .tm
      else if s.dev.tm.cmd &&& (mtcDone ||| mtcIe) = mtcDone then setInt s .tm
      else s
    let s := { s with dev.tm.cmd := (s.dev.tm.cmd &&& ~~~mtcRw) ||| (value &&& mtcRw) }
    if s.dev.tm.cmd &&& mtcDone ≠ 0 ∧ value &&& mtcGo ≠ 0 then tmGo s else s

def tmWrite (s : Cpu) (addr value : Word) : Cpu :=
  if addr = 0o172522 then tmWriteMtc s value
  else if addr = 0o172524 then { s with dev.tm.bc := value }
  else if addr = 0o172526 then { s with dev.tm.ca := value }
  else if addr = 0o172530 then { s with dev.tm.db := value &&& 0o377 }
  else s

end Pdp11
