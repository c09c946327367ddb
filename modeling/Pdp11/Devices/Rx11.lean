import Pdp11.Devices.Tm11

namespace Pdp11

abbrev rxcsGo : Word := 0o000001
abbrev rxcsFunc : Word := 0o000016
abbrev rxcsDrv : Word := 0o000020
abbrev rxcsDone : Word := 0o000040
abbrev rxcsIe : Word := 0o000100
abbrev rxcsTr : Word := 0o000200
abbrev rxcsInit : Word := 0o040000
abbrev rxcsErr : Word := 0o100000
abbrev rxcsRout : Word := rxcsErr ||| rxcsTr ||| rxcsIe ||| rxcsDone
abbrev rxcsRw : Word := rxcsIe

abbrev rxFuncFill : Word := 0
abbrev rxFuncEmpty : Word := 1
abbrev rxFuncWrite : Word := 2
abbrev rxFuncRead : Word := 3
abbrev rxFuncWrdel : Word := 6
abbrev rxFuncEcode : Word := 7

abbrev rxesId : Byte := 0o004
abbrev rxesDd : Byte := 0o100
abbrev rxesDrdy : Byte := 0o200

abbrev rxNumtr : Byte := 77
abbrev rxNumsc : Byte := 26
abbrev rxNumby : Byte := 128

def rxFunc (rx : Rx11) : Word := (rx.rxcs >>> 1) &&& 7

/-- Complete a command: go idle, set DONE (and interrupt if IE), fold `esrFlags` into RXES and
post the error code; without a code RXDB is left alone. -/
def rxDone (s : Cpu) (esrFlags : Byte) (newEcode : Option Byte) : Cpu :=
  let s := { s with
    dev.rx.state := .idle
    dev.rx.rxcs := s.dev.rx.rxcs ||| rxcsDone }
  let s := if s.dev.rx.rxcs &&& rxcsIe ≠ 0 then setInt s .rx else s
  let rxes := (s.dev.rx.rxes ||| esrFlags) &&& ~~~rxesDrdy
  let s := { s with
    dev.rx.rxes := if s.dev.rx.disk.isSome then rxes ||| rxesDrdy else rxes }
  match newEcode with
  | none => s
  | some code =>
    let s := if 0 < code then { s with dev.rx.rxcs := s.dev.rx.rxcs ||| rxcsErr } else s
    { s with
      dev.rx.ecode := code
      dev.rx.rxdb := s.dev.rx.rxes }

/-- The byte offset of a sector in the image. -/
def rxSectorAddr (track sector : Byte) : BitVec 32 :=
  (track.setWidth 32 * 26 + (sector.setWidth 32 - 1)) * 128

/-- The sector transfer of a read or write command. -/
def rxTransfer (s : Cpu) : Cpu :=
  let rx := s.dev.rx
  if rx.disk.isNone then rxDone s 0 (some 0o110)
  else if rxNumtr ≤ rx.track then rxDone s 0 (some 0o040)
  else
    let s := { s with dev.rx.curTrack := rx.track }
    if rx.sector = 0 ∨ rxNumsc < rx.sector then rxDone s 0 (some 0o070)
    else
      let da := rxSectorAddr rx.track rx.sector
      let s := if rxFunc rx = rxFuncWrdel then { s with dev.rx.rxes := rx.rxes ||| rxesDd } else s
      if rxFunc rx = rxFuncRead then
        rxDone { s with dev.rx.buf := fun i => rx.disk.read (da + i.setWidth 32) } 0 (some 0)
      else
        rxDone { s with
          dev.rx.disk := (List.range 128).foldl (fun d i =>
            d.write (da + BitVec.ofNat 32 i) (rx.buf (BitVec.ofNat 7 i))) rx.disk } 0 (some 0)

/-- Advance the command state machine one step. -/
def rxStep (s : Cpu) : Cpu :=
  let rx := s.dev.rx
  match rx.state with
  | .empty =>
    if rxNumby ≤ rx.bptr then rxDone s 0 (some 0)
    else { s with
      dev.rx.rxdb := rx.buf (rx.bptr.setWidth 7)
      dev.rx.bptr := rx.bptr + 1
      dev.rx.rxcs := rx.rxcs ||| rxcsTr }
  | .fill =>
    let s := { s with
      dev.rx.buf := Function.update rx.buf (rx.bptr.setWidth 7) rx.rxdb
      dev.rx.bptr := rx.bptr + 1 }
    if rx.bptr + 1 < rxNumby then { s with dev.rx.rxcs := rx.rxcs ||| rxcsTr }
    else rxDone s 0 (some 0)
  | .rwds =>
    { s with
      dev.rx.sector := rx.rxdb &&& 0o177
      dev.rx.rxcs := rx.rxcs ||| rxcsTr
      dev.rx.state := .rwdt }
  | .rwdt =>
    -- the transfer is performed at once
    rxTransfer { s with
      dev.rx.track := rx.rxdb
      dev.rx.state := .rwxfr }
  | .rwxfr => rxTransfer s
  | .cmddone =>
    if rxFunc rx = rxFuncEcode then rxDone { s with dev.rx.rxdb := rx.ecode } 0 none
    else rxDone s 0 (some 0)
  | .idle => s

def rxResetState (s : Cpu) : Cpu :=
  let rxes := if s.dev.rx.disk.isSome then rxesId ||| rxesDrdy else rxesId
  clrInt { s with
    dev.rx.rxcs := rxcsDone
    dev.rx.rxes := rxes
    dev.rx.rxdb := rxes
    dev.rx.ecode := 0
    dev.rx.state := .idle
    dev.rx.bptr := 0 } .rx

def rxRead (s : Cpu) (addr : Word) : Word × Cpu :=
  if addr = 0o177170 then (s.dev.rx.rxcs &&& rxcsRout, s)
  else
    -- RXDB: the current byte; if emptying, advance to the next
    let d := s.dev.rx.rxdb.setWidth 16
    if s.dev.rx.state = .empty ∧ s.dev.rx.rxcs &&& rxcsTr ≠ 0 then
      (d, rxStep { s with dev.rx.rxcs := s.dev.rx.rxcs &&& ~~~rxcsTr })
    else (d, s)

/-- Launch a function (GO while idle). -/
def rxGo (s : Cpu) (value : Word) : Cpu :=
  let s := { s with
    dev.rx.rxcs := value &&& (rxcsIe ||| rxcsDrv ||| rxcsFunc)
    dev.rx.bptr := 0 }
  let func := rxFunc s.dev.rx
  if func = rxFuncFill then
    { s with
      dev.rx.state := .fill
      dev.rx.rxcs := s.dev.rx.rxcs ||| rxcsTr }
  else if func = rxFuncEmpty then
    rxStep { s with dev.rx.state := .empty }
  else if func = rxFuncRead ∨ func = rxFuncWrite ∨ func = rxFuncWrdel then
    { s with
      dev.rx.state := .rwds
      dev.rx.rxcs := s.dev.rx.rxcs ||| rxcsTr
      dev.rx.rxes := s.dev.rx.rxes &&& rxesId }
  else rxStep { s with dev.rx.state := .cmddone }

def rxWriteRxcs (s : Cpu) (value : Word) : Cpu :=
  if value &&& rxcsInit ≠ 0 then rxResetState s
  else if value &&& rxcsGo ≠ 0 ∧ s.dev.rx.state = .idle then rxGo s value
  else
    -- not a GO: just update the interrupt enable
    let s := if value &&& rxcsIe = 0 then clrInt s .rx
      else if s.dev.rx.rxcs &&& (rxcsDone ||| rxcsIe) = rxcsDone then setInt s .rx
      else s
    { s with dev.rx.rxcs := (s.dev.rx.rxcs &&& ~~~rxcsRw) ||| (value &&& rxcsRw) }

def rxWrite (s : Cpu) (addr value : Word) : Cpu :=
  if addr = 0o177170 then rxWriteRxcs s value
  else if s.dev.rx.state ≠ .idle ∧ s.dev.rx.rxcs &&& rxcsTr ≠ 0 then
    -- RXDB accepts a byte only when a command has requested a transfer
    let s := { s with dev.rx.rxdb := value.setWidth 8 }
    if s.dev.rx.state ≠ .empty then
      rxStep { s with dev.rx.rxcs := s.dev.rx.rxcs &&& ~~~rxcsTr }
    else s
  else s

def rxAttach (s : Cpu) (disk : ByteImage) (bytes : BitVec 32) : Cpu :=
  { s with
    dev.rx.disk := disk
    dev.rx.diskBytes := bytes }

end Pdp11
