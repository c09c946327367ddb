import Pdp11.State

namespace Pdp11

abbrev rkcsGo : Word := 0o000001
abbrev rkcsFunc : Word := 0o000016
abbrev rkcsMex : Word := 0o000060
abbrev rkcsIe : Word := 0o000100
abbrev rkcsDone : Word := 0o000200
abbrev rkcsInh : Word := 0o004000
abbrev rkcsScp : Word := 0o020000
abbrev rkcsHerr : Word := 0o040000
abbrev rkcsErr : Word := 0o100000
abbrev rkcsReal : Word := 0o026776
abbrev rkcsRw : Word := 0o006576

abbrev rkFuncCreset : Word := 0
abbrev rkFuncWrite : Word := 1
abbrev rkFuncRead : Word := 2
abbrev rkFuncWchk : Word := 3
abbrev rkFuncSeek : Word := 4
abbrev rkFuncDreset : Word := 6
abbrev rkFuncWlk : Word := 7

abbrev rkerWce : Word := 0o000001
abbrev rkerNxs : Word := 0o000040
abbrev rkerNxc : Word := 0o000100
abbrev rkerNxd : Word := 0o000200
abbrev rkerOvr : Word := 0o040000
abbrev rkerHard : Word := 0o177740

abbrev rkbaImp : Word := 0o177776
abbrev rkdaDrive : Word := 0o160000

abbrev rkNumwd : BitVec 32 := 256
abbrev rkNumsc : BitVec 32 := 12
abbrev rkNumcy : BitVec 32 := 203

abbrev rkBaseNs : Time := 1000000
abbrev rkWordNs : BitVec 32 := 100

def rkGetSect (x : Word) : BitVec 32 := (x &&& 0o17).setWidth 32
def rkGetTrack (x : Word) : BitVec 32 := ((x >>> 4) &&& 0o777).setWidth 32
def rkGetCyl (x : Word) : BitVec 32 := ((x >>> 5) &&& 0o377).setWidth 32

/-- The word of an attached image; the controllers check for one before they transfer. -/
def DiskImage.read (disk : DiskImage) (i : BitVec 32) : Word := (disk.getD fun _ => 0) i

def DiskImage.write (disk : DiskImage) (i : BitVec 32) (value : Word) : DiskImage :=
  disk.map fun d => Function.update d i value

/-- The two's-complement word count, 1 to 65536. -/
def wordCount (wc : Word) : BitVec 32 := 0o200000 - wc.setWidth 32

/-- The passes of a loop `for (int32_t i = 0; i < wc; ++i)`. -/
def loopCount (wc : BitVec 32) : ℕ := wc.toInt.toNat

def rkSetError (s : Cpu) (err : Word) : Cpu :=
  let s := { s with
    dev.rk.rker := s.dev.rk.rker ||| err
    dev.rk.rkcs := s.dev.rk.rkcs ||| rkcsErr }
  if s.dev.rk.rker &&& rkerHard ≠ 0 then
    { s with dev.rk.rkcs := s.dev.rk.rkcs ||| rkcsHerr }
  else s

/-- Set DONE and raise or lower the interrupt to match. -/
def rkFinish (s : Cpu) : Cpu :=
  let s := { s with
    dev.rk.busy := false
    dev.rk.rkcs := s.dev.rk.rkcs ||| rkcsDone }
  if s.dev.rk.rkcs &&& rkcsIe ≠ 0 then setInt s .rk else clrInt s .rk

/-- One word of a transfer, the `i`-th from bus address `ma` and disk word `da`. -/
def rkTransferWord (func : Word) (ma da : BitVec 32) (s : Cpu) (i : ℕ) : Cpu :=
  let mem := unibusMap s (ma + BitVec.ofNat 32 (i * 2))
  let idx := da + BitVec.ofNat 32 i
  if func = rkFuncRead then
    { s with mem := memWriteWord s.mem mem (s.dev.rk.disk.read idx) }
  else if func = rkFuncWrite then
    { s with dev.rk.disk := s.dev.rk.disk.write idx (memReadWord s.mem mem) }
  else if func = rkFuncWchk ∧ memReadWord s.mem mem ≠ s.dev.rk.disk.read idx then
    rkSetError s rkerWce
  else s

/-- The registers after a transfer of `wc` words from bus address `ma` and disk word `da`. -/
def rkAdvance (ma da wc : BitVec 32) (s : Cpu) : Cpu :=
  let s := { s with dev.rk.rkwc := s.dev.rk.rkwc + wc.setWidth 16 }
  let ma := if s.dev.rk.rkcs &&& rkcsInh = 0 then ma + wc * 2 else ma
  let da := da + wc + (rkNumwd - 1)
  let track := da / rkNumwd / rkNumsc
  let sect := da / rkNumwd % rkNumsc
  { s with
    dev.rk.rkba := ma.setWidth 16 &&& rkbaImp
    dev.rk.rkcs := (s.dev.rk.rkcs &&& ~~~rkcsMex) ||| ((ma >>> 12).setWidth 16 &&& rkcsMex)
    dev.rk.rkda := (s.dev.rk.rkda &&& rkdaDrive) ||| (track <<< 4).setWidth 16 |||
      sect.setWidth 16 }

def rkTransfer (s : Cpu) (func : Word) : Cpu :=
  let ma := ((s.dev.rk.rkcs &&& rkcsMex).setWidth 32 <<< 12) ||| s.dev.rk.rkba.setWidth 32
  let da := (rkGetTrack s.dev.rk.rkda * rkNumsc + rkGetSect s.dev.rk.rkda) * rkNumwd
  let wc := wordCount s.dev.rk.rkwc
  let overrun := s.dev.rk.diskWords < da + wc
  -- overrun: trim
  let wc := if overrun then s.dev.rk.diskWords - da else wc
  let s := if overrun then rkSetError s rkerOvr else s
  rkAdvance ma da wc ((List.range (loopCount wc)).foldl (rkTransferWord func ma da) s)

/-- Decode and start a command (RKCS GO with DONE set). -/
def rkGo (s : Cpu) : Cpu :=
  let func := (s.dev.rk.rkcs &&& rkcsFunc) >>> 1
  if func = rkFuncCreset then
    clrInt { s with
      dev.rk.rker := 0
      dev.rk.rkda := 0
      dev.rk.rkba := 0
      dev.rk.rkcs := rkcsDone
      dev.rk.busy := false } .rk
  else
    let s := { s with dev.rk.rkcs := s.dev.rk.rkcs &&& ~~~rkcsScp &&& ~~~rkcsDone }
    let s := clrInt s .rk
    if s.dev.rk.disk.isNone ∨ s.dev.rk.rkda &&& rkdaDrive ≠ 0 then
      rkFinish (rkSetError s rkerNxd)
    else if func = rkFuncWlk then
      rkFinish s
    else
      let sect := if func = rkFuncDreset then 0 else rkGetSect s.dev.rk.rkda
      let cyl := if func = rkFuncDreset then 0 else rkGetCyl s.dev.rk.rkda
      let func := if func = rkFuncDreset then rkFuncSeek else func
      if rkNumsc ≤ sect then
        rkFinish (rkSetError s rkerNxs)
      else if rkNumcy ≤ cyl then
        rkFinish (rkSetError s rkerNxc)
      else
        let wc := wordCount s.dev.rk.rkwc
        let s := if func = rkFuncRead ∨ func = rkFuncWrite ∨ func = rkFuncWchk then
            rkTransfer s func
          else s
        { s with
          dev.rk.busy := true
          dev.rk.doneNs := s.acct.timeNs + rkBaseNs +
            ((if 0 < wc.toInt then wc else 0) * rkWordNs).setWidth 64 }

def rkPoll (s : Cpu) : Cpu :=
  if s.dev.rk.busy ∧ s.dev.rk.doneNs ≤ s.acct.timeNs then rkFinish s else s

def rkAttach (s : Cpu) (disk : DiskImage) (words : BitVec 32) : Cpu :=
  { s with
    dev.rk.disk := disk
    dev.rk.diskWords := words }

def rkRead (s : Cpu) (addr : Word) : Word :=
  let rk := s.dev.rk
  if addr = 0o177402 then rk.rker
  else if addr = 0o177404 then
    let cs := rk.rkcs &&& rkcsReal
    let cs := if rk.rker ≠ 0 then cs ||| rkcsErr else cs
    if rk.rker &&& rkerHard ≠ 0 then cs ||| rkcsHerr else cs
  else if addr = 0o177406 then rk.rkwc
  else if addr = 0o177410 then rk.rkba &&& rkbaImp
  else if addr = 0o177412 then rk.rkda
  else if addr = 0o177400 then rk.rkds
  else 0

def rkWrite (s : Cpu) (addr value : Word) : Cpu :=
  if addr = 0o177404 then
    let s := { s with dev.rk.rkcs := s.dev.rk.rkcs &&& rkcsReal }
    let s := if value &&& rkcsIe = 0 then clrInt s .rk
      else if s.dev.rk.rkcs &&& (rkcsDone ||| rkcsIe) = rkcsDone then setInt s .rk
      else s
    let s := { s with dev.rk.rkcs := (s.dev.rk.rkcs &&& ~~~rkcsRw) ||| (value &&& rkcsRw) }
    if s.dev.rk.rkcs &&& rkcsDone ≠ 0 ∧ value &&& rkcsGo ≠ 0 then rkGo s else s
  else if addr = 0o177406 then { s with dev.rk.rkwc := value }
  else if addr = 0o177410 then { s with dev.rk.rkba := value &&& rkbaImp }
  else if addr = 0o177412 then
    if s.dev.rk.rkcs &&& rkcsDone ≠ 0 then { s with dev.rk.rkda := value } else s
  else s

end Pdp11
