import Pdp11.Devices.Rk11

namespace Pdp11

abbrev rlcsDrdy : Word := 0o000001
abbrev rlcsFunc : Word := 0o000016
abbrev rlcsMex : Word := 0o000060
abbrev rlcsIe : Word := 0o000100
abbrev rlcsDone : Word := 0o000200
abbrev rlcsIncmp : Word := 0o002000
abbrev rlcsCrc : Word := 0o004000
abbrev rlcsDlt : Word := 0o010000
abbrev rlcsNxm : Word := 0o020000
abbrev rlcsDre : Word := 0o040000
abbrev rlcsErr : Word := 0o100000
abbrev rlcsRw : Word := 0o001776
abbrev rlcsAllerr : Word := rlcsErr ||| rlcsDre ||| rlcsNxm ||| rlcsDlt ||| rlcsCrc ||| rlcsIncmp

abbrev rlFuncNop : Word := 0
abbrev rlFuncWchk : Word := 1
abbrev rlFuncGsta : Word := 2
abbrev rlFuncSeek : Word := 3
abbrev rlFuncRhdr : Word := 4
abbrev rlFuncWrite : Word := 5
abbrev rlFuncRead : Word := 6
abbrev rlFuncRnohdr : Word := 7

abbrev rldaGs : Word := 0o000002
abbrev rldaSkDir : Word := 0o000004
abbrev rldaSkHd : Word := 0o000020
abbrev rldaHd1 : Word := 0o000100

abbrev rldsLock : Word := 0o000005
abbrev rldsBho : Word := 0o000010
abbrev rldsHdo : Word := 0o000020
abbrev rldsHd : Word := 0o000100
abbrev rldsRl02 : Word := 0o000200

abbrev rlNumwd : BitVec 32 := 128
abbrev rlNumsc : BitVec 32 := 40
abbrev rlNumcy : BitVec 32 := 256
abbrev rl01Words : BitVec 32 := 256 * 2 * 40 * 128

abbrev rlBaseNs : Time := 2000000
abbrev rlWordNs : BitVec 32 := 100

def rlGetSect (x : Word) : BitVec 32 := (x &&& 0o77).setWidth 32
def rlGetTrack (x : Word) : BitVec 32 := ((x >>> 6) &&& 0o1777).setWidth 32
def rlGetCyl (x : Word) : BitVec 32 := ((x >>> 7) &&& 0o777).setWidth 32

def rlIsRl02 (rl : Rl11) : Bool := rl01Words < rl.diskWords

/-- Set DONE and raise or lower the interrupt to match, or-ing in any error. -/
def rlFinish (s : Cpu) (status : Word) : Cpu :=
  let rlcs := s.dev.rl.rlcs ||| status ||| rlcsDone ||| rlcsDrdy
  let rlcs := if status &&& (rlcsIncmp ||| rlcsCrc ||| rlcsDlt ||| rlcsNxm ||| rlcsDre) ≠ 0 then
      rlcs ||| rlcsErr
    else rlcs
  let s := { s with
    dev.rl.busy := false
    dev.rl.rlcs := rlcs }
  if rlcs &&& rlcsIe ≠ 0 then setInt s .rl else clrInt s .rl

/-- One word of a transfer, with the error status so far. -/
def rlTransferWord (func : Word) (ma da : BitVec 32) (ss : Cpu × Word) (i : ℕ) : Cpu × Word :=
  let s := ss.1
  let mem := unibusMap s (ma + BitVec.ofNat 32 (i * 2))
  let idx := da + BitVec.ofNat 32 i
  if func = rlFuncRead ∨ func = rlFuncRnohdr then
    ({ s with mem := memWriteWord s.mem mem (s.dev.rl.disk.read idx) }, ss.2)
  else if func = rlFuncWrite then
    ({ s with dev.rl.disk := s.dev.rl.disk.write idx (memReadWord s.mem mem) }, ss.2)
  else if func = rlFuncWchk ∧ memReadWord s.mem mem ≠ s.dev.rl.disk.read idx then
    (s, ss.2 ||| rlcsErr ||| rlcsCrc)
  else ss

/-- The registers after a transfer of `wc` words that began with the registers `rl`, and the
error status. -/
def rlAdvance (rl : Rl11) (ma wc : BitVec 32) (ss : Cpu × Word) : Word × Cpu :=
  let s := ss.1
  let rlmp := rl.rlmp + wc.setWidth 16
  let ma := ma + wc * 2
  let rlda := rl.rlda + ((wc + (rlNumwd - 1)).sdiv rlNumwd).setWidth 16
  (if rlmp ≠ 0 then ss.2 ||| rlcsErr ||| rlcsIncmp else ss.2, { s with
    dev.rl.rlmp := rlmp
    dev.rl.rlba := ma.setWidth 16
    dev.rl.rlcs := (s.dev.rl.rlcs &&& ~~~rlcsMex) ||| (((ma >>> 16) &&& 3) <<< 4).setWidth 16
    dev.rl.rlda := rlda
    dev.rl.trk := rlda })

/-- The DMA transfer; returns any error status. -/
def rlTransfer (s : Cpu) (func : Word) : Word × Cpu :=
  let rl := s.dev.rl
  let ma := ((rl.rlcs &&& rlcsMex).setWidth 32 <<< 12) ||| rl.rlba.setWidth 32
  let da := (rlGetTrack rl.rlda * rlNumsc + rlGetSect rl.rlda) * rlNumwd
  let wc := wordCount rl.rlmp
  -- a transfer may not cross a track boundary
  let maxwc := (rlNumsc - rlGetSect rl.rlda) * rlNumwd
  let wc := if maxwc < wc then maxwc else wc
  let off := rl.diskWords < da + wc
  let wc := if off then (if da < rl.diskWords then rl.diskWords - da else 0) else wc
  let status : Word := if off then rlcsErr ||| rlcsIncmp else 0
  rlAdvance rl ma wc ((List.range (loopCount wc)).foldl (rlTransferWord func ma da) (s, status))

/-- The cylinder a SEEK from `trk` reaches, clamped to the drive. -/
def rlSeekCyl (rl : Rl11) : BitVec 32 :=
  let curr := rlGetCyl rl.trk
  let offs := rlGetCyl rl.rlda
  let maxc := if rlIsRl02 rl then rlNumcy * 2 else rlNumcy
  let newc := if rl.rlda &&& rldaSkDir ≠ 0 then curr + offs else curr - offs
  let newc := if maxc.toInt ≤ newc.toInt then maxc - 1 else newc
  if newc.toInt < 0 then 0 else newc

/-- The drive-status word GET STATUS reports for a ready drive. -/
def rlStatus (rl : Rl11) : Word :=
  let ds := rldsLock ||| rldsBho ||| rldsHdo ||| (rl.trk &&& rldsHd)
  if rlIsRl02 rl then ds ||| rldsRl02 else ds

/-- Hold the completion of a transfer, with its error status already in RLCS. -/
def rlStart (out : Word × Cpu) : Cpu :=
  let s := out.2
  let wc := wordCount s.dev.rl.rlmp
  { s with
    dev.rl.busy := true
    dev.rl.doneNs := s.acct.timeNs + rlBaseNs +
      ((if 0 < wc.toInt then wc else 0) * rlWordNs).setWidth 64
    dev.rl.rlcs := s.dev.rl.rlcs ||| (out.1 &&& ~~~rlcsDone) }

/-- Decode and start a command. -/
def rlGo (s : Cpu) : Cpu :=
  let func := (s.dev.rl.rlcs &&& rlcsFunc) >>> 1
  let s := { s with dev.rl.rlcs := s.dev.rl.rlcs &&& ~~~rlcsDone }
  let s := clrInt s .rl
  if s.dev.rl.disk.isNone then rlFinish s (rlcsIncmp ||| rlcsDre)
  else if func = rlFuncNop then rlFinish s 0
  else if func = rlFuncGsta then
    if s.dev.rl.rlda &&& rldaGs = 0 then rlFinish s rlcsIncmp
    else rlFinish { s with dev.rl.rlmp := rlStatus s.dev.rl } 0
  else if func = rlFuncSeek then
    { s with
      dev.rl.trk := (rlSeekCyl s.dev.rl <<< 7).setWidth 16 |||
        (if s.dev.rl.rlda &&& rldaSkHd ≠ 0 then rldaHd1 else 0)
      dev.rl.busy := true
      dev.rl.doneNs := s.acct.timeNs + rlBaseNs }
  else if func = rlFuncRhdr then
    { s with
      dev.rl.rlmp := s.dev.rl.trk
      dev.rl.busy := true
      dev.rl.doneNs := s.acct.timeNs + rlBaseNs }
  else
    -- READ, RNOHDR, WRITE and WCHK are all that is left of a 3-bit function
    rlStart (rlTransfer s func)

def rlRead (s : Cpu) (addr : Word) : Word × Cpu :=
  if addr = 0o174400 then
    -- DRDY and the error summary are refreshed on the read
    let rlcs := if s.dev.rl.disk.isSome ∧ !s.dev.rl.busy then s.dev.rl.rlcs ||| rlcsDrdy
      else s.dev.rl.rlcs &&& ~~~rlcsDrdy
    let rlcs := if rlcs &&& (rlcsDre ||| rlcsNxm ||| rlcsDlt ||| rlcsCrc ||| rlcsIncmp) ≠ 0 then
        rlcs ||| rlcsErr
      else rlcs
    (rlcs, { s with dev.rl.rlcs := rlcs })
  else if addr = 0o174402 then (s.dev.rl.rlba, s)
  else if addr = 0o174404 then (s.dev.rl.rlda, s)
  else if addr = 0o174406 then (s.dev.rl.rlmp, s)
  else (0, s)

def rlWriteRlcs (s : Cpu) (value : Word) : Cpu :=
  let rlcs := (s.dev.rl.rlcs &&& ~~~rlcsRw) ||| (value &&& rlcsRw)
  let s := { s with
    dev.rl.rlcs := rlcs
    dev.rl.rlbae := (s.dev.rl.rlbae &&& ~~~(3 : Word)) ||| ((rlcs >>> 4) &&& 3) }
  -- a write with DONE set is not a command: it only re-evaluates the interrupt
  if value &&& rlcsDone ≠ 0 then
    if value &&& rlcsIe = 0 then clrInt s .rl
    else if rlcs &&& rlcsDone ≠ 0 then setInt s .rl
    else s
  else
    let s := clrInt s .rl
    rlGo { s with dev.rl.rlcs := s.dev.rl.rlcs &&& ~~~rlcsAllerr }

def rlWrite (s : Cpu) (addr value : Word) : Cpu :=
  if addr = 0o174400 then rlWriteRlcs s value
  else if addr = 0o174402 then { s with dev.rl.rlba := value &&& 0o177776 }
  else if addr = 0o174404 then { s with dev.rl.rlda := value }
  else if addr = 0o174406 then { s with dev.rl.rlmp := value }
  else s

def rlAttach (s : Cpu) (disk : DiskImage) (words : BitVec 32) : Cpu :=
  { s with
    dev.rl.disk := disk
    dev.rl.diskWords := words }

def rlPoll (s : Cpu) : Cpu :=
  if s.dev.rl.busy ∧ s.dev.rl.doneNs ≤ s.acct.timeNs then rlFinish s 0 else s

end Pdp11
