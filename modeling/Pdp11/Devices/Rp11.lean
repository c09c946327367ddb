import Pdp11.Devices.Rk11

namespace Pdp11

abbrev cs1Go : Word := 0o000001
abbrev cs1Ie : Word := 0o000100
abbrev cs1Done : Word := 0o000200
abbrev cs1Dva : Word := 0o004000
abbrev cs1Rw : Word := 0o000076

abbrev rpFncDclr : Word := 0o04
abbrev rpFncPreset : Word := 0o10
abbrev rpFncPack : Word := 0o11
abbrev rpFncSearch : Word := 0o14
abbrev rpFncWchk : Word := 0o24
abbrev rpFncWrite : Word := 0o30
abbrev rpFncRead : Word := 0o34

abbrev cs2Uai : Word := 0o000010
abbrev cs2Clr : Word := 0o000040

abbrev dsVv : Word := 0o000100
abbrev dsRdy : Word := 0o000200
abbrev dsDpr : Word := 0o000400
abbrev dsMol : Word := 0o010000
abbrev dsAta : Word := 0o100000

abbrev rp04Dt : Word := 0o020020

abbrev rpCsr : Word := 0o176700
abbrev rpEnd : Word := 0o176752
abbrev rpNumwd : BitVec 32 := 256
abbrev rpSect : BitVec 32 := 22
abbrev rpSurf : BitVec 32 := 19

abbrev rpBaseNs : Time := 2000000
abbrev rpWordNs : BitVec 32 := 100

def rpGetFnc (c : Word) : Word := (c >>> 1) &&& 0o37
def rpGetSc (x : Word) : BitVec 32 := (x &&& 0o77).setWidth 32
def rpGetSf (x : Word) : BitVec 32 := ((x >>> 8) &&& 0o77).setWidth 32
def rpGetCy (x : Word) : BitVec 32 := (x &&& 0o1777).setWidth 32

/-- A Massbus register: of the RH70 itself, or (`ext`) of the drive. -/
inductive RpReg
  | rh (n : ℕ)
  | ext (n : ℕ)
  deriving DecidableEq, Repr

/-- I/O word offset from the window base to the register it selects. -/
def rpMapofs : List RpReg :=
  [.rh 0, .rh 1, .rh 2, .ext 5, .rh 3, .ext 1, .ext 2, .ext 4, .ext 7, .rh 4, .ext 3, .ext 6,
    .ext 8, .ext 9, .ext 10, .ext 11, .ext 12, .ext 13, .ext 14, .ext 15, .ext 16, .ext 17,
    .ext 18, .ext 19, .ext 20, .ext 21, .ext 22, .ext 23, .ext 24, .ext 25, .ext 26, .ext 27]

def rpFinish (s : Cpu) : Cpu :=
  let s := { s with
    dev.rp.busy := false
    dev.rp.cs1 := s.dev.rp.cs1 ||| cs1Done
    dev.rp.ds := s.dev.rp.ds ||| dsAta }
  if s.dev.rp.cs1 &&& cs1Ie ≠ 0 then setInt s .rp else clrInt s .rp

/-- The drive-status word: present, and online and ready when idle with a disk attached. -/
def rpDriveStatus (rp : Rp11) : Word :=
  let ds := rp.ds ||| dsDpr
  if rp.disk.isSome then
    let ds := ds ||| dsMol
    if !rp.busy then ds ||| dsRdy else ds
  else ds

/-- One word of a transfer; `ma` is the running memory address. -/
def rpTransferWord (func : Word) (da : BitVec 32) (sm : Cpu × BitVec 32) (i : ℕ) :
    Cpu × BitVec 32 :=
  let s := sm.1
  let mem := sm.2 &&& 0o3777777
  let idx := da + BitVec.ofNat 32 i
  let s := if func = rpFncRead then
      { s with mem := memWriteWord s.mem mem (s.dev.rp.disk.read idx) }
    else if func = rpFncWrite then
      { s with dev.rp.disk := s.dev.rp.disk.write idx (memReadWord s.mem mem) }
    else s
  (s, if s.dev.rp.cs2 &&& cs2Uai = 0 then sm.2 + 2 else sm.2)

def rpTransfer (s : Cpu) (func : Word) : Cpu :=
  let rp := s.dev.rp
  let ma := ((rp.bae.setWidth 32 &&& 0o77) <<< 16) ||| rp.ba.setWidth 32
  let da := ((rpGetCy rp.dc * rpSurf + rpGetSf rp.da) * rpSect + rpGetSc rp.da) * rpNumwd
  let wc := wordCount rp.wc
  let wc := if rp.diskWords ≤ da then 0
    else if rp.diskWords < da + wc then rp.diskWords - da
    else wc
  let (s, ma) := (List.range (loopCount wc)).foldl (rpTransferWord func da) (s, ma)
  -- advance the disk address by the sectors transferred
  let blk := da / rpNumwd + (wc + rpNumwd - 1) / rpNumwd
  let sc := blk % rpSect
  let sf := blk / rpSect % rpSurf
  let cy := blk / rpSect / rpSurf
  { s with
    dev.rp.wc := s.dev.rp.wc + wc.setWidth 16
    dev.rp.ba := ma.setWidth 16
    dev.rp.bae := (ma >>> 16).setWidth 16 &&& 0o77
    dev.rp.da := ((sf <<< 8) ||| sc).setWidth 16
    dev.rp.dc := cy.setWidth 16
    dev.rp.cc := cy.setWidth 16 }

def rpGo (s : Cpu) : Cpu :=
  let func := rpGetFnc s.dev.rp.cs1
  let s := { s with dev.rp.cs1 := s.dev.rp.cs1 &&& ~~~cs1Done }
  let s := clrInt s .rp
  if func = rpFncDclr then
    rpFinish { s with
      dev.rp.er1 := 0
      dev.rp.ds := s.dev.rp.ds &&& ~~~dsAta }
  else if func = rpFncPreset ∨ func = rpFncPack then
    rpFinish { s with dev.rp.ds := s.dev.rp.ds ||| dsVv }
  else if func = rpFncSearch then
    { s with
      dev.rp.cc := s.dev.rp.dc
      dev.rp.busy := true
      dev.rp.doneNs := s.acct.timeNs + rpBaseNs }
  else if func = rpFncRead ∨ func = rpFncWrite ∨ func = rpFncWchk then
    let wc := wordCount s.dev.rp.wc
    let s := if func ≠ rpFncWchk then rpTransfer s func else s
    { s with
      dev.rp.busy := true
      dev.rp.doneNs := s.acct.timeNs + rpBaseNs +
        ((if 0 < wc.toInt then wc else 0) * rpWordNs).setWidth 64 }
  else rpFinish s

def rpPoll (s : Cpu) : Cpu :=
  if s.dev.rp.busy ∧ s.dev.rp.doneNs ≤ s.acct.timeNs then rpFinish s else s

def rpAttach (s : Cpu) (disk : DiskImage) (words : BitVec 32) : Cpu :=
  { s with
    dev.rp.disk := disk
    dev.rp.diskWords := words }

/-- The register an I/O address selects, or none outside the window. -/
def rpRegSel (addr : Word) : Option RpReg :=
  if addr < rpCsr ∨ rpEnd < addr then none else rpMapofs[((addr - rpCsr) >>> 1).toNat]?

def rpRead (s : Cpu) (addr : Word) : Word :=
  let rp := s.dev.rp
  if addr = 0o176750 then rp.bae &&& 0o77
  else if addr = 0o176752 then 0
  else
    match rpRegSel addr with
    | some (.ext 1) => rpDriveStatus rp
    | some (.ext 2) => rp.er1
    | some (.ext 5) => rp.da
    | some (.ext 6) => rp04Dt
    | some (.ext 10) => rp.dc
    | some (.ext 11) => rp.cc
    | some (.rh 0) => rp.cs1 ||| cs1Dva
    | some (.rh 1) => rp.wc
    | some (.rh 2) => rp.ba
    | some (.rh 3) => rp.cs2
    | some (.rh 5) => rp.bae
    | _ => 0

/-- A write to CS1: the interrupt enable, the function, and GO. -/
def rpWriteCs1 (s : Cpu) (value : Word) : Cpu :=
  let s := if value &&& cs1Ie = 0 then clrInt s .rp
    else if s.dev.rp.cs1 &&& (cs1Done ||| cs1Ie) = cs1Done then setInt s .rp
    else s
  let s := { s with
    dev.rp.cs1 := (s.dev.rp.cs1 &&& ~~~(cs1Rw ||| cs1Ie)) ||| (value &&& (cs1Rw ||| cs1Ie)) }
  if s.dev.rp.cs1 &&& cs1Done ≠ 0 ∧ value &&& cs1Go ≠ 0 then rpGo s else s

/-- A write to CS2, where CLR clears the controller. -/
def rpWriteCs2 (s : Cpu) (value : Word) : Cpu :=
  let s := if value &&& cs2Clr ≠ 0 then
      clrInt { s with
        dev.rp.cs1 := cs1Done
        dev.rp.er1 := 0
        dev.rp.busy := false } .rp
    else s
  { s with dev.rp.cs2 := value }

def rpWrite (s : Cpu) (addr value : Word) : Cpu :=
  if addr = 0o176750 then { s with dev.rp.bae := value &&& 0o77 }
  else if addr = 0o176752 then s
  else
    match rpRegSel addr with
    | some (.ext 5) => { s with dev.rp.da := value &&& ~~~0o140300 }
    | some (.ext 10) => { s with dev.rp.dc := value &&& ~~~0o176000 }
    | some (.rh 0) => rpWriteCs1 s value
    | some (.rh 1) => { s with dev.rp.wc := value }
    | some (.rh 2) => { s with dev.rp.ba := value }
    | some (.rh 3) => rpWriteCs2 s value
    | some (.rh 5) => { s with dev.rp.bae := value &&& 0o77 }
    | _ => s

end Pdp11
