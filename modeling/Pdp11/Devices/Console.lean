import Pdp11.State

namespace Pdp11

/-! ## KW11-L line clock -/

abbrev kw11lIe : Word := 0o100
abbrev kw11lDone : Word := 0o200

def clkRead (s : Cpu) : Word := s.dev.clkCsr &&& (kw11lDone ||| kw11lIe)

def clkWrite (s : Cpu) (value : Word) : Cpu :=
  let csr := (s.dev.clkCsr &&& ~~~kw11lIe) ||| (value &&& kw11lIe)
  let csr := if value &&& kw11lDone = 0 then csr &&& ~~~kw11lDone else csr
  let s := { s with dev.clkCsr := csr }
  -- the line is asserted only while DONE and IE are both set
  if csr &&& (kw11lIe ||| kw11lDone) = kw11lIe ||| kw11lDone then setInt s .clk else clrInt s .clk

/-- One line-frequency tick. -/
def clkTick (s : Cpu) : Cpu :=
  let s := { s with dev.clkCsr := s.dev.clkCsr ||| kw11lDone }
  if s.dev.clkCsr &&& kw11lIe ≠ 0 then setInt s .clk else s

/-! ## DL11 console -/

abbrev dl11Rcsr : Word := 0o177560
abbrev dl11Rbuf : Word := 0o177562
abbrev dl11Xcsr : Word := 0o177564
abbrev dl11Xbuf : Word := 0o177566
abbrev dl11Ie : Word := 0o100
abbrev dl11Done : Word := 0o200

/-- One character time. -/
abbrev dl11TxNs : Time := 1000000

/-- Deliver one received character. -/
def consoleInput (s : Cpu) (ch : Byte) : Cpu :=
  let s := { s with
    dev.ttiBuf := ch.setWidth 16
    dev.ttiCsr := s.dev.ttiCsr ||| dl11Done }
  if s.dev.ttiCsr &&& dl11Ie ≠ 0 then setInt s .tti else s

def consoleTxPoll (s : Cpu) : Cpu :=
  if s.dev.ttoBusy ∧ s.dev.ttoDoneNs ≤ s.acct.timeNs then
    let s := { s with
      dev.ttoBusy := false
      dev.ttoCsr := s.dev.ttoCsr ||| dl11Done }
    if s.dev.ttoCsr &&& dl11Ie ≠ 0 then setInt s .tto else s
  else s

def consoleRead (s : Cpu) (addr : Word) : Word × Cpu :=
  if addr = dl11Rcsr then
    (s.dev.ttiCsr &&& (dl11Done ||| dl11Ie), s)
  else if addr = dl11Rbuf then
    -- reading the buffer clears receiver DONE and its interrupt
    (s.dev.ttiBuf &&& 0o377,
      clrInt { s with dev.ttiCsr := s.dev.ttiCsr &&& ~~~dl11Done } .tti)
  else if addr = dl11Xcsr then
    (s.dev.ttoCsr &&& (dl11Done ||| dl11Ie), s)
  else if addr = dl11Xbuf then
    (s.dev.ttoBuf &&& 0o377, s)
  else (0, s)

/-- A write to a DL11 status register `csr`: only IE is writable, and enabling it while DONE
is already set raises the interrupt. -/
def dl11CsrInt (s : Cpu) (csr value : Word) (dev : IntId) : Cpu :=
  if value &&& dl11Ie = 0 then clrInt s dev
  else if csr &&& (dl11Done ||| dl11Ie) = dl11Done then setInt s dev
  else s

def consoleWrite (s : Cpu) (addr value : Word) : Cpu :=
  if addr = dl11Rcsr then
    let s := dl11CsrInt s s.dev.ttiCsr value .tti
    { s with dev.ttiCsr := (s.dev.ttiCsr &&& ~~~dl11Ie) ||| (value &&& dl11Ie) }
  else if addr = dl11Xcsr then
    let s := dl11CsrInt s s.dev.ttoCsr value .tto
    { s with dev.ttoCsr := (s.dev.ttoCsr &&& ~~~dl11Ie) ||| (value &&& dl11Ie) }
  else if addr = dl11Xbuf then
    let s := { s with
      dev.ttoBuf := value &&& 0o377
      dev.consoleOut := s.dev.consoleOut.map (· ++ [value.setWidth 8])
      dev.ttoCsr := s.dev.ttoCsr &&& ~~~dl11Done }
    let s := clrInt s .tto
    { s with
      dev.ttoBusy := true
      dev.ttoDoneNs := s.acct.timeNs + dl11TxNs }
  else s

end Pdp11
