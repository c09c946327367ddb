import Pdp11.Frontend.Panel
import Pdp11.Frontend.Terminal
import Pdp11.Lib.RingQueue

namespace Pdp11

open RingQueue

/-! The main loop of the interactive frontend. -/

abbrev SdlKeycode := BitVec 32

abbrev sdlkReturn : SdlKeycode := 0x0000000d
abbrev sdlkKpEnter : SdlKeycode := 0x40000058
abbrev sdlkBackspace : SdlKeycode := 0x00000008
abbrev sdlkDelete : SdlKeycode := 0x0000007f
abbrev sdlkTab : SdlKeycode := 0x00000009
abbrev sdlkEscape : SdlKeycode := 0x0000001b

/-- The byte the DL11 should receive for a key, or none. -/
def keyToByte (key : SdlKeycode) : Option Byte :=
  if key = sdlkReturn ∨ key = sdlkKpEnter then some 0o15
  else if key = sdlkBackspace then some chErase -- the erase character of V6
  else if key = sdlkDelete then some 0o177
  else if key = sdlkTab then some 0o11
  else if key = sdlkEscape then some 0o33
  else none

/-- What the host reports; a click comes as the part of the panel it hits, if any. -/
inductive SdlEvent
  | quit
  | keyDown (ctrl : Bool) (key : SdlKeycode)
  | textInput (text : List Byte)
  | mouseDown (op : Option PanelOp)
  deriving Repr

/-- The bytes of a C string: those before its first NUL. -/
def cBytes (s : List Byte) : List Byte := s.takeWhile (· ≠ 0)

/-- The bytes an event queues for the receiver. -/
def typedBytes : SdlEvent → List Byte
  | .keyDown ctrl key =>
    -- Ctrl and a letter make a control code
    if ctrl ∧ 0x61 ≤ key ∧ key ≤ 0x7a then [(key - 0x61 + 1).setWidth 8]
    else (keyToByte key).toList
  | .textInput text => cBytes text
  | _ => []

/-- Typed bytes wait in `kbd` until the receiver is ready for them. -/
structure Session where
  cpu : Cpu
  term : VtTerm
  panel : PanelState
  kbd : Ring Byte 256
  running : Bool

/-- The bytes the console sent between two states. -/
def newBytes (before after : Cpu) : List Byte :=
  (after.dev.consoleOut.getD []).drop (before.dev.consoleOut.getD []).length

/-- The terminal is the sink of the console. -/
def sessionCpu (s : Session) (cpu : Cpu) : Session :=
  { s with
    term := (newBytes s.cpu cpu).foldl vtSink s.term
    cpu := cpu }

def sessionEvent (s : Session) (e : SdlEvent) : Session :=
  let s := { s with kbd := s.kbd.pushAll (typedBytes e) }
  match e with
  | .quit => { s with running := false }
  | .mouseDown (some op) =>
    { sessionCpu s (panelClick op s.cpu s.panel).1 with panel := (panelClick op s.cpu s.panel).2 }
  | _ => s

/-- A keystroke is due when one waits and the program has read the one before. -/
def keyDue (s : Session) : Bool := !s.kbd.isEmpty ∧ s.cpu.dev.ttiCsr &&& dl11Done = 0

/-- V6 will echo an erase character: arm the interception. -/
def armEcho (t : VtTerm) (b : Byte) : VtTerm :=
  if b = chErase then { t with erasePending := t.erasePending + 1 } else t

/-- Hand the next queued keystroke to the DL11. -/
def feedKey (s : Session) : Session :=
  if keyDue s then
    { s with
      term := armEcho s.term s.kbd.front
      cpu := consoleInput s.cpu s.kbd.front
      kbd := s.kbd.pop }
  else s

/-- One pass of the inner loop. -/
def sessionStep (s : Session) : Session :=
  let s := feedKey s
  sessionCpu s (cpuStep s.cpu).cpu

/-- Up to `ips` passes, while the processor runs. -/
def sessionSteps (s : Session) : ℕ → Session
  | 0 => s
  | ips + 1 => if s.cpu.ctl.halted then s else sessionSteps (sessionStep s) ips

/-- One frame: the pending events, then the processor. -/
def sessionFrame (ips : ℕ) (s : Session) (evs : List SdlEvent) : Session :=
  sessionSteps (evs.foldl sessionEvent s) ips

/-- Frames until the window is closed. -/
def sessionRun (ips : ℕ) (s : Session) : List (List SdlEvent) → Session
  | [] => s
  | evs :: frames => if s.running then sessionRun ips (sessionFrame ips s evs) frames else s

end Pdp11
