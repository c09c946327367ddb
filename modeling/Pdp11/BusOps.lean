import Pdp11.Step
import Pdp11.Lib.GuardedRun

namespace Pdp11

open GuardedRun

/-! Everything that may happen to the machine, one operation at a time. -/

/-- A call of the step, or what a host, a program or the bus does between two calls. -/
inductive BusOp
  | step
  | reset
  | init
  | read (a : Word)
  | write (a value : Word)
  | tick
  | input (ch : Byte)
  | txPoll
  | rkPoll
  | rpPoll
  | tmPoll
  | rlPoll
  | acknowledge (d : IntId)
  | load (r : Field3 → Word) (mem : Mem)
  | setHalted (halted : Bool)
  | rkAttach (disk : DiskImage) (words : BitVec 32)
  | rpAttach (disk : DiskImage) (words : BitVec 32)
  | tmAttach (tape : ByteImage) (len : BitVec 32) (wrp : Bool)
  | rlAttach (disk : DiskImage) (words : BitVec 32)
  | rxAttach (disk : ByteImage) (bytes : BitVec 32)

/-- The machine after an operation; an address where no register answers changes nothing. -/
def BusOp.apply (op : BusOp) (s : Cpu) : Cpu :=
  match op with
  | .step => (cpuStep s).cpu
  | .reset => cpuReset s
  | .init => busInit s
  | .read a => ((ioReadReg s a).map Prod.snd).getD s
  | .write a value => (ioWriteReg s a value).getD s
  | .tick => clkTick s
  | .input ch => consoleInput s ch
  | .txPoll => consoleTxPoll s
  | .rkPoll => Pdp11.rkPoll s
  | .rpPoll => Pdp11.rpPoll s
  | .tmPoll => Pdp11.tmPoll s
  | .rlPoll => Pdp11.rlPoll s
  | .acknowledge d => Pdp11.acknowledge (.device d) s
  | .load r mem => { s with regs.r := r, mem := mem }
  | .setHalted halted => { s with ctl.halted := halted }
  | .rkAttach disk words => Pdp11.rkAttach s disk words
  | .rpAttach disk words => Pdp11.rpAttach s disk words
  | .tmAttach tape len wrp => Pdp11.tmAttach s tape len wrp
  | .rlAttach disk words => Pdp11.rlAttach s disk words
  | .rxAttach disk bytes => Pdp11.rxAttach s disk bytes

/-- A run of operations that each meet a guard. -/
abbrev BusRun (ok : BusOp → Cpu → Prop) : Cpu → Cpu → Prop := Run BusOp.apply ok

theorem BusRun.start (ok : BusOp → Cpu → Prop) (s : Cpu) : BusRun ok s s := Run.refl s

theorem BusRun.next {ok : BusOp → Cpu → Prop} {s t : Cpu} (h : BusRun ok s t) (op : BusOp)
    (hop : ok op t) : BusRun ok s (op.apply t) := Run.snoc op h hop

/-- The states of a model's machine, from its creation on. -/
def Reached (model : Model) (s : Cpu) : Prop := BusRun (fun _ _ => True) (cpuCreateModel model) s

theorem Reached.create (model : Model) : Reached model (cpuCreateModel model) := Run.refl _

theorem Reached.next {model : Model} {s : Cpu} (op : BusOp) (h : Reached model s) :
    Reached model (op.apply s) := Run.snoc op h trivial

/-- What holds at creation and is kept by every operation holds of every state reached. -/
theorem Reached.invariant {model : Model} {s : Cpu} {I : Cpu → Prop}
    (hcreate : I (cpuCreateModel model)) (hop : ∀ (op : BusOp) s, I s → I (op.apply s))
    (h : Reached model s) : I s :=
  Run.invariant (fun op s _ => hop op s) h hcreate

end Pdp11
