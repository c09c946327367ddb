import Pdp11.BusOps
import Pdp11.UnitEffects

namespace Pdp11

/-! The stores to the I/O page in a run of operations. -/

/-- The stores to the I/O page in an operation, oldest first. -/
def BusOp.stores (op : BusOp) (s : Cpu) : List (Word × Word) :=
  match op with
  | .step => writesOf (cpuStep s).events
  | .write a value => [(a, value)]
  | _ => []

def runOps (s : Cpu) : List BusOp → Cpu
  | [] => s
  | op :: ops => runOps (op.apply s) ops

/-- The stores to the I/O page in a run. -/
def runStores (s : Cpu) : List BusOp → List (Word × Word)
  | [] => []
  | op :: ops => op.stores s ++ runStores (op.apply s) ops

theorem writesOf_append (es fs : List Event) : writesOf (es ++ fs) = writesOf es ++ writesOf fs :=
  List.filterMap_append

/-- What each operation of a run keeps while its stores are harmless, the run keeps while its
stores are. -/
theorem runOps_keeps {I : Cpu → Prop} {ok : BusOp → Prop} {calm : Word × Word → Prop}
    (hop : ∀ op s, ok op → (∀ w ∈ op.stores s, calm w) → I s → I (op.apply s)) {ops : List BusOp}
    (hops : ∀ op ∈ ops, ok op) {s : Cpu} (hstores : ∀ w ∈ runStores s ops, calm w) (h : I s) :
    I (runOps s ops) := by
  induction ops generalizing s with
  | nil => exact h
  | cons op ops ih =>
    rw [List.forall_mem_cons] at hops
    have hop' := hop op s hops.1 (fun w hw => hstores w (List.mem_append_left _ hw)) h
    exact ih hops.2 (fun w hw => hstores w (List.mem_append_right _ hw)) hop'

end Pdp11
