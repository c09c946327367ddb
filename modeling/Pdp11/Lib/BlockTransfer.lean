import Mathlib.Algebra.Group.Nat.Defs
import Mathlib.Logic.Function.Basic
import Mathlib.Logic.Nontrivial.Defs
import Mathlib.Data.List.Basic

/-! Words exchanged one by one between a memory and a disk. -/

/-- Which of the two stores receives the words. -/
inductive TransferDirection
  | toMemory | toDisk
  deriving DecidableEq

/-- A memory and a disk, each under its own addresses. -/
@[ext]
structure Stores (κ ι β : Type) where
  mem : κ → β
  disk : ι → β

namespace Stores

variable {κ ι β : Type} [DecidableEq κ] [DecidableEq ι]

/-- The word at `b` of the disk goes to `a` of the memory, or the other way round. -/
def exchangeWord (dir : TransferDirection) (a : κ) (b : ι) (st : Stores κ ι β) : Stores κ ι β :=
  match dir with
  | .toMemory => { st with mem := Function.update st.mem a (st.disk b) }
  | .toDisk => { st with disk := Function.update st.disk b (st.mem a) }

/-- `n` words exchanged in order, the `i`-th between `addr i` and `blk i`. -/
def exchange (dir : TransferDirection) (addr : ℕ → κ) (blk : ℕ → ι) (n : ℕ) (st : Stores κ ι β) :
    Stores κ ι β :=
  (List.range n).foldl (fun st i => exchangeWord dir (addr i) (blk i) st) st

variable {dir : TransferDirection} {addr addr' : ℕ → κ} {blk blk' : ℕ → ι} {n : ℕ}
  {st : Stores κ ι β}

@[simp] theorem exchange_zero : exchange dir addr blk 0 st = st := rfl

theorem exchange_succ : exchange dir addr blk (n + 1) st =
    exchangeWord dir (addr n) (blk n) (exchange dir addr blk n st) := by
  simp [exchange, List.range_succ]

/-- A transfer cut in two. -/
theorem exchange_add (m : ℕ) : exchange dir addr blk (m + n) st =
    exchange dir (fun i => addr (m + i)) (fun i => blk (m + i)) n (exchange dir addr blk m st) := by
  induction n with
  | zero => rfl
  | succ n ih => rw [← Nat.add_assoc, exchange_succ, ih, exchange_succ]

theorem exchange_congr (haddr : ∀ i < n, addr i = addr' i) (hblk : ∀ i < n, blk i = blk' i) :
    exchange dir addr blk n st = exchange dir addr' blk' n st := by
  induction n with
  | zero => rfl
  | succ n ih =>
    rw [exchange_succ, exchange_succ, haddr n (Nat.lt_succ_self n), hblk n (Nat.lt_succ_self n),
      ih (fun i hi => haddr i (Nat.lt_succ_of_lt hi)) (fun i hi => hblk i (Nat.lt_succ_of_lt hi))]

/-- A transfer taken up where another stopped. -/
theorem exchange_chain {m : ℕ} (haddr : ∀ i < n, addr' i = addr (m + i))
    (hblk : ∀ i < n, blk' i = blk (m + i)) :
    exchange dir addr' blk' n (exchange dir addr blk m st) = exchange dir addr blk (m + n) st := by
  rw [exchange_add]
  exact exchange_congr haddr hblk

/-- A loop whose step exchanges a word in a state that holds the stores, and keeps the rest of the
state at its own pace, exchanges them all. -/
theorem foldl_exchange {σ : Type} (dir : TransferDirection) (addr : ℕ → κ) (blk : ℕ → ι) (n : ℕ)
    (st : Stores κ ι β) (hold : ℕ → Stores κ ι β → σ) (step : σ → ℕ → σ)
    (hstep : ∀ st i, step (hold i st) i = hold (i + 1) (exchangeWord dir (addr i) (blk i) st)) :
    (List.range n).foldl step (hold 0 st) = hold n (exchange dir addr blk n st) := by
  induction n with
  | zero => rfl
  | succ n ih => simp [List.range_succ, ih, hstep, exchange_succ]

/-! ## A transfer to the memory -/

@[simp] theorem toMemory_disk : (exchange .toMemory addr blk n st).disk = st.disk := by
  induction n with
  | zero => rfl
  | succ n ih => rw [exchange_succ]; exact ih

theorem toMemory_succ : (exchange .toMemory addr blk (n + 1) st).mem =
    Function.update (exchange .toMemory addr blk n st).mem (addr n) (st.disk (blk n)) := by
  rw [exchange_succ]
  simp [exchangeWord]

/-- The other cells of the memory keep their words. -/
theorem toMemory_kept {a : κ} (ha : ∀ i < n, addr i ≠ a) :
    (exchange .toMemory addr blk n st).mem a = st.mem a := by
  induction n with
  | zero => rfl
  | succ n ih =>
    rw [toMemory_succ, Function.update_of_ne (ha n (Nat.lt_succ_self n)).symm]
    exact ih fun i hi => ha i (Nat.lt_succ_of_lt hi)

/-- A cell holds the last word that went to it. -/
theorem toMemory_last {i : ℕ} (hi : i < n) (hlast : ∀ j < n, i < j → addr j ≠ addr i) :
    (exchange .toMemory addr blk n st).mem (addr i) = st.disk (blk i) := by
  induction n with
  | zero => omega
  | succ n ih =>
    rw [toMemory_succ]
    by_cases hin : i = n
    · rw [hin, Function.update_self]
    · have hlt : i < n := by omega
      rw [Function.update_of_ne (hlast n (Nat.lt_succ_self n) hlt).symm]
      exact ih hlt fun j hj => hlast j (Nat.lt_succ_of_lt hj)

/-- With one address for all words the last one stays. -/
theorem toMemory_fixed (a : κ) (hn : 0 < n) : (exchange .toMemory (fun _ => a) blk n st).mem =
    Function.update st.mem a (st.disk (blk (n - 1))) := by
  funext x
  by_cases hx : x = a
  · rw [hx, Function.update_self]
    exact toMemory_last (i := n - 1) (by omega) fun j _ _ => by omega
  · rw [Function.update_of_ne hx]
    exact toMemory_kept fun i _ => Ne.symm hx

/-! ## A transfer to the disk -/

@[simp] theorem toDisk_mem : (exchange .toDisk addr blk n st).mem = st.mem := by
  induction n with
  | zero => rfl
  | succ n ih => rw [exchange_succ]; exact ih

theorem toDisk_succ : (exchange .toDisk addr blk (n + 1) st).disk =
    Function.update (exchange .toDisk addr blk n st).disk (blk n) (st.mem (addr n)) := by
  rw [exchange_succ]
  simp [exchangeWord]

/-- The other words of the disk stay. -/
theorem toDisk_kept {b : ι} (hb : ∀ i < n, blk i ≠ b) :
    (exchange .toDisk addr blk n st).disk b = st.disk b := by
  induction n with
  | zero => rfl
  | succ n ih =>
    rw [toDisk_succ, Function.update_of_ne (hb n (Nat.lt_succ_self n)).symm]
    exact ih fun i hi => hb i (Nat.lt_succ_of_lt hi)

theorem toDisk_word (hblk : ∀ i < n, ∀ j < n, blk i = blk j → i = j) {i : ℕ} (hi : i < n) :
    (exchange .toDisk addr blk n st).disk (blk i) = st.mem (addr i) := by
  induction n with
  | zero => omega
  | succ n ih =>
    rw [toDisk_succ]
    by_cases hin : i = n
    · rw [hin, Function.update_self]
    · have hne : blk i ≠ blk n := fun h => hin (hblk i hi n (Nat.lt_succ_self n) h)
      rw [Function.update_of_ne hne]
      exact ih (fun i hi j hj => hblk i (Nat.lt_succ_of_lt hi) j (Nat.lt_succ_of_lt hj)) (by omega)

/-! ## Addresses seen from the contents -/

section
variable [Nontrivial β]

/-- Whatever the stores hold, the words go to the disk from these addresses. -/
theorem toDisk_eq_iff (hblk : ∀ i < n, ∀ j < n, blk i = blk j → i = j) :
    (∀ st : Stores κ ι β, exchange .toDisk addr blk n st = exchange .toDisk addr' blk n st) ↔
      ∀ i < n, addr i = addr' i := by
  refine ⟨fun h i hi => ?_, fun h st => exchange_congr h fun _ _ => rfl⟩
  obtain ⟨x, y, hxy⟩ := exists_pair_ne β
  by_contra hne
  -- a memory that differs at the one address alone
  let st : Stores κ ι β := { mem := fun a => if a = addr i then x else y, disk := fun _ => x }
  have hword := congrFun (congrArg Stores.disk (h st)) (blk i)
  rw [toDisk_word hblk hi, toDisk_word hblk hi] at hword
  have hleft : st.mem (addr i) = x := if_pos rfl
  have hright : st.mem (addr' i) = y := if_neg (Ne.symm hne)
  exact hxy (hleft.symm.trans (hword.trans hright))

/-- Whatever the stores hold, the words go to these cells of the memory, each to its own. -/
theorem toMemory_eq_iff (hblk : ∀ i < n, ∀ j < n, blk i = blk j → i = j)
    (haddr : ∀ i < n, ∀ j < n, addr i = addr j → i = j)
    (haddr' : ∀ i < n, ∀ j < n, addr' i = addr' j → i = j) :
    (∀ st : Stores κ ι β, exchange .toMemory addr blk n st = exchange .toMemory addr' blk n st) ↔
      ∀ i < n, addr i = addr' i := by
  refine ⟨fun h i hi => ?_, fun h st => exchange_congr h fun _ _ => rfl⟩
  obtain ⟨x, y, hxy⟩ := exists_pair_ne β
  -- a disk that differs at the one word alone
  let st : Stores κ ι β := { mem := fun _ => y, disk := fun b => if b = blk i then x else y }
  have hcell := congrFun (congrArg Stores.mem (h st)) (addr i)
  have hleft : (exchange .toMemory addr blk n st).mem (addr i) = x := by
    rw [toMemory_last hi fun j hj hij heq => absurd (haddr j hj i hi heq) (by omega)]
    exact if_pos rfl
  rw [hleft] at hcell
  by_cases hj : ∃ j, j < n ∧ addr' j = addr i
  · obtain ⟨j, hj, heq⟩ := hj
    have hword : (exchange .toMemory addr' blk n st).mem (addr' j) = st.disk (blk j) :=
      toMemory_last hj fun l hl hjl hl' => absurd (haddr' l hl j hj hl') (by omega)
    by_cases hji : blk j = blk i
    · rw [← hblk j hj i hi hji]
      exact (heq.trans (congrArg addr (hblk j hj i hi hji).symm)).symm
    · have hy : st.disk (blk j) = y := if_neg hji
      rw [← heq, hword, hy] at hcell
      exact absurd hcell hxy
  · rw [toMemory_kept fun j hjn heq => hj ⟨j, hjn, heq⟩] at hcell
    exact absurd hcell hxy

/-- Whatever the stores hold, the words all go to one cell of the memory. -/
theorem toMemory_fixed_iff (a : κ) :
    (∀ st : Stores κ ι β, exchange .toMemory addr blk n st =
      exchange .toMemory (fun _ => a) blk n st) ↔ ∀ i < n, addr i = a := by
  refine ⟨fun h i hi => ?_, fun h st => exchange_congr h fun _ _ => rfl⟩
  obtain ⟨x, y, hxy⟩ := exists_pair_ne β
  by_contra hne
  let st : Stores κ ι β := { mem := fun _ => y, disk := fun _ => x }
  -- one of the words that go to the cell of the `i`-th is the last
  have hwritten : ∀ m, i < m → (exchange .toMemory addr blk m st).mem (addr i) = x := by
    intro m hm
    induction m with
    | zero => omega
    | succ m ih =>
      rw [toMemory_succ]
      by_cases him : addr i = addr m
      · rw [him, Function.update_self]
      · rw [Function.update_of_ne him]
        refine ih ?_
        have hneq : i ≠ m := fun h => him (congrArg addr h)
        omega
  have hcell := congrFun (congrArg Stores.mem (h st)) (addr i)
  rw [hwritten n hi, toMemory_kept fun _ _ => Ne.symm hne] at hcell
  exact hxy hcell

end

end Stores
