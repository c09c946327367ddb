import Pdp11.InterruptLines

namespace Pdp11

open InterruptLine

/-! The ready bit of the RL11 while a command is outstanding. -/

/-- A sequence of writes to the RL11, each an address and a value. -/
def rlWrites (s : Cpu) (ws : List (Word × Word)) : Cpu :=
  ws.foldl (fun s w => rlWrite s w.1 w.2) s

/-- A write of an RL11 register that starts no command: into RLCS it has the ready bit set. -/
def NoCommand (w : Word × Word) : Prop :=
  isRl11 w.1 = true ∧ (w.1 = 0o174400 → w.2 &&& rlcsDone ≠ 0)

/-- The controller is not ready and requests no interrupt. -/
def RlHeld (s : Cpu) : Prop := s.dev.rl.rlcs &&& rlcsDone = 0 ∧ requests s.dev .rl = false

theorem rlHeld_iff (s : Cpu) :
    RlHeld s ↔ (lines s .rl).done = false ∧ (lines s .rl).requested = false := by
  unfold RlHeld
  rw [done_clear]
  rfl

/-- A command that leaves a completion outstanding leaves the controller not ready. -/
theorem rlHeld_of_command {s : Cpu} {value : Word} (h : value &&& rlcsDone = 0)
    (hbusy : (rlWrite s 0o174400 value).dev.rl.busy = true) : RlHeld (rlWrite s 0o174400 value) := by
  obtain ⟨l, hl, ht⟩ := rlWriteRlcs_command (s := s) h
  have hline : lines (rlWrite s 0o174400 value) .rl = l := ht.own
  have hb : (lines (rlWrite s 0o174400 value) .rl).busy = true := hbusy
  rw [hline] at hb
  rw [rlHeld_iff, hline]
  cases hl with
  | complete => cases hb
  | begin => exact ⟨rfl, rfl⟩

/-- A write of RLCS with the ready bit set makes the controller ready, and the other registers
leave it as it is. -/
theorem rlHeld_write {s : Cpu} (hs : RlHeld s) {w : Word × Word} (hw : NoCommand w) :
    RlHeld (rlWrite s w.1 w.2) ↔ w.1 ≠ 0o174400 := by
  by_cases h : w.1 = 0o174400
  · have hload := (rlWriteRlcs_load (s := s) (hw.2 h)).own
    have hrlcs : rlWrite s w.1 w.2 = rlWriteRlcs s w.2 := if_pos h
    refine iff_of_false (fun hheld => ?_) (not_not.2 h)
    have hdone := ((rlHeld_iff _).1 hheld).1
    rw [hrlcs, hload] at hdone
    cases hdone
  · refine iff_of_true ?_ h
    rw [rlHeld_iff, (rlWrite_quiet h _).moves, ← rlHeld_iff]
    exact hs

theorem rlHeld_writes {s : Cpu} (hs : RlHeld s) {ws : List (Word × Word)}
    (hws : ∀ w ∈ ws, NoCommand w) :
    (∀ n, RlHeld (rlWrites s (ws.take n))) ↔ ∀ w ∈ ws, w.1 ≠ 0o174400 := by
  induction ws generalizing s with
  | nil => simp [rlWrites, hs]
  | cons w ws ih =>
    have hw := hws w (List.mem_cons_self ..)
    have hrest : ∀ v ∈ ws, NoCommand v := fun v hv => hws v (List.mem_cons_of_mem w hv)
    have hstep := rlHeld_write hs hw
    rw [List.forall_mem_cons]
    constructor
    · intro h
      have h1 : RlHeld (rlWrite s w.1 w.2) := h 1
      exact ⟨hstep.1 h1, (ih h1 hrest).1 fun n => h (n + 1)⟩
    · rintro ⟨h1, h2⟩ n
      cases n with
      | zero => exact hs
      | succ n => exact (ih (hstep.2 h1) hrest).2 h2 n

/-- From a command that leaves a completion outstanding, over writes that start no command, the
controller stays not ready and requests no interrupt exactly when none of them is to RLCS. -/
theorem rl_readiness_iff {s : Cpu} {value : Word} {ws : List (Word × Word)}
    (hcommand : value &&& rlcsDone = 0)
    (hbusy : (rlWrite s 0o174400 value).dev.rl.busy = true) (hws : ∀ w ∈ ws, NoCommand w) :
    (∀ n, (rlWrites (rlWrite s 0o174400 value) (ws.take n)).dev.rl.rlcs &&& rlcsDone = 0 ∧
      requests (rlWrites (rlWrite s 0o174400 value) (ws.take n)).dev .rl = false) ↔
      ∀ w ∈ ws, w.1 ≠ 0o174400 :=
  rlHeld_writes (rlHeld_of_command hcommand hbusy) hws

/-- A machine with an empty RL01 pack. -/
def rlMachine : Cpu := rlAttach cpuCreate (some fun _ => 0) 0o12000000

/-- The header of a drive is asked for, and the interrupt enabled before it comes. -/
theorem rl_ready_early :
    ¬∀ (s : Cpu) (value : Word) (ws : List (Word × Word)), value &&& rlcsDone = 0 →
      (rlWrite s 0o174400 value).dev.rl.busy = true → (∀ w ∈ ws, NoCommand w) →
      ∀ n, (rlWrites (rlWrite s 0o174400 value) (ws.take n)).dev.rl.rlcs &&& rlcsDone = 0 ∧
        requests (rlWrites (rlWrite s 0o174400 value) (ws.take n)).dev .rl = false := by
  intro h
  have hws : ∀ w ∈ [((0o174400 : Word), (0o300 : Word))], NoCommand w := by
    intro w hw
    rw [List.mem_singleton.1 hw]
    exact ⟨by decide, fun _ => by decide⟩
  have hready := (h rlMachine 0o010 [(0o174400, 0o300)] (by decide) (by decide +kernel) hws 1).1
  exact absurd hready (by decide +kernel)

/-- With the bus address written meanwhile the controller waits. -/
theorem rl_held_over_address :
    (rlWrites (rlWrite rlMachine 0o174400 0o010) ([((0o174402 : Word), (0o1000 : Word))].take 1)).dev.rl.rlcs
      &&& rlcsDone = 0 := by
  have hws : ∀ w ∈ [((0o174402 : Word), (0o1000 : Word))], NoCommand w := by
    intro w hw
    rw [List.mem_singleton.1 hw]
    exact ⟨by decide, fun h => absurd h (by decide)⟩
  have hother : ∀ w ∈ [((0o174402 : Word), (0o1000 : Word))], w.1 ≠ 0o174400 := by
    intro w hw
    rw [List.mem_singleton.1 hw]
    decide
  exact ((rl_readiness_iff (by decide) (by decide +kernel) hws).2 hother 1).1

end Pdp11
