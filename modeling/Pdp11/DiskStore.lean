import Pdp11.DiskAddresses
import Pdp11.Media

section

open Stores

namespace Pdp11

open DiskId

/-! A disk gives back what was written to it, whatever the machine does in between. -/

/-- The drive of a disk controller. -/
def DiskId.drive : DiskId → Drive
  | rk => .rk
  | rl => .rl
  | rp => .rp

section
variable {c : DiskId} {s t : Cpu}

theorem loopCount_le (wc : BitVec 32) : loopCount wc ≤ 2 ^ 32 := by
  unfold loopCount
  have hlt := BitVec.toInt_lt (x := wc)
  omega

/-! ## One transfer -/

/-- What a WRITE leaves on the disk. -/
theorem write_word (h : c.Transfers .toDisk s) {i : ℕ} (hi : i < loopCount (c.trimmed s)) :
    (c.stores (c.go s)).disk (c.block s i) = s.mem (c.physical s i) := by
  rw [go_stores h]
  exact toDisk_word (block_inj (loopCount_le _)) hi

theorem write_kept (h : c.Transfers .toDisk s) {b : BitVec 32}
    (hb : ∀ i < loopCount (c.trimmed s), c.block s i ≠ b) :
    (c.stores (c.go s)).disk b = (c.stores s).disk b := by
  rw [go_stores h]
  exact toDisk_kept hb

/-- What a READ leaves in memory, where no later word of it goes to the same place. -/
theorem read_word (h : c.Transfers .toMemory s) {j : ℕ} (hj : j < loopCount (c.trimmed s))
    (hlast : ∀ l < loopCount (c.trimmed s), j < l → c.physical s l ≠ c.physical s j) :
    (c.go s).mem (c.physical s j) = (c.stores s).disk (c.block s j) := by
  have hmem : (c.go s).mem = (c.exchanged .toMemory s).mem := congrArg Stores.mem (go_stores h)
  rw [hmem]
  exact toMemory_last hj hlast

/-! ## Between a write and a read -/

theorem stores_disk (h : c.drive.medium t = c.drive.medium s) :
    (c.stores t).disk = (c.stores s).disk := by
  cases c <;> exact congrArg (fun d : DiskImage => d.getD fun _ => 0) (Sum.inl.inj h)

theorem drive_safe (c : DiskId) (s : Cpu) : c.drive.Safe s := by
  cases c <;> exact .inr id

/-- A disk is written, the machine runs on without a further write command to its controller and
without another disk in the drive, and the disk is read: a word that was written comes back as it was
in memory at the write, and every other word as it was on the disk before. -/
theorem disk_reads_back (hwrite : c.Transfers .toDisk s) {ops : List BusOp}
    (hattach : ∀ op ∈ ops, ¬c.drive.Attaches op)
    (hstores : ∀ w ∈ runStores (c.go s) ops, ¬c.drive.Writes w) {u : Cpu}
    (hu : u = runOps (c.go s) ops) (hread : c.Transfers .toMemory u) {j : ℕ}
    (hj : j < loopCount (c.trimmed u))
    (hlast : ∀ l < loopCount (c.trimmed u), j < l → c.physical u l ≠ c.physical u j) :
    (∀ i < loopCount (c.trimmed s), c.block s i = c.block u j →
      (c.go u).mem (c.physical u j) = s.mem (c.physical s i)) ∧
    ((∀ i < loopCount (c.trimmed s), c.block s i ≠ c.block u j) →
      (c.go u).mem (c.physical u j) = (c.stores s).disk (c.block u j)) := by
  have hmedium := (medium_kept (drive_safe c (c.go s)) hattach (.inr hstores)).1
  rw [← hu] at hmedium
  have hword : (c.go u).mem (c.physical u j) = (c.stores (c.go s)).disk (c.block u j) := by
    rw [read_word hread hj hlast, stores_disk hmedium]
  rw [hword]
  refine ⟨fun i hi hblock => ?_, fun hother => write_kept hwrite hother⟩
  rw [← hblock]
  exact write_word hwrite hi

/-- An RK11 that has been asked to write two words. -/
def rkWriting : Cpu :=
  let s := rkAttach { cpuCreate with mem := fun a => a.setWidth 16 + 5 } (some fun _ => 0) 4096
  { s with
    dev.rk.rkcs := 0o2
    dev.rk.rkwc := 0o177776 }

/-- After a reset the words are read elsewhere. -/
def rkReadBack : List BusOp :=
  [.reset, .write 0o177406 0o177776, .write 0o177410 0o2000, .write 0o177404 0o4]

/-- The second word comes back. -/
theorem second_word_read_back :
    (rk.go (runOps (rk.go rkWriting) rkReadBack)).mem
      (rk.physical (runOps (rk.go rkWriting) rkReadBack) 1) = 6 := by
  have hattach : ∀ op ∈ rkReadBack, ¬rk.drive.Attaches op := by
    intro op hop
    simp only [rkReadBack, List.mem_cons, List.not_mem_nil, or_false] at hop
    rcases hop with rfl | rfl | rfl | rfl <;> exact id
  have hrun : runStores (rk.go rkWriting) rkReadBack =
      [(0o177406, 0o177776), (0o177410, 0o2000), (0o177404, 0o4)] := rfl
  have hstores : ∀ w ∈ runStores (rk.go rkWriting) rkReadBack, ¬rk.drive.Writes w := by
    rw [hrun]
    intro w hw
    simp only [List.mem_cons, List.not_mem_nil, or_false] at hw
    rcases hw with rfl | rfl | rfl <;> decide
  have htwo : loopCount (rk.trimmed (runOps (rk.go rkWriting) rkReadBack)) = 2 := by decide
  exact (disk_reads_back ⟨by decide, rfl, by decide⟩ hattach hstores rfl
    ⟨by decide, rfl, by decide⟩ (j := 1) (by decide) (fun l hl hjl => by omega)).1 1 (by decide)
    (by decide)

end

end Pdp11

end
