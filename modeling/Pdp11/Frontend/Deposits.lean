import Pdp11.Frontend.Dialog
import Pdp11.PlainInstructions
import Pdp11.TapeTransfer

namespace Pdp11

/-! Programs deposited in the memory, one word or one byte after the other. -/

theorem zipIdx_foldl {σ β : Type} (f : σ → β × ℕ → σ) (xs : List β) (d : β) (s : σ) :
    xs.zipIdx.foldl f s = (List.range xs.length).foldl (fun s i => f s (xs.getD i d, i)) s := by
  have hzip : xs.zipIdx = (List.range xs.length).map fun i => (xs.getD i d, i) := by
    apply List.ext_getElem
    · simp
    · intro i hi hi'
      have hlt : i < xs.length := by simpa using hi
      simp [hlt]
  rw [hzip, List.foldl_map]

theorem range_map_getD {β : Type} (xs : List β) (d : β) :
    (List.range xs.length).map (fun i => xs.getD i d) = xs := by
  apply List.ext_getElem
  · simp
  · intro i hi hi'
    simp [hi']

/-! ## Words -/

def romKey (addr : PhysAddr) (i : ℕ) : BitVec 21 := memIndex (addr + BitVec.ofNat 32 i * 2)

theorem romKey_toNat (addr : PhysAddr) (i : ℕ) (h : addr.toNat + 2 * i < 2 ^ 22) :
    (romKey addr i).toNat = addr.toNat / 2 + i := by
  have hi : (BitVec.ofNat 32 i * 2).toNat = 2 * i := by
    rw [BitVec.toNat_mul, BitVec.toNat_ofNat]
    show i % 2 ^ 32 * 2 % 2 ^ 32 = 2 * i
    omega
  rw [romKey, memIndex_toNat, BitVec.toNat_add, hi]
  omega

theorem depositRom_laid (mem : Mem) {addr : PhysAddr} {rom : List Word}
    (hfit : addr.toNat + 2 * rom.length ≤ 2 ^ 22) :
    (CellStore.ofFun (BitVec 21) Word).Laid (romKey addr) rom mem (depositRom mem addr rom) := by
  have hlaid : (CellStore.ofFun (BitVec 21) Word).Laid (romKey addr) _ mem _ :=
    .foldl rom.length (fun i => rom.getD i 0) (fun i j hi hj heq => by
      have hkey := congrArg BitVec.toNat heq
      rw [romKey_toNat addr i (by omega), romKey_toNat addr j (by omega)] at hkey
      omega) mem
  rw [range_map_getD] at hlaid
  unfold depositRom
  rw [zipIdx_foldl _ _ 0]
  exact hlaid

theorem depositRom_word (mem : Mem) {addr : PhysAddr} {rom : List Word}
    (hfit : addr.toNat + 2 * rom.length ≤ 2 ^ 22) {i : ℕ} (hi : i < rom.length) :
    memReadWord (depositRom mem addr rom) (addr + BitVec.ofNat 32 i * 2) = rom[i] := by
  have h := (depositRom_laid mem hfit).laid i hi
  rw [List.getElem?_eq_getElem hi] at h
  exact (Option.some.inj h).symm

/-- Words outside of the ROM are left alone. -/
theorem depositRom_other (mem : Mem) {addr pa : PhysAddr} {rom : List Word}
    (hfit : addr.toNat + 2 * rom.length ≤ 2 ^ 22)
    (hpa : (memIndex pa).toNat < addr.toNat / 2 ∨ addr.toNat / 2 + rom.length ≤ (memIndex pa).toNat) :
    memReadWord (depositRom mem addr rom) pa = memReadWord mem pa := by
  refine (depositRom_laid mem hfit).kept (memIndex pa) fun i hi heq => ?_
  rw [heq, romKey_toNat addr i (by omega)] at hpa
  omega

/-! ## Bytes -/

def depositBytes (mem : Mem) (addr : PhysAddr) (bytes : List Byte) : Mem :=
  bytes.zipIdx.foldl (fun mem b => memWriteByte mem (addr + BitVec.ofNat 32 b.2) b.1) mem

theorem memCell_offset (addr : PhysAddr) (i : ℕ) (h : addr.toNat + i < 2 ^ 22) :
    (memCell (addr + BitVec.ofNat 32 i)).toNat = addr.toNat + i := by
  rw [memCell_toNat, BitVec.toNat_add, BitVec.toNat_ofNat]
  omega

theorem depositBytes_laid (mem : Mem) {addr : PhysAddr} {bytes : List Byte}
    (hfit : addr.toNat + bytes.length ≤ 2 ^ 22) :
    memStore.Laid (fun i => memCell (addr + BitVec.ofNat 32 i)) bytes mem
      (depositBytes mem addr bytes) := by
  have hlaid : memStore.Laid (fun i => memCell (addr + BitVec.ofNat 32 i)) _ mem _ :=
    .foldl bytes.length (fun i => bytes.getD i 0)
    (fun i j hi hj heq => by
      have hcell := congrArg BitVec.toNat heq
      rw [memCell_offset addr i (by omega), memCell_offset addr j (by omega)] at hcell
      omega) mem
  rw [range_map_getD] at hlaid
  simp only [memStore_put] at hlaid
  unfold depositBytes
  rw [zipIdx_foldl _ _ 0]
  exact hlaid

theorem depositBytes_byte (mem : Mem) {addr : PhysAddr} {bytes : List Byte}
    (hfit : addr.toNat + bytes.length ≤ 2 ^ 22) {i : ℕ} (hi : i < bytes.length) :
    memReadByte (depositBytes mem addr bytes) (addr + BitVec.ofNat 32 i) = bytes[i] := by
  have h := (depositBytes_laid mem hfit).laid i hi
  rw [List.getElem?_eq_getElem hi, memStore_get] at h
  exact (Option.some.inj h).symm

/-- Bytes outside of the sequence are left alone. -/
theorem depositBytes_other (mem : Mem) {addr pa : PhysAddr} {bytes : List Byte}
    (hfit : addr.toNat + bytes.length ≤ 2 ^ 22)
    (hpa : (memCell pa).toNat < addr.toNat ∨ addr.toNat + bytes.length ≤ (memCell pa).toNat) :
    memReadByte (depositBytes mem addr bytes) pa = memReadByte mem pa := by
  have h := (depositBytes_laid mem hfit).kept (memCell pa) fun i hi heq => by
    rw [heq, memCell_offset addr i (by omega)] at hpa
    omega
  rwa [memStore_get, memStore_get] at h

/-- Words below the sequence are left alone. -/
theorem depositBytes_word (mem : Mem) {addr pa : PhysAddr} {bytes : List Byte}
    (hfit : addr.toNat + bytes.length ≤ 2 ^ 22) (hpa : (memIndex pa).toNat < addr.toNat / 2) :
    memReadWord (depositBytes mem addr bytes) pa = memReadWord mem pa := by
  unfold depositBytes
  rw [zipIdx_foldl _ _ 0]
  have hall : ∀ n ≤ bytes.length, memReadWord ((List.range n).foldl (fun mem i =>
      memWriteByte mem (addr + BitVec.ofNat 32 i) (bytes.getD i 0)) mem) pa =
      memReadWord mem pa := by
    intro n hn
    induction n with
    | zero => rfl
    | succ n ih =>
      rw [List.range_succ, List.foldl_append]
      have hne : memIndex pa ≠ memIndex (addr + BitVec.ofNat 32 n) := by
        intro heq
        rw [heq, memIndex_toNat, BitVec.toNat_add, BitVec.toNat_ofNat] at hpa
        omega
      exact (Function.update_of_ne hne _ _).trans (ih (by omega))
  exact hall _ le_rfl

/-! ## Programs in place -/

/-- The words `rom` are in memory from `start` on. -/
def Plain.Loaded (p : Plain) (start : Word) (rom : List Word) : Prop :=
  ∀ i (hi : i < rom.length), p.Code (start + BitVec.ofNat 16 (2 * i)) rom[i]

theorem Plain.Loaded.congr {p q : Plain} {start : Word} {rom : List Word} (h : p.Loaded start rom)
    (hcfg : q.cfg = p.cfg) (hmem : q.mem = p.mem) : q.Loaded start rom :=
  fun i hi => (h i hi).congr hcfg hmem

theorem unmapped_ram {va : Word} (h : va.toNat < 0o160000) : unmappedPhysical va = va.setWidth 32 := by
  apply BitVec.eq_of_toNat_eq
  rw [unmapped_toNat va h, BitVec.toNat_setWidth]
  omega

theorem loaded_of_words {p : Plain} {start : Word} {rom : List Word} (heven : start &&& 1 = 0)
    (hfit : start.toNat + 2 * rom.length ≤ 0o160000) (htop : 0o160000 ≤ p.cfg.memTop.toNat)
    (hwords : ∀ i (hi : i < rom.length),
      memReadWord p.mem (start.setWidth 32 + BitVec.ofNat 32 i * 2) = rom[i]) :
    p.Loaded start rom := by
  intro i hi
  have hva : (start + BitVec.ofNat 16 (2 * i)).toNat = start.toNat + 2 * i := by
    rw [BitVec.toNat_add, BitVec.toNat_ofNat]
    omega
  refine ⟨⟨by omega, by omega⟩, ?_, ?_⟩
  · apply BitVec.eq_of_toNat_eq
    have hstart := congrArg BitVec.toNat heven
    rw [BitVec.toNat_and] at hstart ⊢
    rw [hva]
    have hmod (n : ℕ) : n &&& (1 : Word).toNat = n % 2 := Nat.and_one_is_mod n
    rw [hmod] at hstart ⊢
    have hzero : (0 : Word).toNat = 0 := rfl
    omega
  · rw [← hwords i hi, Plain.word, unmapped_ram (by omega)]
    congr 1
    apply BitVec.eq_of_toNat_eq
    have hi2 : (BitVec.ofNat 32 i * 2).toNat = 2 * i := by
      rw [BitVec.toNat_mul, BitVec.toNat_ofNat]
      show i % 2 ^ 32 * 2 % 2 ^ 32 = 2 * i
      omega
    rw [BitVec.toNat_setWidth, hva, BitVec.toNat_add, hi2, BitVec.toNat_setWidth]
    omega

end Pdp11
