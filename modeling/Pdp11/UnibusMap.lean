import Pdp11.ByteWrites
import Pdp11.UnibusRelocation
import Mathlib.Tactic.IntervalCases

namespace Pdp11

open FaultState

/-! The Unibus map registers after any writes from reset, and the addresses they relocate. -/

/-! ## Stores to the registers -/

/-- A word or byte store to the map registers. -/
inductive UbmWrite
  | word (pa : PhysAddr) (value : Word)
  | byte (pa : PhysAddr) (value : Byte)

/-- The physical addresses of the 32 registers. -/
def UbmAddress (pa : PhysAddr) : Prop := 0o17770200 ≤ pa ∧ pa ≤ 0o17770377

/-- The address of a word of a register. -/
def ubmWordAddr (pg : BitVec 5) (high : Bool) : PhysAddr :=
  0o17770200 + 4 * pg.setWidth 32 + if high then 2 else 0

/-- The register an address is in. -/
def ubmPage (pa : PhysAddr) : BitVec 5 := pa.extractLsb' 2 5

/-- Whether an address is in the high word of its register. -/
def ubmHigh (pa : PhysAddr) : Bool := pa.getLsbD 1

/-- The implemented bits of a word of a register: 21:16, or 15:1. -/
def ubmMask (high : Bool) : Word := if high then 0o77 else 0o177776

/-- The register that two words form. -/
def ubmRegister (half : Bool → Word) : BitVec 32 :=
  ((half true).setWidth 32 &&& 0o77) <<< 16 ||| (half false).setWidth 32 &&& 0o177776

namespace UbmWrite

def addr : UbmWrite → PhysAddr
  | word pa _ | byte pa _ => pa

/-- A word goes to an even address. -/
def InRange : UbmWrite → Prop
  | word pa _ => UbmAddress pa ∧ pa.getLsbD 0 = false
  | byte pa _ => UbmAddress pa

def store : UbmWrite → M Unit
  | word pa value => writePhysical pa value
  | byte pa value => writeBytePhysical pa value

/-- What is last written to each word of each register, before any mask. -/
def put (last : BitVec 5 → Bool → Word) (w : UbmWrite) : BitVec 5 → Bool → Word :=
  let pg := ubmPage w.addr
  let high := ubmHigh w.addr
  let value := match w with
    | word _ value => value
    | byte pa value => mergeByte pa (last pg high) value
  Function.update last pg (Function.update (last pg) high value)

end UbmWrite

/-- The words last written, zero from reset. -/
def ubmLast (ws : List UbmWrite) : BitVec 5 → Bool → Word := ws.foldl UbmWrite.put fun _ _ => 0

/-- A run from reset in which `ws` are the stores to the map registers. Other steps leave them, and
the model, alone. -/
inductive UbmRun (s : Cpu) : List UbmWrite → Machine → Prop
  | reset (events : List Event) : UbmRun s [] ⟨cpuReset s, events⟩
  | write {ws : List UbmWrite} {m m' : Machine} {w : UbmWrite} (hrun : UbmRun s ws m)
    (hw : w.InRange) (hstore : w.store m = .ok () m') : UbmRun s (ws ++ [w]) m'
  | other {ws : List UbmWrite} {m m' : Machine} (hrun : UbmRun s ws m)
    (hcfg : m'.cpu.cfg = m.cpu.cfg) (hmap : m'.cpu.dev.ubMap = m.cpu.dev.ubMap) : UbmRun s ws m'

/-! ## Addresses -/

theorem ubmAddress_iff {pa : PhysAddr} :
    UbmAddress pa ↔ ∃ o : BitVec 7, pa = 0o17770200 ||| o.setWidth 32 := by
  constructor
  · rintro ⟨hlo, hhi⟩
    refine ⟨pa.extractLsb' 0 7, ?_⟩
    apply BitVec.eq_of_toNat_eq
    have hlo' : 0o17770200 ≤ pa.toNat := hlo
    have hhi' : pa.toNat ≤ 0o17770377 := hhi
    have hor : (0o17770200 : ℕ) ||| pa.toNat % 2 ^ 7 = 0o17770200 + pa.toNat % 2 ^ 7 :=
      (Nat.two_pow_add_eq_or_of_lt (i := 7) (Nat.mod_lt pa.toNat (by decide)) 0o77741).symm
    rw [BitVec.toNat_or, BitVec.toNat_setWidth, BitVec.extractLsb'_toNat, Nat.shiftRight_zero,
      Nat.mod_eq_of_lt (a := pa.toNat % 2 ^ 7) (by omega)]
    refine Eq.trans ?_ hor.symm
    omega
  · rintro ⟨o, rfl⟩
    revert o
    unfold UbmAddress
    decide

theorem ubm_decode : ∀ o : BitVec 7,
    let pa : PhysAddr := 0o17770200 ||| o.setWidth 32
    let a : Word := pa.setWidth 16
    isIopage pa = true ∧ (ubmBase ≤ a ∧ a ≤ ubmEnd) ∧
      (ubmBase ≤ byteReg pa ∧ byteReg pa ≤ ubmEnd) ∧
      (a - ubmBase).extractLsb' 2 5 = ubmPage pa ∧
      (decide ((a - ubmBase) &&& 2 ≠ 0) = ubmHigh pa) ∧
      (byteReg pa - ubmBase).extractLsb' 2 5 = ubmPage pa ∧
      (decide ((byteReg pa - ubmBase) &&& 2 ≠ 0) = ubmHigh pa) := by
  decide

theorem ubmWordAddr_spec : ∀ (pg : BitVec 5) (high : Bool),
    UbmAddress (ubmWordAddr pg high) ∧ ubmPage (ubmWordAddr pg high) = pg ∧
      ubmHigh (ubmWordAddr pg high) = high := by
  unfold UbmAddress
  decide

/-! ## A register as two words -/

theorem ubmRegister_low (half : Bool → Word) :
    (ubmRegister half).setWidth 16 &&& 0o177776 = half false &&& ubmMask false := by
  unfold ubmRegister ubmMask
  apply BitVec.eq_of_getLsbD_eq
  intro i hi
  interval_cases i <;> simp

theorem ubmRegister_high (half : Bool → Word) :
    (ubmRegister half >>> 16).setWidth 16 &&& 0o77 = half true &&& ubmMask true := by
  unfold ubmRegister ubmMask
  apply BitVec.eq_of_getLsbD_eq
  intro i hi
  interval_cases i <;> simp

theorem ubmRegister_put_low (half : Bool → Word) (value : Word) :
    ((ubmRegister half &&& ~~~0o177777) ||| (value.setWidth 32 &&& 0o177776)) &&& 0o17777776 =
      ubmRegister (Function.update half false value) := by
  unfold ubmRegister
  rw [Function.update_self, Function.update_of_ne (by decide)]
  apply BitVec.eq_of_getLsbD_eq
  intro i hi
  interval_cases i <;> simp

theorem ubmRegister_put_high (half : Bool → Word) (value : Word) :
    ((ubmRegister half &&& 0o177777) ||| ((value.setWidth 32 &&& 0o77) <<< 16)) &&& 0o17777776 =
      ubmRegister (Function.update half true value) := by
  unfold ubmRegister
  rw [Function.update_self, Function.update_of_ne (by decide)]
  apply BitVec.eq_of_getLsbD_eq
  intro i hi
  interval_cases i <;> simp

theorem ubmRegister_base (half : Bool → Word) :
    (ubmRegister half).toNat % 2 = 0 ∧ (ubmRegister half).toNat < 2 ^ 22 := by
  have hmask : ubmRegister half &&& 0o17777776 = ubmRegister half := by
    unfold ubmRegister
    apply BitVec.eq_of_getLsbD_eq
    intro i hi
    interval_cases i <;> simp
  rw [← hmask, BitVec.toNat_and]
  constructor
  · have heven : (0o17777776 : BitVec 32).toNat % 2 ^ 1 = 0 := rfl
    exact (Nat.and_mod_two_pow (n := 1)).trans (by rw [heven, Nat.and_zero])
  · exact Nat.lt_of_le_of_lt Nat.and_le_right (by decide)

/-- Merging a byte into the implemented bits and storing the word loses nothing. -/
theorem mergeByte_mask (pa : PhysAddr) (w mask : Word) (value : Byte) :
    mergeByte pa (w &&& mask) value &&& mask = mergeByte pa w value &&& mask := by
  have hmerge (k v : Word) : (((w &&& mask) &&& k) ||| v) &&& mask = ((w &&& k) ||| v) &&& mask := by
    ext i hi
    simp only [BitVec.getElem_and, BitVec.getElem_or]
    cases mask[i]
    · rw [Bool.and_false, Bool.and_false]
    · rw [Bool.and_true, Bool.and_true, Bool.and_true]
  unfold mergeByte
  split
  · exact hmerge _ _
  · exact hmerge _ _

theorem ubmRegister_mask (half : Bool → Word) :
    ubmRegister (fun high => half high &&& ubmMask high) = ubmRegister half := by
  unfold ubmRegister ubmMask
  apply BitVec.eq_of_getLsbD_eq
  intro i hi
  interval_cases i <;> simp

theorem ubmRegister_congr {half half' : Bool → Word}
    (h : ∀ high, half high &&& ubmMask high = half' high &&& ubmMask high) :
    ubmRegister half = ubmRegister half' := by
  rw [← ubmRegister_mask half, ← ubmRegister_mask half']
  exact congrArg ubmRegister (funext h)

section
variable {s : Cpu} {a : Word} {pg : BitVec 5} {high : Bool} {half : Bool → Word}

theorem ubmRead_eq (hpg : (a - ubmBase).extractLsb' 2 5 = pg)
    (hhigh : decide ((a - ubmBase) &&& 2 ≠ 0) = high) (hreg : s.dev.ubMap pg = ubmRegister half) :
    ubmRead s a = half high &&& ubmMask high := by
  unfold ubmRead
  dsimp only
  rw [hpg, hreg]
  split
  · have hhi : high = true := hhigh.symm.trans (decide_eq_true ‹_›)
    rw [ubmRegister_high, hhi]
  · have hhi : high = false := hhigh.symm.trans (decide_eq_false ‹_›)
    rw [ubmRegister_low, hhi]

theorem ubmWrite_eq (hpg : (a - ubmBase).extractLsb' 2 5 = pg)
    (hhigh : decide ((a - ubmBase) &&& 2 ≠ 0) = high) (hreg : s.dev.ubMap pg = ubmRegister half)
    (value : Word) :
    ubmWrite s a value = { s with
      dev.ubMap := Function.update s.dev.ubMap pg (ubmRegister (Function.update half high value)) } := by
  unfold ubmWrite
  dsimp only
  rw [hpg, hreg]
  split
  · have hhi : high = true := hhigh.symm.trans (decide_eq_true ‹_›)
    rw [ubmRegister_put_high, hhi]
  · have hhi : high = false := hhigh.symm.trans (decide_eq_false ‹_›)
    rw [ubmRegister_put_low, hhi]

end

/-! ## One store -/

/-- The registers hold what was last written to them. -/
structure UbmHolds (last : BitVec 5 → Bool → Word) (s : Cpu) : Prop where
  hasUbm : s.cfg.hasUbm = true
  reg : ∀ pg, s.dev.ubMap pg = ubmRegister (last pg)

namespace UbmHolds

variable {last : BitVec 5 → Bool → Word} {s : Cpu} {m : Machine} {pa : PhysAddr}

theorem decoded (h : UbmHolds last s) {a : Word} (ha : ubmBase ≤ a ∧ a ≤ ubmEnd) :
    isUbm s a = true := decide_eq_true ⟨h.hasUbm, ha.1, ha.2⟩

theorem ioReadReg_eq (h : UbmHolds last s) {a : Word} (ha : ubmBase ≤ a ∧ a ≤ ubmEnd)
    {pg : BitVec 5} {high : Bool} (hpg : (a - ubmBase).extractLsb' 2 5 = pg)
    (hhigh : decide ((a - ubmBase) &&& 2 ≠ 0) = high) :
    ioReadReg s a = some (last pg high &&& ubmMask high, s) := by
  unfold ioReadReg
  rw [if_pos (h.decoded ha), ubmRead_eq hpg hhigh (h.reg pg)]

theorem ioWrite_eq (h : UbmHolds last m.cpu) {a : Word} (ha : ubmBase ≤ a ∧ a ≤ ubmEnd)
    {pg : BitVec 5} {high : Bool} (hpg : (a - ubmBase).extractLsb' 2 5 = pg)
    (hhigh : decide ((a - ubmBase) &&& 2 ≠ 0) = high) (value : Word) :
    ioWrite a value m = .ok () ⟨{ m.cpu with
      dev.ubMap := Function.update m.cpu.dev.ubMap pg
        (ubmRegister (Function.update (last pg) high value)) },
      m.events ++ [Event.ioWrite a value]⟩ := by
  have hreg : ioWriteReg m.cpu a value = some (ubmWrite m.cpu a value) := by
    unfold ioWriteReg
    rw [if_pos (h.decoded ha)]
  rw [ioWrite_apply, hreg, ubmWrite_eq hpg hhigh (h.reg pg)]

theorem store_of_put (h : UbmHolds last m.cpu) {w : UbmWrite} {events : List Event} {value : Word}
    (hstore : w.store m = .ok () ⟨{ m.cpu with
      dev.ubMap := Function.update m.cpu.dev.ubMap (ubmPage w.addr)
        (ubmRegister (Function.update (last (ubmPage w.addr)) (ubmHigh w.addr) value)) }, events⟩)
    (hvalue : ubmRegister (Function.update (last (ubmPage w.addr)) (ubmHigh w.addr) value) =
      ubmRegister (w.put last (ubmPage w.addr))) :
    ∃ m', w.store m = .ok () m' ∧ UbmHolds (w.put last) m'.cpu ∧
      ∀ pg ≠ ubmPage w.addr, m'.cpu.dev.ubMap pg = m.cpu.dev.ubMap pg := by
  refine ⟨_, hstore, ⟨h.hasUbm, fun pg => ?_⟩, fun pg hpg => Function.update_of_ne hpg _ _⟩
  show Function.update m.cpu.dev.ubMap (ubmPage w.addr) _ pg = _
  by_cases hpg : pg = ubmPage w.addr
  · rw [hpg, Function.update_self, hvalue]
  · rw [Function.update_of_ne hpg, h.reg]
    exact congrArg ubmRegister (Function.update_of_ne hpg _ last).symm

theorem store (h : UbmHolds last m.cpu) {w : UbmWrite} (hw : w.InRange) :
    ∃ m', w.store m = .ok () m' ∧ UbmHolds (w.put last) m'.cpu ∧
      ∀ pg ≠ ubmPage w.addr, m'.cpu.dev.ubMap pg = m.cpu.dev.ubMap pg := by
  cases w with
  | word pa value =>
    obtain ⟨o, ho⟩ := ubmAddress_iff.1 hw.1
    obtain ⟨hio, ha, -, hpg, hhigh, -⟩ := ubm_decode o
    rw [← ho] at hio ha hpg hhigh
    have hstore : (UbmWrite.word pa value).store m = ioWrite (pa.setWidth 16) value m := if_pos hio
    refine h.store_of_put (hstore.trans (h.ioWrite_eq ha hpg hhigh value)) ?_
    rw [UbmWrite.put, Function.update_self]
  | byte pa value =>
    obtain ⟨o, ho⟩ := ubmAddress_iff.1 hw
    obtain ⟨hio, -, ha, -, -, hpg, hhigh⟩ := ubm_decode o
    rw [← ho] at hio ha hpg hhigh
    -- the word that is merged is the masked one that the read returns
    let merged := mergeByte pa (last (ubmPage pa) (ubmHigh pa) &&& ubmMask (ubmHigh pa)) value
    have hmerge : ioWriteByte pa value m = ioWrite (byteReg pa) merged m := by
      rw [ioWriteByte_apply (h.ioReadReg_eq ha hpg hhigh)]
    have hstore : (UbmWrite.byte pa value).store m = ioWrite (byteReg pa) merged m :=
      (if_pos hio).trans hmerge
    refine h.store_of_put (hstore.trans (h.ioWrite_eq ha hpg hhigh merged)) ?_
    apply ubmRegister_congr
    intro high
    rw [UbmWrite.put, Function.update_self]
    dsimp only [UbmWrite.addr]
    by_cases hhi : high = ubmHigh pa
    · rw [hhi, Function.update_self, Function.update_self]
      exact mergeByte_mask _ _ _ _
    · rw [Function.update_of_ne hhi, Function.update_of_ne hhi]

theorem read (h : UbmHolds last m.cpu) (pg : BitVec 5) (high : Bool) :
    readPhysical (ubmWordAddr pg high) m = .ok (last pg high &&& ubmMask high) m := by
  obtain ⟨haddr, hpage, hhi⟩ := ubmWordAddr_spec pg high
  obtain ⟨o, ho⟩ := ubmAddress_iff.1 haddr
  obtain ⟨hio, ha, -, hpg, hhigh, -⟩ := ubm_decode o
  rw [← ho] at hio ha hpg hhigh
  unfold readPhysical
  rw [if_pos hio, ioRead_apply, h.ioReadReg_eq ha (hpg.trans hpage) (hhigh.trans hhi)]

end UbmHolds

/-! ## Runs -/

/-- From reset, the registers hold what was last written to them. -/
theorem UbmRun.holds {s : Cpu} {ws : List UbmWrite} {m : Machine} (hubm : s.cfg.hasUbm = true)
    (hrun : UbmRun s ws m) : UbmHolds (ubmLast ws) m.cpu := by
  induction hrun with
  | reset events =>
    have hzero : ubmRegister (fun _ => 0) = 0 := rfl
    exact ⟨hubm, fun pg => hzero.symm⟩
  | write hrun hw hstore ih =>
    obtain ⟨m', hm', hholds, -⟩ := ih.store hw
    cases hstore.symm.trans hm'
    unfold ubmLast
    rw [List.foldl_append]
    exact hholds
  | other hrun hcfg hmap ih => exact ⟨hcfg ▸ ih.hasUbm, fun pg => hmap ▸ ih.reg pg⟩

/-! ## Relocation -/

/-- After any stores from reset each register is an even 22-bit base that reads back as last
written, and an address is relocated by the register of its page. -/
theorem unibus_map_registers {s : Cpu} {ws : List UbmWrite} {m : Machine}
    (hubm : s.cfg.hasUbm = true) (hrun : UbmRun s ws m) :
    (∀ pg, m.cpu.dev.ubMap pg = ubmRegister (ubmLast ws pg) ∧
      (m.cpu.dev.ubMap pg).toNat % 2 = 0 ∧ (m.cpu.dev.ubMap pg).toNat < 2 ^ 22) ∧
    (∀ pg high,
      readPhysical (ubmWordAddr pg high) m = .ok (ubmLast ws pg high &&& ubmMask high) m) ∧
    (∀ w : UbmWrite, w.InRange → ∃ m', w.store m = .ok () m' ∧
      ∀ pg ≠ ubmPage w.addr, m'.cpu.dev.ubMap pg = m.cpu.dev.ubMap pg) ∧
    (∀ a : BitVec 32, a.toNat < 2 ^ 18 →
      (m.cpu.mmu.mmr3 &&& mmr3Bme ≠ 0 → (unibusMap m.cpu a).toNat =
        if a.toNat / 2 ^ 13 = 31 then 0o17760000 + a.toNat % 2 ^ 13
        else ((m.cpu.dev.ubMap (a.extractLsb' 13 5)).toNat + a.toNat % 2 ^ 13) % 2 ^ 22) ∧
      (m.cpu.mmu.mmr3 &&& mmr3Bme = 0 → (unibusMap m.cpu a).toNat = a.toNat % 2 ^ 18) ∧
      (∀ t : Cpu, t.cfg.hasUbm = false → (unibusMap t a).toNat = a.toNat % 2 ^ 18) ∧
      ∀ b : BitVec 32, b.toNat < 2 ^ 18 → a.toNat / 2 ^ 13 = b.toNat / 2 ^ 13 →
        ((unibusMap m.cpu a).toNat + b.toNat) % 2 ^ 22 =
          ((unibusMap m.cpu b).toNat + a.toNat) % 2 ^ 22 ∧
        (a ≠ b → unibusMap m.cpu a ≠ unibusMap m.cpu b)) := by
  have hholds := hrun.holds hubm
  refine ⟨fun pg => ?_, hholds.read, fun w hw => ?_, fun a ha => ⟨fun hbme => ?_, fun hbme => ?_,
    fun t ht => unibusMap_direct (.inl ht) a, fun b hb hpage => ⟨?_, ?_⟩⟩⟩
  · rw [hholds.reg pg]
    exact ⟨rfl, ubmRegister_base _⟩
  · obtain ⟨m', hm', -, hkept⟩ := hholds.store hw
    exact ⟨m', hm', hkept⟩
  · rw [unibusMap_mapped hholds.hasUbm hbme, Nat.mod_eq_of_lt (a := a.toNat / 2 ^ 13) (by omega)]
  · exact unibusMap_direct (.inr hbme) a
  · exact unibusMap_page m.cpu ha hb hpage
  · exact mt (unibusMap_page_inj m.cpu ha hb hpage)

/-- Register 6 from its two words. -/
theorem register_six_formed : ∃ m, UbmRun cpuCreate
    [.word 0o17770230 0o123457, .word 0o17770232 0o77] m ∧
      m.cpu.dev.ubMap 6 = 0o17723456 := by
  let w1 : UbmWrite := .word 0o17770230 0o123457
  let w2 : UbmWrite := .word 0o17770232 0o77
  have h1 : w1.InRange := ⟨⟨by decide, by decide⟩, rfl⟩
  have h2 : w2.InRange := ⟨⟨by decide, by decide⟩, rfl⟩
  have hr0 : UbmRun cpuCreate [] ⟨cpuReset cpuCreate, []⟩ := .reset []
  obtain ⟨m1, hm1, -⟩ := (unibus_map_registers rfl hr0).2.2.1 w1 h1
  have hr1 : UbmRun cpuCreate [w1] m1 := hr0.write h1 hm1
  obtain ⟨m2, hm2, -⟩ := (unibus_map_registers rfl hr1).2.2.1 w2 h2
  have hr2 : UbmRun cpuCreate [w1, w2] m2 := hr1.write h2 hm2
  refine ⟨m2, hr2, ((unibus_map_registers rfl hr2).1 6).1.trans ?_⟩
  decide

end Pdp11
