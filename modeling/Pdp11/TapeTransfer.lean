import Pdp11.TapeRecords
import Pdp11.DmaStores
import Pdp11.Lib.CellStore
import Mathlib.Tactic.IntervalCases

namespace Pdp11

open ByteSequence RecordTape

/-! A record written on the tape, and read back. -/

/-! ## Memory by bytes -/

theorem odd_iff (pa : PhysAddr) : pa &&& 1 ≠ 0 ↔ pa.toNat % 2 = 1 := by
  have hbit : (pa &&& 1).toNat = pa.toNat % 2 := by
    rw [BitVec.toNat_and]
    exact Nat.and_one_is_mod _
  rw [← hbit]
  constructor
  · intro h
    have hne : (pa &&& 1).toNat ≠ 0 := fun hz => h (BitVec.eq_of_toNat_eq hz)
    omega
  · intro h heq
    rw [heq] at h
    cases h

/-- The upper and the lower byte of a word, put and read. -/
theorem upper_put (w : Word) (b : Byte) :
    (((w &&& 0x00FF) ||| (b.setWidth 16 <<< 8)) >>> 8).setWidth 8 = b := by
  apply BitVec.eq_of_getLsbD_eq
  intro i hi
  interval_cases i <;> simp

theorem lower_put (w : Word) (b : Byte) :
    (((w &&& 0xFF00) ||| b.setWidth 16) &&& 0xFF).setWidth 8 = b := by
  apply BitVec.eq_of_getLsbD_eq
  intro i hi
  interval_cases i <;> simp

theorem upper_kept (w : Word) (b : Byte) :
    ((((w &&& 0xFF00) ||| b.setWidth 16) >>> 8).setWidth 8 : Byte) = (w >>> 8).setWidth 8 := by
  apply BitVec.eq_of_getLsbD_eq
  intro i hi
  interval_cases i <;> simp

theorem lower_kept (w : Word) (b : Byte) :
    ((((w &&& 0x00FF) ||| (b.setWidth 16 <<< 8)) &&& 0xFF).setWidth 8 : Byte) =
      (w &&& 0xFF).setWidth 8 := by
  apply BitVec.eq_of_getLsbD_eq
  intro i hi
  interval_cases i <;> simp

/-- The byte of memory a physical address stands for. -/
abbrev memCell (pa : PhysAddr) : BitVec 22 := pa.setWidth 22

theorem memCell_toNat (pa : PhysAddr) : (memCell pa).toNat = pa.toNat % 2 ^ 22 :=
  BitVec.toNat_setWidth _ _

theorem memReadByte_same (m : Mem) (pa : PhysAddr) (b : Byte) :
    memReadByte (memWriteByte m pa b) pa = b := by
  unfold memReadByte memWriteByte memReadWord
  dsimp only
  rw [Function.update_self]
  by_cases hodd : pa &&& 1 ≠ 0
  · rw [if_pos hodd, if_pos hodd, upper_put]
  · rw [if_neg hodd, if_neg hodd, lower_put]

theorem memReadByte_other (m : Mem) {pa pa' : PhysAddr} (b : Byte) (h : memCell pa' ≠ memCell pa) :
    memReadByte (memWriteByte m pa b) pa' = memReadByte m pa' := by
  unfold memReadByte memWriteByte memReadWord
  dsimp only
  by_cases hindex : memIndex pa' = memIndex pa
  · have hne : pa'.toNat % 2 ≠ pa.toNat % 2 := by
      intro heq
      apply h
      apply BitVec.eq_of_toNat_eq
      have hi := congrArg BitVec.toNat hindex
      rw [memIndex_toNat, memIndex_toNat] at hi
      rw [memCell_toNat, memCell_toNat]
      omega
    rw [hindex, Function.update_self]
    by_cases hodd : pa' &&& 1 ≠ 0
    · have heven : ¬pa &&& 1 ≠ 0 := by
        rw [odd_iff] at hodd ⊢
        omega
      rw [if_pos hodd, if_pos hodd, if_neg heven, upper_kept]
    · have hodd' : pa &&& 1 ≠ 0 := by
        rw [odd_iff] at hodd ⊢
        omega
      rw [if_neg hodd, if_neg hodd, if_pos hodd', lower_kept]
  · rw [Function.update_of_ne hindex]

theorem memCell_setWidth (a : BitVec 22) : memCell (a.setWidth 32) = a := by simp

/-- Memory as a store of bytes. -/
def memStore : CellStore Mem (BitVec 22) Byte where
  get m a := memReadByte m (a.setWidth 32)
  put m a b := memWriteByte m (a.setWidth 32) b
  get_put_same m a b := memReadByte_same m _ b
  get_put_other m a b a' h := by
    apply memReadByte_other
    rw [memCell_setWidth, memCell_setWidth]
    exact h

theorem memCell_low (pa : PhysAddr) : ((memCell pa).setWidth 32).toNat = pa.toNat % 2 ^ 22 := by
  rw [BitVec.toNat_setWidth, memCell_toNat]
  omega

theorem memCell_index (pa : PhysAddr) : memIndex ((memCell pa).setWidth 32) = memIndex pa := by
  apply BitVec.eq_of_toNat_eq
  rw [memIndex_toNat, memIndex_toNat, memCell_low]
  omega

theorem memCell_odd (pa : PhysAddr) : (memCell pa).setWidth 32 &&& 1 ≠ 0 ↔ pa &&& 1 ≠ 0 := by
  rw [odd_iff, odd_iff, memCell_low]
  omega

theorem memStore_get (m : Mem) (pa : PhysAddr) :
    memStore.get m (memCell pa) = memReadByte m pa := by
  show memReadByte m ((memCell pa).setWidth 32) = memReadByte m pa
  unfold memReadByte memReadWord
  rw [memCell_index]
  simp only [memCell_odd]

theorem memStore_put (m : Mem) (pa : PhysAddr) (b : Byte) :
    memStore.put m (memCell pa) b = memWriteByte m pa b := by
  show memWriteByte m ((memCell pa).setWidth 32) b = memWriteByte m pa b
  unfold memWriteByte
  rw [memCell_index]
  simp only [memCell_odd]

theorem memIndex_even (pa : PhysAddr) : memIndex (pa &&& ~~~1) = memIndex pa := by
  apply BitVec.eq_of_toNat_eq
  rw [memIndex_toNat, memIndex_toNat, even_toNat]
  omega

/-- The tape's byte accesses are those of the memory, through the Unibus map. -/
theorem tmMemReadByte_eq (s : Cpu) (a : BitVec 32) :
    tmMemReadByte s a = memReadByte s.mem (unibusMap s a) := by
  unfold tmMemReadByte memReadByte memReadWord
  dsimp only
  rw [memIndex_even]

theorem tmMemWriteByte_eq (s : Cpu) (a : BitVec 32) (b : Byte) :
    tmMemWriteByte s a b = { s with mem := memWriteByte s.mem (unibusMap s a) b } := by
  unfold tmMemWriteByte memWriteByte memReadWord memWriteWord
  dsimp only
  rw [memIndex_even]

/-- The physical address of byte `i` of a transfer from an 18-bit bus address. -/
def tapeAddr (s : Cpu) (addr : BitVec 18) (i : ℕ) : PhysAddr :=
  unibusMap s ((addr.setWidth 32 + BitVec.ofNat 32 i) &&& 0o777777)

theorem unibusMap_lt (s : Cpu) (uba : BitVec 32) : (unibusMap s uba).toNat < 2 ^ 22 := by
  have hmask (x : BitVec 32) : (x &&& pamask22).toNat < 2 ^ 22 := by
    have hlit : (pamask22 : BitVec 32).toNat = 2 ^ 22 - 1 := rfl
    rw [BitVec.toNat_and, hlit, Nat.and_two_pow_sub_one_eq_mod]
    exact Nat.mod_lt _ (by norm_num)
  unfold unibusMap
  split
  · have hlit : (0o777777 : BitVec 32).toNat = 2 ^ 18 - 1 := rfl
    rw [BitVec.toNat_and, hlit, Nat.and_two_pow_sub_one_eq_mod]
    omega
  · dsimp only
    split
    · exact hmask _
    · exact hmask _

/-- Physical addresses are bytes of memory. -/
theorem memCell_inj {pa pa' : PhysAddr} (h : pa.toNat < 2 ^ 22) (h' : pa'.toNat < 2 ^ 22)
    (heq : memCell pa = memCell pa') : pa = pa' := by
  apply BitVec.eq_of_toNat_eq
  have hcell := congrArg BitVec.toNat heq
  rw [memCell_toNat, memCell_toNat] at hcell
  omega

/-! ## The tape by bytes -/

/-- The tape buffer as a store of bytes. -/
abbrev tapeStoreBytes : CellStore (BitVec 32 → Byte) (BitVec 32) Byte :=
  .ofFun (BitVec 32) Byte

/-- The bytes of the tape buffer that follow a position. -/
def tapeKey (pos : BitVec 32) (k : ℕ) : BitVec 32 := pos + BitVec.ofNat 32 k

theorem tapeKey_add (pos : BitVec 32) (n k : ℕ) :
    tapeKey pos (n + k) = tapeKey (tapeKey pos n) k := by
  rw [tapeKey, tapeKey, tapeKey, BitVec.ofNat_add, BitVec.add_assoc]

theorem tapeKey_inj {pos : BitVec 32} {i j : ℕ} (hi : i < 2 ^ 32) (hj : j < 2 ^ 32)
    (h : tapeKey pos i = tapeKey pos j) : i = j := CellStore.offset_inj hi hj h

/-- The header or the trailer of a record. -/
theorem tapWriteLen_laid (d : BitVec 32 → Byte) (idx : BitVec 32) {cbc : BitVec 32}
    (hcbc : cbc.toNat < 2 ^ 16) : ∃ d', tapWriteLen (some d) idx cbc = some d' ∧
      tapeStoreBytes.Laid (tapeKey idx) (littleEndian 4 cbc) d d' := by
  have hne (i j : ℕ) (hi : i < 4) (hj : j < 4) (hij : i ≠ j) : tapeKey idx i ≠ tapeKey idx j :=
    fun heq => hij (tapeKey_inj (by omega) (by omega) heq)
  have hbyte (k : ℕ) : ((cbc >>> k).setWidth 8 : Byte).toNat = cbc.toNat / 2 ^ k % 2 ^ 8 := by
    rw [BitVec.toNat_setWidth, BitVec.toNat_ushiftRight, Nat.shiftRight_eq_div_pow]
  have hzero (k : ℕ) (hk : 2 ≤ k) : ((cbc >>> (8 * k)).setWidth 8 : Byte) = 0 := by
    apply BitVec.eq_of_toNat_eq
    have hpow : 2 ^ 16 ≤ 2 ^ (8 * k) := Nat.pow_le_pow_right (by omega) (by omega)
    have hquot : cbc.toNat / 2 ^ (8 * k) = 0 := Nat.div_eq_of_lt (by omega)
    rw [hbyte, hquot]
    rfl
  have hmask (x : BitVec 32) : ((x &&& 0o377).setWidth 8 : Byte) = x.setWidth 8 := by
    have hlit : (0o377 : BitVec 32).toNat = 2 ^ 8 - 1 := rfl
    apply BitVec.eq_of_toNat_eq
    rw [BitVec.toNat_setWidth, BitVec.toNat_setWidth, BitVec.toNat_and, hlit,
      Nat.and_two_pow_sub_one_eq_mod]
    omega
  have h0 : tapeKey idx 0 = idx := BitVec.add_zero idx
  -- a count has 16 bits: the code stores its upper two bytes as 0
  let d' : BitVec 32 → Byte :=
    Function.update (Function.update (Function.update (Function.update d (tapeKey idx 0)
      (cbc.setWidth 8)) (tapeKey idx 1) ((cbc >>> 8).setWidth 8)) (tapeKey idx 3) 0)
      (tapeKey idx 2) 0
  refine ⟨d', ?_, ?_, ?_⟩
  · unfold tapWriteLen
    rw [hmask, hmask]
    simp only [d', h0]
    rfl
  · intro i hi
    rw [length_littleEndian] at hi
    show _ = some (d' (tapeKey idx i))
    rw [littleEndian, List.getElem?_map, List.getElem?_range hi, Option.map_some]
    congr 1
    interval_cases i
    · simp [d', hne]
    · simp [d', hne]
    · rw [hzero 2 (by omega)]
      simp [d']
    · rw [hzero 3 (by omega)]
      simp [d', hne]
  · intro a ha
    rw [length_littleEndian] at ha
    show d' a = d a
    simp [d', ha 0, ha 1, ha 2, ha 3]

theorem tapeKey_count (pos cbc : BitVec 32) : pos + 4 + cbc = tapeKey pos (4 + cbc.toNat) := by
  rw [tapeKey, BitVec.ofNat_add, BitVec.ofNat_toNat, BitVec.setWidth_eq, BitVec.add_assoc]
  rfl

/-- Where the trailer of a record stands. -/
theorem tapeKey_trailer (pos : BitVec 32) {cbc : BitVec 32} (hcbc : cbc.toNat < 2 ^ 16) :
    pos + 4 + ((cbc + 1) &&& ~~~1) = tapeKey pos (4 + cbc.toNat + cbc.toNat % 2) := by
  have hsum : (cbc + 1).toNat = cbc.toNat + 1 := toNat_add_lt (n := 1) (by omega)
  have hpadded : ((cbc + 1) &&& ~~~1).toNat = cbc.toNat + cbc.toNat % 2 := by
    rw [even_toNat, hsum]
    omega
  rw [tapeKey_count, hpadded, Nat.add_assoc]

/-- The data of a WRITE, as memory holds them. -/
def tapeData (s : Cpu) (xma : BitVec 32) (n : ℕ) : List Byte :=
  (List.range n).map fun i => tmMemReadByte s ((xma + BitVec.ofNat 32 i) &&& 0o777777)

@[simp] theorem length_tapeData (s : Cpu) (xma : BitVec 32) (n : ℕ) :
    (tapeData s xma n).length = n := by
  simp [tapeData]

/-- The record a WRITE of `n` bytes puts on the tape. -/
def tapeRecord (s : Cpu) (xma : BitVec 32) (n : ℕ) (hn : 0 < n) : Record where
  data := tapeData s xma n
  pad := List.replicate (n % 2) 0
  nonempty := by
    rw [length_tapeData]
    exact hn
  padded := by
    rw [length_tapeData, List.length_replicate]

/-- The machine with another tape buffer. -/
abbrev withTape (s : Cpu) (d : BitVec 32 → Byte) : Cpu := { s with dev.tm.tape := some d }

/-- The data loop of a WRITE. -/
theorem tmExecWrite_loop (s : Cpu) (d : BitVec 32 → Byte) (xma pos : BitVec 32) (n : ℕ) :
    (List.range n).foldl (fun s i =>
      { s with
        dev.tm.tape := s.dev.tm.tape.write (pos + 4 + BitVec.ofNat 32 i)
          (tmMemReadByte s ((xma + BitVec.ofNat 32 i) &&& 0o777777)) }) (withTape s d) =
    withTape s ((List.range n).foldl (fun d i =>
      tapeStoreBytes.put d (tapeKey (tapeKey pos 4) i)
        (tmMemReadByte s ((xma + BitVec.ofNat 32 i) &&& 0o777777))) d) :=
  List.foldl_hom (withTape s) fun _ _ => rfl

/-- A WRITE that fits lays its record into the tape at the position, and moves past it. -/
theorem tmExecWrite_laid {s : Cpu} (xma cbc : BitVec 32) {d : BitVec 32 → Byte}
    (htape : s.dev.tm.tape = some d) (hwrp : s.dev.tm.wrp = false) (hn : 0 < cbc.toNat)
    (hcbc : cbc.toNat < 2 ^ 16)
    (hfits : s.dev.tm.pos.toNat + (Item.record (tapeRecord s xma cbc.toNat hn)).size ≤
      s.dev.tm.tapeLen.toNat) :
    ∃ d', tmExecWrite s xma cbc = { s with
        dev.tm.tape := some d'
        dev.tm.ca := (xma + cbc).setWidth 16
        dev.tm.bc := 0
        dev.tm.pos := tapPast s.dev.tm.pos cbc } ∧
      tapeStoreBytes.Laid (tapeKey s.dev.tm.pos)
        (Item.record (tapeRecord s xma cbc.toNat hn)).bytes d d' := by
  have hsize := Item.size_record (tapeRecord s xma cbc.toNat hn)
  have hdata : (tapeRecord s xma cbc.toNat hn).data.length = cbc.toNat := length_tapeData _ _ _
  have hlen := s.dev.tm.tapeLen.isLt
  have hmax : cbc ≠ 0xFFFFFFFF := by
    intro heq
    rw [heq] at hcbc
    simp only [BitVec.reduceToNat] at hcbc
    omega
  have hpad := tapPadded_eq hmax
  have hpast : (tapPast s.dev.tm.pos cbc).toNat ≤ s.dev.tm.tapeLen.toNat := by
    rw [tapPast_toNat (by omega)]
    omega
  have hroom : ¬(s.dev.tm.wrp = true ∨ s.dev.tm.tapeLen < tapPast s.dev.tm.pos cbc) := by
    rintro (hprot | hover)
    · rw [hwrp] at hprot
      cases hprot
    · rw [BitVec.lt_def] at hover
      omega
  -- four stores in turn: the header, the data, the padding of an odd count and the trailer
  obtain ⟨d1, h1, hheader⟩ := tapWriteLen_laid d s.dev.tm.pos hcbc
  let d2 : BitVec 32 → Byte := (List.range cbc.toNat).foldl (fun d i =>
    tapeStoreBytes.put d (tapeKey (tapeKey s.dev.tm.pos 4) i)
      (tmMemReadByte s ((xma + BitVec.ofNat 32 i) &&& 0o777777))) d1
  have hd2 : tapeStoreBytes.Laid (tapeKey (tapeKey s.dev.tm.pos 4)) (tapeData s xma cbc.toNat)
      d1 d2 :=
    CellStore.Laid.foldl _ _ (fun i j hi hj h => tapeKey_inj (by omega) (by omega) h) d1
  let d3 : BitVec 32 → Byte :=
    if cbc &&& 1 ≠ 0 then tapeStoreBytes.put d2 (tapeKey s.dev.tm.pos (4 + cbc.toNat)) 0 else d2
  have hd3 : tapeStoreBytes.Laid (tapeKey (tapeKey s.dev.tm.pos (4 + cbc.toNat)))
      (List.replicate (cbc.toNat % 2) 0) d2 d3 := by
    by_cases hodd : cbc &&& 1 ≠ 0
    · have hpadded : d3 = tapeStoreBytes.put d2 (tapeKey (tapeKey s.dev.tm.pos (4 + cbc.toNat)) 0)
          0 := by
        rw [← tapeKey_add]
        exact if_pos hodd
      rw [hpadded, (odd_iff cbc).1 hodd]
      exact .singleton 0
    · have heven : cbc.toNat % 2 = 0 := by
        rw [odd_iff] at hodd
        omega
      have hsame : d3 = d2 := if_neg hodd
      rw [hsame, heven]
      exact .nil
  obtain ⟨d4, h4, htrailer⟩ :=
    tapWriteLen_laid d3 (tapeKey s.dev.tm.pos (4 + cbc.toNat + cbc.toNat % 2)) hcbc
  refine ⟨d4, ?_, ?_⟩
  · have hloop := tmExecWrite_loop s d1 xma s.dev.tm.pos cbc.toNat
    have hpadding : (if cbc &&& 1 ≠ 0 then
        { withTape s d2 with
          dev.tm.tape := (withTape s d2).dev.tm.tape.write (s.dev.tm.pos + 4 + cbc) 0 }
        else withTape s d2) = withTape s d3 := by
      rw [tapeKey_count]
      by_cases hodd : cbc &&& 1 ≠ 0
      · rw [if_pos hodd, show d3 = _ from if_pos hodd]
        rfl
      · rw [if_neg hodd, show d3 = _ from if_neg hodd]
    unfold tmExecWrite
    dsimp only at hloop hpadding ⊢
    rw [if_neg hroom, htape, h1, hloop, hpadding, tapeKey_trailer _ hcbc, h4]
    have hnext : tapeKey s.dev.tm.pos (4 + cbc.toNat + cbc.toNat % 2) + 4 =
        tapPast s.dev.tm.pos cbc := by
      rw [← tapeKey_trailer _ hcbc, tapPast]
      bv_omega
    rw [hnext]
  · have hframe : (Item.record (tapeRecord s xma cbc.toNat hn)).frame = littleEndian 4 cbc := by
      rw [Item.frame, Item.length, hdata, BitVec.ofNat_toNat, BitVec.setWidth_eq]
    have hbytes : (Item.record (tapeRecord s xma cbc.toNat hn)).bytes =
        littleEndian 4 cbc ++ tapeData s xma cbc.toNat ++ List.replicate (cbc.toNat % 2) 0 ++
          littleEndian 4 cbc := by
      rw [Item.bytes, hframe, ← List.append_assoc]
      rfl
    -- each store is behind those before it, so that it leaves them as they are
    have hkeys (n m : ℕ) (hn : n < 2 ^ 16 + 5) (hm : m < 2 ^ 16) (i j : ℕ) (hi : i < n)
        (hj : j < m) : tapeKey s.dev.tm.pos i ≠ tapeKey s.dev.tm.pos (n + j) := by
      intro heq
      have hij := tapeKey_inj (by omega) (by omega) heq
      omega
    rw [hbytes]
    have hprefix := hheader.append (length_littleEndian 4 cbc)
      (by simpa only [tapeKey_add] using hd2) (hkeys 4 _ (by omega) (by simpa using hcbc))
    have hpadded := hprefix.append (n := 4 + cbc.toNat) (by simp)
      (by simpa only [tapeKey_add] using hd3) (hkeys _ _ (by omega) (by simp; omega))
    exact hpadded.append (n := 4 + cbc.toNat + cbc.toNat % 2) (by simp; omega)
      (by simpa only [tapeKey_add] using htrailer) (hkeys _ _ (by omega) (by simp))

/-- What is laid into the buffer at a position stands there. -/
theorem itemAt_of_laid {item : Item} {tm : Tm11} {pos : BitVec 32} {d d' : BitVec 32 → Byte}
    (h : tapeStoreBytes.Laid (tapeKey pos) item.bytes d d') (htape : tm.tape = some d')
    (hfits : pos.toNat + item.size ≤ tm.tapeLen.toNat) : ItemAt item pos.toNat tm := by
  refine ⟨hfits, fun i hi => ?_⟩
  have hkey : BitVec.ofNat 32 (pos.toNat + i) = tapeKey pos i := by
    rw [tapeKey, BitVec.ofNat_add, BitVec.ofNat_toNat, BitVec.setWidth_eq]
  rw [htape, hkey]
  exact h.laid i hi

/-! ## Reading -/

/-- The machine with another memory. -/
abbrev withMem (s : Cpu) (m : Mem) : Cpu := { s with mem := m }

/-- The data loop of a READ. -/
theorem tmExecRead_loop (s : Cpu) (m : Mem) (xma data : BitVec 32) (n : ℕ) :
    (List.range n).foldl (fun s i =>
      tmMemWriteByte s ((xma + BitVec.ofNat 32 i) &&& 0o777777)
        (s.dev.tm.tape.read (data + BitVec.ofNat 32 i))) (withMem s m) =
    withMem s ((List.range n).foldl (fun m i =>
      memStore.put m (memCell (unibusMap s ((xma + BitVec.ofNat 32 i) &&& 0o777777)))
        (s.dev.tm.tape.read (data + BitVec.ofNat 32 i))) m) := by
  apply List.foldl_hom (withMem s)
  intro m i
  rw [tmMemWriteByte_eq, memStore_put]
  rfl

/-- A READ at a record, with the record's count of bytes, lays the data into memory and moves past
the record. -/
theorem tmExecRead_laid {s : Cpu} (xma cbc : BitVec 32) {r : Record}
    (hitem : ItemAt (.record r) s.dev.tm.pos.toNat s.dev.tm) (hcount : r.data.length = cbc.toNat)
    (hdistinct : ∀ i j, i < cbc.toNat → j < cbc.toNat →
      unibusMap s ((xma + BitVec.ofNat 32 i) &&& 0o777777) =
        unibusMap s ((xma + BitVec.ofNat 32 j) &&& 0o777777) → i = j) :
    ∃ m, tmExecRead s xma cbc = { s with
        mem := m
        dev.tm.ca := (xma + cbc).setWidth 16
        dev.tm.bc := s.dev.tm.bc + cbc.setWidth 16
        dev.tm.pos := tapPast s.dev.tm.pos cbc } ∧
      memStore.Laid (fun i => memCell (unibusMap s ((xma + BitVec.ofNat 32 i) &&& 0o777777)))
        r.data s.mem m := by
  have hlen : tapLenAt s.dev.tm s.dev.tm.pos = cbc := by
    rw [hitem.tapLenAt_front rfl, Item.length, hcount, BitVec.ofNat_toNat, BitVec.setWidth_eq]
  have hmax := hitem.item_length.2
  have hpos := r.nonempty
  have hfits := hitem.fits
  have hsize := Item.size_record r
  have hnz : cbc ≠ 0 := by
    rintro rfl
    rw [hcount] at hpos
    exact absurd hpos (by decide)
  rw [Item.length, hcount, BitVec.ofNat_toNat, BitVec.setWidth_eq] at hmax
  have hirrefl : ¬cbc < cbc := BitVec.lt_irrefl _
  let m : Mem := (List.range cbc.toNat).foldl (fun m i =>
    memStore.put m (memCell (unibusMap s ((xma + BitVec.ofNat 32 i) &&& 0o777777)))
      (s.dev.tm.tape.read (s.dev.tm.pos + 4 + BitVec.ofNat 32 i))) s.mem
  -- the loop reads the data bytes of the record in order
  have hdata : (List.range cbc.toNat).map (fun i =>
      s.dev.tm.tape.read (s.dev.tm.pos + 4 + BitVec.ofNat 32 i)) = r.data := by
    apply List.ext_getElem?
    intro i
    by_cases hi : i < cbc.toNat
    · have hbyte := hitem.bytes (4 + i) (by omega)
      have hkey : BitVec.ofNat 32 (s.dev.tm.pos.toNat + (4 + i)) =
          s.dev.tm.pos + 4 + BitVec.ofNat 32 i := by
        rw [BitVec.ofNat_add, BitVec.ofNat_add, BitVec.ofNat_toNat, BitVec.setWidth_eq,
          ← BitVec.add_assoc]
        rfl
      rw [Item.bytes_data r (by omega), hkey] at hbyte
      rw [List.getElem?_map, List.getElem?_range hi, hbyte]
      rfl
    · rw [List.getElem?_eq_none (by simpa using hi), List.getElem?_eq_none (by omega)]
  refine ⟨m, ?_, ?_⟩
  · have hloop := tmExecRead_loop s s.mem xma (s.dev.tm.pos + 4) cbc.toNat
    unfold tmExecRead
    dsimp only
    rw [hlen, if_neg hnz, if_neg hmax, if_neg hirrefl, if_neg hirrefl, hloop]
  · rw [← hdata]
    exact CellStore.Laid.foldl cbc.toNat _ (fun i j hi hj h => hdistinct i j hi hj
      (memCell_inj (unibusMap_lt _ _) (unibusMap_lt _ _) h)) s.mem

/-! ## Commands as a program gives them -/

/-- A value of MTC that starts a function, with the upper bits of a bus address. -/
structure Starts (func : Word) (addr : BitVec 18) (value : Word) : Prop where
  go : value &&& mtcGo ≠ 0
  init : value &&& mtcInit = 0
  func : tmGetFnc value = func
  ema : tmGetEma value = (addr.extractLsb' 16 2).setWidth 32 <<< 16

/-- Nothing has happened to the tape controller; its two registers that no command looks at may
have been used. -/
def TapeAlone (s u : Cpu) : Prop :=
  ∃ db rdl, u.dev.tm = { s.dev.tm with
    db := db
    rdl := rdl }

/-- The registers set for a function that transfers `n` bytes at a bus address. -/
def tmCommand (s : Cpu) (n : ℕ) (addr : BitVec 18) (value : Word) : Cpu :=
  let s := tmWrite s 0o172524 (BitVec.ofNat 16 (2 ^ 16 - n))
  let s := tmWrite s 0o172526 (addr.setWidth 16)
  tmWrite s 0o172522 value

/-- From `s` on a program has given a command, and in `v` it is due; all but the tape controller is
free to have changed. -/
structure Due (func : Word) (n : ℕ) (addr : BitVec 18) (s v : Cpu) : Prop where
  given : ∃ u value, TapeAlone s u ∧ Starts func addr value ∧
    TapeAlone (tmCommand u n addr value) v
  now : v.dev.tm.doneNs ≤ v.acct.timeNs

theorem tmGetEma_load (c value : Word) :
    tmGetEma ((c &&& ~~~mtcRw) ||| (value &&& mtcRw)) = tmGetEma value := by
  have hkept : ~~~mtcRw &&& mtcEma = 0 := by decide
  have hloaded : mtcRw &&& mtcEma = mtcEma := by decide
  unfold tmGetEma
  rw [BitVec.and_or_distrib_right, BitVec.and_assoc, BitVec.and_assoc, hkept, hloaded]
  simp

theorem tmGetEma_clearDone (c : Word) : tmGetEma (c &&& ~~~mtcDone) = tmGetEma c := by
  have hkept : ~~~mtcDone &&& mtcEma = mtcEma := by decide
  unfold tmGetEma
  rw [BitVec.and_assoc, hkept]

theorem busAddress_join (addr : BitVec 18) :
    ((addr.extractLsb' 16 2).setWidth 32 <<< 16) ||| (addr.setWidth 16).setWidth 32 =
      (addr.setWidth 32 : BitVec 32) := by
  apply BitVec.eq_of_getLsbD_eq
  intro i hi
  interval_cases i <;> simp

/-- The controller at work on a command, on the tape as it was. -/
structure Underway (func : Word) (n : ℕ) (addr : BitVec 18) (s v : Cpu) : Prop where
  tape : v.dev.tm.tape = s.dev.tm.tape
  tapeLen : v.dev.tm.tapeLen = s.dev.tm.tapeLen
  pos : v.dev.tm.pos = s.dev.tm.pos
  wrp : v.dev.tm.wrp = s.dev.tm.wrp
  busy : v.dev.tm.busy = true
  sta : v.dev.tm.sta = 0
  count : v.dev.tm.bc = BitVec.ofNat 16 (2 ^ 16 - n)
  func : tmGetFnc v.dev.tm.cmd = func
  address : tmGetEma v.dev.tm.cmd ||| v.dev.tm.ca.setWidth 32 = addr.setWidth 32

theorem tmCommand_underway {s : Cpu} {func : Word} {n : ℕ} {addr : BitVec 18} {value : Word}
    (hready : s.dev.tm.cmd &&& mtcDone ≠ 0) (htape : s.dev.tm.tape.isSome)
    (hwrp : s.dev.tm.wrp = false) (hfunc : func ≠ tmFncRewind) (h : Starts func addr value) :
    Underway func n addr s (tmCommand s n addr value) := by
  obtain ⟨hgo, hinit, hf, hema⟩ := h
  let s' : Cpu := { s with
    dev.tm.bc := BitVec.ofNat 16 (2 ^ 16 - n)
    dev.tm.ca := addr.setWidth 16 }
  obtain ⟨intReq, hmtc⟩ := tmWriteMtc_eq (s := s') hinit
  have hcommand : tmCommand s n addr value = tmWriteMtc s' value := rfl
  rw [hcommand, hmtc]
  dsimp only
  rw [if_pos ⟨hready, hgo⟩]
  have hload : tmGetFnc ((s.dev.tm.cmd &&& ~~~mtcRw) ||| (value &&& mtcRw)) = func :=
    (tmGetFnc_load _ _).trans hf
  have hnone : s.dev.tm.tape.isNone = false := by
    rw [Option.isNone_eq_false_iff]
    exact htape
  unfold tmGo
  dsimp only
  rw [hload, hnone, hwrp, if_neg (by simp), if_neg hfunc]
  refine ⟨rfl, rfl, rfl, hwrp.symm, rfl, rfl, rfl, ?_, ?_⟩
  · exact (tmGetFnc_clearDone _).trans hload
  · show tmGetEma (_ &&& ~~~mtcDone) ||| _ = _
    rw [tmGetEma_clearDone, tmGetEma_load, hema]
    exact busAddress_join addr

/-- A command that is due is at work. -/
theorem Due.underway {s v : Cpu} {func : Word} {n : ℕ} {addr : BitVec 18} (h : Due func n addr s v)
    (hready : s.dev.tm.cmd &&& mtcDone ≠ 0) (htape : s.dev.tm.tape.isSome)
    (hwrp : s.dev.tm.wrp = false) (hfunc : func ≠ tmFncRewind) : Underway func n addr s v := by
  obtain ⟨u, value, ⟨db, rdl, hu⟩, hstarts, db', rdl', hv⟩ := h.given
  have hunder := tmCommand_underway (s := u) (n := n) (by rw [hu]; exact hready)
    (by rw [hu]; exact htape) (by rw [hu]; exact hwrp) hfunc hstarts
  obtain ⟨h1, h2, h3, h4, h5, h6, h7, h8, h9⟩ := hunder
  rw [hu] at h1 h2 h3 h4
  refine ⟨?_, ?_, ?_, ?_, ?_, ?_, ?_, ?_, ?_⟩ <;> rw [hv] <;> assumption

theorem Due.poll {s v : Cpu} {func : Word} {n : ℕ} {addr : BitVec 18} (h : Due func n addr s v)
    (hv : Underway func n addr s v) : tmPoll v = (tmOperation func).perform v := by
  have hnow : ¬(!v.dev.tm.busy ∨ v.acct.timeNs < v.dev.tm.doneNs) := by
    rintro (hidle | hlt)
    · rw [hv.busy] at hidle
      cases hidle
    · exact absurd h.now (BitVec.not_le.2 hlt)
  rw [tmPoll_eq, tmPollOperation, if_neg hnow, hv.func]

theorem tmSetDone_tm (s : Cpu) : (tmSetDone s).dev.tm = { s.dev.tm with
    busy := false
    cmd := s.dev.tm.cmd ||| mtcDone } := by
  unfold tmSetDone
  dsimp only
  split <;> rfl

theorem tmSetDone_ready (s : Cpu) : (tmSetDone s).dev.tm.cmd &&& mtcDone ≠ 0 := by
  rw [tmSetDone_tm]
  show (s.dev.tm.cmd ||| mtcDone) &&& mtcDone ≠ 0
  rw [BitVec.and_comm, BitVec.and_or_distrib_left, BitVec.and_self]
  intro h
  have hbit := congrArg (fun x : Word => x.getLsbD 7) h
  simp at hbit

theorem byteCount_toNat {n : ℕ} (hn : 1 ≤ n) (hmax : n ≤ 65535) {tm : Tm11}
    (hbc : tm.bc = BitVec.ofNat 16 (2 ^ 16 - n)) : tmByteCount tm = BitVec.ofNat 32 n := by
  have hval : (tm.bc.setWidth 32).toNat = 2 ^ 16 - n := by
    rw [hbc, BitVec.toNat_setWidth, BitVec.toNat_ofNat]
    omega
  have hlit : (0o177777 : BitVec 32).toNat = 2 ^ 16 - 1 := rfl
  have hsub : (0o200000 - tm.bc.setWidth 32 : BitVec 32).toNat = n := by bv_omega
  apply BitVec.eq_of_toNat_eq
  rw [tmByteCount, BitVec.toNat_and, hlit, Nat.and_two_pow_sub_one_eq_mod, hsub,
    BitVec.toNat_ofNat]
  omega

section RoundTrip

variable {s v : Cpu} {n : ℕ} {addr : BitVec 18}

/-- What a due WRITE that fits does. -/
theorem Underway.write (h : Underway tmFncWrite n addr s v) {d : BitVec 32 → Byte}
    (htape : s.dev.tm.tape = some d) (hwrp : s.dev.tm.wrp = false) (hn : 0 < n) (hmax : n ≤ 65535)
    (hfits : s.dev.tm.pos.toNat + (8 + 2 * ((n + 1) / 2)) ≤ s.dev.tm.tapeLen.toNat) :
    ∃ d', (TapeOperation.write.perform v).dev.tm.tape = some d' ∧
      (TapeOperation.write.perform v).dev.tm.tapeLen = s.dev.tm.tapeLen ∧
      (TapeOperation.write.perform v).dev.tm.pos.toNat =
        s.dev.tm.pos.toNat + (8 + 2 * ((n + 1) / 2)) ∧
      (TapeOperation.write.perform v).dev.tm.wrp = false ∧
      (TapeOperation.write.perform v).dev.tm.cmd &&& mtcDone ≠ 0 ∧
      (TapeOperation.write.perform v).mem = v.mem ∧
      tapeStoreBytes.Laid (tapeKey s.dev.tm.pos)
        (Item.record (tapeRecord v (addr.setWidth 32) n hn)).bytes d d' := by
  have hcount := byteCount_toNat hn hmax h.count
  have hval : (BitVec.ofNat 32 n).toNat = n := by
    rw [BitVec.toNat_ofNat]
    omega
  have hsize := Item.size_record (tapeRecord v (addr.setWidth 32) n hn)
  have hdata : (tapeRecord v (addr.setWidth 32) n hn).data.length = n := length_tapeData _ _ _
  have hlen := s.dev.tm.tapeLen.isLt
  rw [hdata] at hsize
  have hrecord := tmExecWrite_laid (s := v) (addr.setWidth 32) (BitVec.ofNat 32 n)
    (h.tape.trans htape) (h.wrp.trans hwrp) (by omega) (by omega)
  simp only [hval] at hrecord
  rw [hsize, h.pos, h.tapeLen] at hrecord
  obtain ⟨d', hexec, hlaid⟩ := hrecord hfits
  have hperform : TapeOperation.write.perform v =
      tmSetDone (tmExecWrite v (addr.setWidth 32) (BitVec.ofNat 32 n)) := by
    show tmExecute v tmFncWrite = _
    rw [tmExecute_write, h.address, hcount]
  have hpad : tapPadded (BitVec.ofNat 32 n) = 2 * ((n + 1) / 2) := by
    rw [tapPadded_eq, hval]
    intro heq
    have hmax' := congrArg BitVec.toNat heq
    rw [hval] at hmax'
    simp only [BitVec.reduceToNat] at hmax'
    omega
  refine ⟨d', ?_, ?_, ?_, ?_, ?_, ?_, hlaid⟩
  · rw [hperform, tmSetDone_tm, hexec]
  · rw [hperform, tmSetDone_tm, hexec]
  · rw [hperform, tmSetDone_tm, hexec]
    show (tapPast s.dev.tm.pos (BitVec.ofNat 32 n)).toNat = _
    rw [tapPast_toNat (by omega), hpad, Nat.add_assoc]
  · rw [hperform, tmSetDone_tm, hexec]
    exact h.wrp.trans hwrp
  · rw [hperform]
    exact tmSetDone_ready _
  · rw [hperform, tmSetDone_mem, hexec]

theorem itemAt_congr {item : Item} {p : ℕ} {tm tm' : Tm11} (h : ItemAt item p tm)
    (htape : tm'.tape = tm.tape) (hlen : tm'.tapeLen = tm.tapeLen) : ItemAt item p tm' := by
  refine ⟨?_, ?_⟩
  · rw [hlen]
    exact h.fits
  · rw [htape]
    exact h.bytes

/-- What a due SPACE REVERSE does behind an item. -/
theorem Underway.spaceReverse (h : Underway tmFncSpacer n addr s v) {item : Item} {p : ℕ}
    (hitem : ItemAt item p s.dev.tm) (hpos : s.dev.tm.pos.toNat = p + item.size) :
    (TapeOperation.spaceReverse.perform v).dev.tm.tape = s.dev.tm.tape ∧
      (TapeOperation.spaceReverse.perform v).dev.tm.tapeLen = s.dev.tm.tapeLen ∧
      (TapeOperation.spaceReverse.perform v).dev.tm.pos.toNat = p ∧
      (TapeOperation.spaceReverse.perform v).dev.tm.wrp = s.dev.tm.wrp ∧
      (TapeOperation.spaceReverse.perform v).dev.tm.cmd &&& mtcDone ≠ 0 ∧
      (TapeOperation.spaceReverse.perform v).mem = v.mem := by
  have hperform : TapeOperation.spaceReverse.perform v = tmSetDone (tmExecSpacer v) :=
    tmExecute_spacer v
  have hmoved := tmExecSpacer_position v
  have hv : ItemAt item p v.dev.tm := itemAt_congr hitem h.tape h.tapeLen
  have hkept : (tmExecSpacer v).dev.tm.wrp = v.dev.tm.wrp ∧ (tmExecSpacer v).mem = v.mem := by
    unfold tmExecSpacer
    dsimp only
    split_ifs <;> exact ⟨rfl, rfl⟩
  rw [hperform, tmSetDone_mem]
  refine ⟨?_, ?_, ?_, ?_, tmSetDone_ready _, hkept.2⟩
  · rw [tmSetDone_tm]
    exact hmoved.tape.trans h.tape
  · rw [tmSetDone_tm]
    exact hmoved.tapeLen.trans h.tapeLen
  · rw [tmSetDone_tm]
    show (tmExecSpacer v).dev.tm.pos.toNat = p
    rw [hmoved.pos]
    apply hv.behind
    rw [h.pos]
    exact hpos
  · rw [tmSetDone_tm]
    exact hkept.1.trans h.wrp

/-- The dynamic bits of MTS report no record length error. -/
theorem tmStatus_rle {tm : Tm11} (h : tm.sta = 0) : tmStatus tm &&& staRle = 0 := by
  unfold tmStatus
  rw [h]
  dsimp only
  split_ifs <;> decide

/-- What a due READ of a whole record does before it. -/
theorem Underway.read (h : Underway tmFncRead n addr s v) (hmax : n ≤ 65535) {r : Record}
    (hitem : ItemAt (.record r) s.dev.tm.pos.toNat s.dev.tm) (hcount : r.data.length = n)
    (hdistinct : ∀ i j, i < n → j < n → tapeAddr v addr i = tapeAddr v addr j → i = j) :
    (TapeOperation.read.perform v).dev.tm.tape = s.dev.tm.tape ∧
      (TapeOperation.read.perform v).dev.tm.bc = 0 ∧
      tmStatus (TapeOperation.read.perform v).dev.tm &&& staRle = 0 ∧
      (TapeOperation.read.perform v).dev.tm.pos.toNat =
        s.dev.tm.pos.toNat + (8 + 2 * ((n + 1) / 2)) ∧
      memStore.Laid (fun i => memCell (tapeAddr v addr i)) r.data v.mem
        (TapeOperation.read.perform v).mem := by
  have hn : 1 ≤ n := by
    rw [← hcount]
    exact r.nonempty
  have hlen := byteCount_toNat hn hmax h.count
  have hval : (BitVec.ofNat 32 n).toNat = n := by
    rw [BitVec.toNat_ofNat]
    omega
  have hv : ItemAt (.record r) v.dev.tm.pos.toNat v.dev.tm := by
    rw [h.pos]
    exact itemAt_congr hitem h.tape h.tapeLen
  have hsize := Item.size_record r
  rw [hcount] at hsize
  have hread := tmExecRead_laid (addr.setWidth 32) (BitVec.ofNat 32 n) hv
    (hcount.trans hval.symm)
  rw [hval] at hread
  obtain ⟨m, hexec, hlaid⟩ := hread hdistinct
  have hperform : TapeOperation.read.perform v =
      tmSetDone (tmExecRead v (addr.setWidth 32) (BitVec.ofNat 32 n)) := by
    show tmExecute v tmFncRead = _
    rw [tmExecute_read, h.address, hlen]
  have hfits := hitem.fits
  have htape := s.dev.tm.tapeLen.isLt
  have hpad : tapPadded (BitVec.ofNat 32 n) = 2 * ((n + 1) / 2) := by
    have hmax' := hitem.item_length.2
    rw [Item.length, hcount] at hmax'
    rw [tapPadded_eq hmax', hval]
  rw [hperform, tmSetDone_mem, tmSetDone_tm, hexec]
  refine ⟨h.tape, ?_, ?_, ?_, hlaid⟩
  · show v.dev.tm.bc + (BitVec.ofNat 32 n).setWidth 16 = 0
    rw [h.count]
    apply BitVec.eq_of_toNat_eq
    rw [BitVec.toNat_add, BitVec.toNat_ofNat, BitVec.toNat_setWidth, hval]
    simp only [BitVec.ofNat_eq_ofNat, BitVec.toNat_zero]
    omega
  · exact tmStatus_rle h.sta
  · show (tapPast v.dev.tm.pos (BitVec.ofNat 32 n)).toNat = _
    rw [h.pos, tapPast_toNat (by omega), hpad, Nat.add_assoc]

end RoundTrip

/-- A record written, spaced back over and read: the bytes of memory from `dst` are those written
from `src`, and no others have changed; the count has run out, with no record length error; the
position is behind the record; and nothing else on the tape has changed. -/
theorem tape_write_then_read {s v₁ v₂ v₃ : Cpu} {n m : ℕ} {src spare dst : BitVec 18}
    (hready : s.dev.tm.cmd &&& mtcDone ≠ 0) (htape : s.dev.tm.tape.isSome)
    (hwrp : s.dev.tm.wrp = false) (hn : 1 ≤ n) (hmax : n ≤ 65535)
    (hfits : s.dev.tm.pos.toNat + (8 + 2 * ((n + 1) / 2)) ≤ s.dev.tm.tapeLen.toNat)
    (hwrite : Due tmFncWrite n src s v₁) (hspace : Due tmFncSpacer m spare (tmPoll v₁) v₂)
    (hread : Due tmFncRead n dst (tmPoll v₂) v₃)
    (hdistinct : ∀ i j, i < n → j < n → tapeAddr v₃ dst i = tapeAddr v₃ dst j → i = j) :
    (∀ i, i < n → memReadByte (tmPoll v₃).mem (tapeAddr v₃ dst i) =
      memReadByte v₁.mem (tapeAddr v₁ src i)) ∧
    (∀ pa : PhysAddr, pa.toNat < 2 ^ 22 → (∀ i, i < n → pa ≠ tapeAddr v₃ dst i) →
      memReadByte (tmPoll v₃).mem pa = memReadByte v₃.mem pa) ∧
    (tmPoll v₁).mem = v₁.mem ∧ (tmPoll v₂).mem = v₂.mem ∧
    (tmPoll v₃).dev.tm.bc = 0 ∧ tmStatus (tmPoll v₃).dev.tm &&& staRle = 0 ∧
    (tmPoll v₃).dev.tm.pos.toNat = s.dev.tm.pos.toNat + (8 + 2 * ((n + 1) / 2)) ∧
    ∀ i : BitVec 32, i.toNat < s.dev.tm.pos.toNat ∨
        s.dev.tm.pos.toNat + (8 + 2 * ((n + 1) / 2)) ≤ i.toNat →
      (tmPoll v₃).dev.tm.tape.read i = s.dev.tm.tape.read i := by
  obtain ⟨d, hd⟩ := Option.isSome_iff_exists.1 htape
  -- the write lays a record at the position
  have hv₁ := hwrite.underway hready htape hwrp (by decide)
  have hpoll₁ : tmPoll v₁ = TapeOperation.write.perform v₁ := hwrite.poll hv₁
  obtain ⟨d', htape₁, hlen₁, hpos₁, hwrp₁, hready₁, hmem₁, hlaid⟩ := hv₁.write hd hwrp hn hmax hfits
  rw [← hpoll₁] at htape₁ hlen₁ hpos₁ hwrp₁ hready₁ hmem₁
  let r := tapeRecord v₁ (src.setWidth 32) n hn
  have hdata : r.data.length = n := length_tapeData _ _ _
  have hsize : (Item.record r).size = 8 + 2 * ((n + 1) / 2) := by
    rw [Item.size_record, hdata]
  have hitem₁ : ItemAt (.record r) s.dev.tm.pos.toNat (tmPoll v₁).dev.tm := by
    apply itemAt_of_laid hlaid htape₁
    rw [hlen₁, hsize]
    exact hfits
  -- the spacing command goes back over it
  have hv₂ := hspace.underway hready₁ (by rw [htape₁]; rfl) hwrp₁ (by decide)
  have hpoll₂ : tmPoll v₂ = TapeOperation.spaceReverse.perform v₂ := hspace.poll hv₂
  obtain ⟨htape₂, hlen₂, hpos₂, hwrp₂, hready₂, hmem₂⟩ :=
    hv₂.spaceReverse hitem₁ (hpos₁.trans (by rw [hsize]))
  rw [← hpoll₂] at htape₂ hlen₂ hpos₂ hwrp₂ hready₂ hmem₂
  have hitem₂ : ItemAt (.record r) (tmPoll v₂).dev.tm.pos.toNat (tmPoll v₂).dev.tm := by
    rw [hpos₂]
    exact itemAt_congr hitem₁ htape₂ hlen₂
  -- the read meets it again
  have hv₃ := hread.underway hready₂ (by rw [htape₂, htape₁]; rfl) (hwrp₂.trans hwrp₁) (by decide)
  have hpoll₃ : tmPoll v₃ = TapeOperation.read.perform v₃ := hread.poll hv₃
  obtain ⟨htape₃, hbc, hrle, hpos₃, hmem₃⟩ := hv₃.read hmax hitem₂ hdata hdistinct
  rw [← hpoll₃] at htape₃ hbc hrle hpos₃ hmem₃
  refine ⟨?_, ?_, hmem₁, hmem₂, hbc, hrle, ?_, ?_⟩
  · intro i hi
    have hbyte := hmem₃.laid i (by omega)
    rw [memStore_get] at hbyte
    have hsource : r.data[i]? = some (memReadByte v₁.mem (tapeAddr v₁ src i)) := by
      show (tapeData v₁ (src.setWidth 32) n)[i]? = _
      rw [tapeData, List.getElem?_map, List.getElem?_range hi, Option.map_some, tmMemReadByte_eq]
      rfl
    rw [hsource] at hbyte
    exact (Option.some.inj hbyte).symm
  · intro pa hpa hother
    have hkept := hmem₃.kept (memCell pa) fun i hi heq => hother i (by omega)
      (memCell_inj hpa (unibusMap_lt _ _) heq)
    rwa [memStore_get, memStore_get] at hkept
  · rw [hpos₃, hpos₂]
  · intro i hi
    rw [htape₃, htape₂, htape₁, hd]
    apply hlaid.kept i
    intro k hk heq
    have hk' : k < 8 + 2 * ((n + 1) / 2) := by
      rw [← hsize]
      exact hk
    have hlen := s.dev.tm.tapeLen.isLt
    have hkey : (tapeKey s.dev.tm.pos k).toNat = s.dev.tm.pos.toNat + k :=
      toNat_add_lt (by omega)
    rw [heq, hkey] at hi
    omega

/-- A command given at once, and the time it is due. -/
def commanded (s : Cpu) (n : ℕ) (addr : BitVec 18) (value : Word) : Cpu :=
  let s := tmCommand s n addr value
  { s with acct.timeNs := s.dev.tm.doneNs }

theorem commanded_due {func : Word} {addr : BitVec 18} {value : Word} (s : Cpu) (n : ℕ)
    (h : Starts func addr value) : Due func n addr s (commanded s n addr value) :=
  ⟨⟨s, value, ⟨_, _, rfl⟩, h, _, _, rfl⟩, BitVec.le_refl _⟩

/-- Three bytes written from 1000, and read back at 2001. -/
def tapeWriting : Cpu := commanded tapeMachine 3 0o1000 0o5

def tapeSpacing : Cpu := commanded (tmPoll tapeWriting) 0 0 0o13

def tapeReading : Cpu := commanded (tmPoll tapeSpacing) 3 0o2001 0o3

theorem three_bytes_read_back :
    (List.range 3).map (fun i => memReadByte (tmPoll tapeReading).mem
        (tapeAddr tapeReading 0o2001 i)) =
      (List.range 3).map fun i => memReadByte tapeWriting.mem (tapeAddr tapeWriting 0o1000 i) := by
  apply List.map_congr_left
  intro i hi
  refine (tape_write_then_read (s := tapeMachine) (by decide) rfl rfl (by decide) (by decide)
    (by decide) (commanded_due _ 3 ⟨by decide, by decide, by decide, by decide⟩)
    (commanded_due _ 0 ⟨by decide, by decide, by decide, by decide⟩)
    (commanded_due _ 3 ⟨by decide, by decide, by decide, by decide⟩) ?_).1 i (List.mem_range.mp hi)
  intro i j hi hj
  interval_cases i <;> interval_cases j <;> decide

end Pdp11
