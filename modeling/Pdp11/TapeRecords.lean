import Pdp11.TapeBounds
import Pdp11.Lib.RecordTape
import Mathlib.Tactic.NormNum

namespace Pdp11

open ByteSequence RecordTape

/-! A record or a mark in the tape buffer, and the position before and after it. -/

/-! ## Lengths -/

/-- Four bytes, lowest first, joined as `tap_len_at` joins them. -/
theorem join_toNat (b0 b1 b2 b3 : Byte) :
    (b0.setWidth 32 ||| (b1.setWidth 32 <<< 8) ||| (b2.setWidth 32 <<< 16) |||
      (b3.setWidth 32 <<< 24)).toNat =
      b0.toNat + 2 ^ 8 * b1.toNat + 2 ^ 16 * b2.toNat + 2 ^ 24 * b3.toNat := by
  have h0 := b0.isLt
  have h1 := b1.isLt
  have h2 := b2.isLt
  have h3 := b3.isLt
  have hshift (b : Byte) (k : ℕ) (hk : k ≤ 24) :
      ((b.setWidth 32 : BitVec 32) <<< k).toNat = b.toNat <<< k := by
    have hb := b.isLt
    have hpow : 2 ^ k ≤ 2 ^ 24 := Nat.pow_le_pow_right (by omega) hk
    have hwide : b.toNat % 2 ^ 32 = b.toNat := Nat.mod_eq_of_lt (by omega)
    rw [BitVec.toNat_shiftLeft, BitVec.toNat_setWidth, hwide, Nat.shiftLeft_eq]
    refine Nat.mod_eq_of_lt ?_
    calc b.toNat * 2 ^ k < 2 ^ 8 * 2 ^ 24 := by
          exact Nat.mul_lt_mul_of_lt_of_le hb hpow (by omega)
      _ = 2 ^ 32 := by norm_num
  have hwidth : (b0.setWidth 32 : BitVec 32).toNat = b0.toNat := by
    rw [BitVec.toNat_setWidth]
    omega
  have e1 : b0.toNat ||| b1.toNat <<< 8 = b1.toNat <<< 8 + b0.toNat := by
    rw [Nat.or_comm, ← Nat.shiftLeft_add_eq_or_of_lt (by omega)]
  have hs (n k : ℕ) : n <<< k = n * 2 ^ k := Nat.shiftLeft_eq n k
  have e2 : (b1.toNat <<< 8 + b0.toNat) ||| b2.toNat <<< 16 =
      b2.toNat <<< 16 + (b1.toNat <<< 8 + b0.toNat) := by
    rw [Nat.or_comm, ← Nat.shiftLeft_add_eq_or_of_lt (by rw [hs]; omega)]
  have e3 : (b2.toNat <<< 16 + (b1.toNat <<< 8 + b0.toNat)) ||| b3.toNat <<< 24 =
      b3.toNat <<< 24 + (b2.toNat <<< 16 + (b1.toNat <<< 8 + b0.toNat)) := by
    rw [Nat.or_comm, ← Nat.shiftLeft_add_eq_or_of_lt (by rw [hs, hs]; omega)]
  rw [BitVec.toNat_or, BitVec.toNat_or, BitVec.toNat_or, hshift b1 8 (by omega),
    hshift b2 16 (by omega), hshift b3 24 (by omega), hwidth, e1, e2, e3, hs, hs, hs]
  omega

theorem join_littleEndian (x : BitVec 32) :
    (((x >>> (8 * 0)).setWidth 8 : Byte).setWidth 32 |||
      (((x >>> (8 * 1)).setWidth 8 : Byte).setWidth 32 <<< 8) |||
      (((x >>> (8 * 2)).setWidth 8 : Byte).setWidth 32 <<< 16) |||
      (((x >>> (8 * 3)).setWidth 8 : Byte).setWidth 32 <<< 24)) = x := by
  apply BitVec.eq_of_toNat_eq
  have hx := x.isLt
  have hbyte (k : ℕ) : ((x >>> k).setWidth 8 : Byte).toNat = x.toNat / 2 ^ k % 2 ^ 8 := by
    rw [BitVec.toNat_setWidth, BitVec.toNat_ushiftRight, Nat.shiftRight_eq_div_pow]
  rw [join_toNat, hbyte, hbyte, hbyte, hbyte]
  omega

/-- A length that stands in the buffer as it was written. -/
theorem tapLenAt_of_bytes {tm : Tm11} {idx x : BitVec 32} (hfits : idx.toNat + 4 ≤ tm.tapeLen.toNat)
    (hread : ∀ k, k < 4 → tm.tape.read (idx + BitVec.ofNat 32 k) = (x >>> (8 * k)).setWidth 8) :
    tapLenAt tm idx = x := by
  have hlen := tm.tapeLen.isLt
  have hinside : ¬tm.tapeLen < idx + 4 := by
    intro hlt
    have hsum : (idx + 4).toNat = (idx.toNat + 4) % 2 ^ 32 := BitVec.toNat_add _ _
    rw [BitVec.lt_def, hsum] at hlt
    omega
  have h0 : tm.tape.read idx = (x >>> (8 * 0)).setWidth 8 := by
    have h0 := hread 0 (by omega)
    rwa [BitVec.add_zero] at h0
  have h1 : tm.tape.read (idx + 1) = (x >>> (8 * 1)).setWidth 8 := hread 1 (by omega)
  have h2 : tm.tape.read (idx + 2) = (x >>> (8 * 2)).setWidth 8 := hread 2 (by omega)
  have h3 : tm.tape.read (idx + 3) = (x >>> (8 * 3)).setWidth 8 := hread 3 (by omega)
  rw [tapLenAt, if_neg hinside, h0, h1, h2, h3]
  exact join_littleEndian x

/-- An item stands in the image at offset `p`. -/
structure ItemAt (item : Item) (p : ℕ) (tm : Tm11) : Prop where
  fits : p + item.size ≤ tm.tapeLen.toNat
  bytes : ∀ i, i < item.size → item.bytes[i]? = some (tm.tape.read (BitVec.ofNat 32 (p + i)))

namespace ItemAt

variable {item : Item} {p : ℕ} {tm : Tm11} (h : ItemAt item p tm)
include h

/-- A length field of an item is read as it was written. -/
theorem tapLenAt_eq {i : ℕ} {idx : BitVec 32} (hidx : idx.toNat = p + i) (hi : i + 4 ≤ item.size)
    (hframe : (item.bytes.drop i).take 4 = item.frame) :
    tapLenAt tm idx = BitVec.ofNat 32 item.length := by
  have hfits := h.fits
  apply tapLenAt_of_bytes (by omega)
  intro k hk
  have hpos : idx + BitVec.ofNat 32 k = BitVec.ofNat 32 (p + (i + k)) := by
    apply BitVec.eq_of_toNat_eq
    rw [BitVec.toNat_add, BitVec.toNat_ofNat, BitVec.toNat_ofNat, hidx]
    omega
  have hbyte := h.bytes (i + k) (by omega)
  have hk' := congrArg (fun l : List Byte => l[k]?) hframe
  simp only [List.getElem?_take_of_lt hk, List.getElem?_drop, Item.frame, littleEndian,
    List.getElem?_map, List.getElem?_range hk, Option.map_some] at hk'
  rw [hpos]
  exact Option.some.inj (hbyte.symm.trans hk')

theorem tapLenAt_front {idx : BitVec 32} (hidx : idx.toNat = p) :
    tapLenAt tm idx = BitVec.ofNat 32 item.length := by
  have h4 := item.four_le_size
  apply h.tapLenAt_eq (i := 0) hidx (by omega)
  rw [List.drop_zero]
  exact item.bytes_front

theorem tapLenAt_back {idx : BitVec 32} (hidx : idx.toNat = p + (item.size - 4)) :
    tapLenAt tm idx = BitVec.ofNat 32 item.length := by
  have h4 := item.four_le_size
  apply h.tapLenAt_eq hidx (by omega)
  rw [item.bytes_back]
  exact List.take_of_length_le (Nat.le_of_eq item.length_frame)

/-- An item's length fits in 32 bits, and is not the one that stands for the end. -/
theorem item_length : (BitVec.ofNat 32 item.length).toNat = item.length ∧
    BitVec.ofNat 32 item.length ≠ 0xFFFFFFFF := by
  have hlt := tm.tapeLen.isLt
  have hfits := h.fits
  have hsize := item.size_eq
  have hlen : item.length < 2 ^ 32 - 8 := by
    split at hsize <;> omega
  have hval : (BitVec.ofNat 32 item.length).toNat = item.length := by
    rw [BitVec.toNat_ofNat]
    omega
  refine ⟨hval, fun heq => ?_⟩
  have hmax := congrArg BitVec.toNat heq
  rw [hval] at hmax
  simp only [BitVec.reduceToNat] at hmax
  omega

/-- A mark is read as the length 0 and takes four bytes; a record takes its padded data and two
lengths. -/
theorem item_cases : (BitVec.ofNat 32 item.length = 0 ∧ item.size = 4) ∨
    (BitVec.ofNat 32 item.length ≠ 0 ∧
      8 + tapPadded (BitVec.ofNat 32 item.length) = item.size) := by
  obtain ⟨hval, hmax⟩ := h.item_length
  have hsize := item.size_eq
  by_cases h0 : item.length = 0
  · rw [if_pos h0] at hsize
    refine .inl ⟨?_, hsize⟩
    rw [h0]
    rfl
  · rw [if_neg h0] at hsize
    refine .inr ⟨fun heq => ?_, ?_⟩
    · rw [heq] at hval
      exact h0 hval.symm
    · rw [tapPadded_eq hmax, hval, hsize]

/-- A forward command moves past the item. -/
theorem ahead (hpos : tm.pos.toNat = p) :
    (tapeAhead tm).toNat = p + item.size := by
  have hlt := tm.tapeLen.isLt
  have hfits := h.fits
  unfold tapeAhead
  dsimp only
  rw [h.tapLenAt_front hpos]
  obtain ⟨hmark, hsize⟩ | ⟨hrecord, hsize⟩ := h.item_cases
  · have hsum : (tm.pos + 4).toNat = tm.pos.toNat + 4 := toNat_add_lt (n := 4) (by omega)
    rw [if_pos hmark, hsum, hpos, hsize]
  · rw [if_neg hrecord, if_neg h.item_length.2, tapPast_toNat (by omega), hpos]
    omega

/-- A SPACE REVERSE moves back over the item. -/
theorem behind (hpos : tm.pos.toNat = p + item.size) : (tapeBehind tm).toNat = p := by
  have hlt := tm.tapeLen.isLt
  have hfits := h.fits
  have h4 := item.four_le_size
  have hsub : (tm.pos - 4).toNat = p + (item.size - 4) := by bv_omega
  have hne : tm.pos ≠ 0 := by
    intro heq
    rw [heq] at hpos
    simp only [BitVec.reduceToNat] at hpos
    omega
  unfold tapeBehind
  dsimp only
  rw [h.tapLenAt_back hsub, if_neg hne]
  obtain ⟨hmark, hsize⟩ | ⟨hrecord, hsize⟩ := h.item_cases
  · rw [if_pos hmark]
    omega
  · rw [if_neg hrecord]
    unfold tapPadded at hsize
    generalize (BitVec.ofNat 32 item.length + 1) &&& ~~~1 = p at hsize ⊢
    bv_omega

end ItemAt

end Pdp11
