import Pdp11.Lib.ByteSequence
import Mathlib.Data.List.Basic

/-! Tapes of marks and of records that stand between two copies of their length. -/

namespace RecordTape

open ByteSequence

/-- A record: at least one byte of data, and what pads it to an even length. -/
structure Record where
  data : List (BitVec 8)
  pad : List (BitVec 8)
  nonempty : 0 < data.length
  padded : pad.length = data.length % 2

inductive Item
  | mark
  | record (r : Record)

namespace Item

/-- The length an item is framed with, 0 for a mark. -/
def length : Item → ℕ
  | mark => 0
  | record r => r.data.length

/-- The length field of an item. -/
def frame (item : Item) : List (BitVec 8) := littleEndian 4 (BitVec.ofNat 32 item.length)

def bytes (item : Item) : List (BitVec 8) :=
  match item with
  | mark => item.frame
  | record r => item.frame ++ (r.data ++ r.pad) ++ item.frame

def size (item : Item) : ℕ := item.bytes.length

@[simp] theorem length_frame (item : Item) : item.frame.length = 4 := length_littleEndian 4 _

theorem size_mark : size mark = 4 := length_frame mark

theorem size_record (r : Record) : size (record r) = 8 + 2 * ((r.data.length + 1) / 2) := by
  have hpad := r.padded
  simp only [size, bytes, List.length_append, length_frame]
  omega

theorem size_eq (item : Item) :
    item.size = if item.length = 0 then 4 else 8 + 2 * ((item.length + 1) / 2) := by
  cases item with
  | mark => exact size_mark
  | record r =>
    have hne : (record r).length ≠ 0 := Nat.ne_of_gt r.nonempty
    rw [if_neg hne, size_record]
    rfl

theorem four_le_size (item : Item) : 4 ≤ item.size := by
  rw [size_eq]
  split <;> omega

theorem size_even (item : Item) : item.size % 2 = 0 := by
  rw [size_eq]
  split <;> omega

/-- An item begins with its length field. -/
theorem bytes_front (item : Item) : item.bytes.take 4 = item.frame := by
  cases item with
  | mark => exact List.take_of_length_le (Nat.le_of_eq (length_frame _))
  | record r =>
    have hlen : (record r).frame.length = 4 := length_frame _
    rw [bytes, List.append_assoc, ← hlen, List.take_left']
    rfl

/-- An item ends with its length field. -/
theorem bytes_back (item : Item) : item.bytes.drop (item.size - 4) = item.frame := by
  cases item with
  | mark =>
    rw [size_mark]
    rfl
  | record r =>
    have hlen : (record r).size - 4 = ((record r).frame ++ (r.data ++ r.pad)).length := by
      simp only [size, bytes, List.length_append, length_frame]
      omega
    rw [hlen, bytes, List.drop_left']
    rfl

/-- The data of a record stand behind its first length field. -/
theorem bytes_data (r : Record) {i : ℕ} (hi : i < r.data.length) :
    (record r).bytes[4 + i]? = r.data[i]? := by
  have hlen : (record r).frame.length = 4 := length_frame _
  rw [bytes, List.append_assoc, List.getElem?_append_right (by omega), hlen,
    Nat.add_sub_cancel_left, List.append_assoc, List.getElem?_append_left hi]

end Item

/-- The image of a tape. -/
def image (items : List Item) : List (BitVec 8) := (items.map Item.bytes).flatten

variable {items before after : List Item} {item : Item} {p q : ℕ}

theorem image_append (xs ys : List Item) : image (xs ++ ys) = image xs ++ image ys := by
  simp [image]

theorem image_cons (item : Item) (items : List Item) :
    image (item :: items) = item.bytes ++ image items := rfl

theorem image_length_even (items : List Item) : (image items).length % 2 = 0 := by
  induction items with
  | nil => rfl
  | cons item items ih =>
    have hsize : item.bytes.length % 2 = 0 := item.size_even
    rw [image_cons, List.length_append]
    omega

/-- A position between two items, or at an end of the tape. -/
def Boundary (items : List Item) (p : ℕ) : Prop :=
  ∃ before after, items = before ++ after ∧ p = (image before).length

theorem boundary_zero (items : List Item) : Boundary items 0 := ⟨[], items, rfl, rfl⟩

theorem Boundary.le (h : Boundary items p) : p ≤ (image items).length := by
  obtain ⟨before, after, rfl, rfl⟩ := h
  rw [image_append, List.length_append]
  omega

/-- Two boundaries are at least the four bytes of a mark apart. -/
theorem Boundary.apart (hp : Boundary items p) (hq : Boundary items q) (h : p < q) : p + 4 ≤ q := by
  obtain ⟨before, after, rfl, rfl⟩ := hp
  obtain ⟨before', after', heq, rfl⟩ := hq
  rcases List.append_eq_append_iff.1 heq with ⟨mid, rfl, -⟩ | ⟨mid, rfl, -⟩
  · cases mid with
    | nil => simp at h
    | cons item mid =>
      have hsize : 4 ≤ item.bytes.length := item.four_le_size
      rw [image_append, image_cons, List.length_append, List.length_append]
      omega
  · rw [image_append, List.length_append] at h
    omega

theorem boundary_before (h : items = before ++ item :: after) :
    Boundary items (image before).length := ⟨before, item :: after, h, rfl⟩

theorem boundary_after (h : items = before ++ item :: after) :
    Boundary items ((image before).length + item.size) := by
  refine ⟨before ++ [item], after, by simp [h], ?_⟩
  rw [image_append, List.length_append, image_cons, List.length_append]
  rfl

/-- A boundary before the end has an item after it. -/
theorem Boundary.item_after (h : Boundary items p) (hp : p < (image items).length) :
    ∃ before item after, items = before ++ item :: after ∧ p = (image before).length := by
  obtain ⟨before, after, rfl, rfl⟩ := h
  cases after with
  | nil => simp at hp
  | cons item after => exact ⟨before, item, after, rfl, rfl⟩

/-- A boundary other than the beginning has an item before it. -/
theorem Boundary.item_before (h : Boundary items p) (hp : p ≠ 0) :
    ∃ before item after, items = before ++ item :: after ∧
      p = (image before).length + item.size := by
  obtain ⟨before, after, rfl, rfl⟩ := h
  rcases List.eq_nil_or_concat before with rfl | ⟨before, item, rfl⟩
  · exact absurd rfl hp
  · refine ⟨before, item, after, by simp, ?_⟩
    rw [List.concat_eq_append, image_append, List.length_append, image_cons, List.length_append]
    rfl

/-- The bytes of an item stand after those of the items before it. -/
theorem image_getElem? (h : items = before ++ item :: after) {i : ℕ} (hi : i < item.size) :
    (image items)[(image before).length + i]? = item.bytes[i]? := by
  have hlen : i < item.bytes.length := hi
  rw [h, image_append, List.getElem?_append_right (Nat.le_add_right _ _), Nat.add_sub_cancel_left,
    image_cons, List.getElem?_append_left hlen]

/-! ## Spacing -/

def Item.isRecord : Item → Bool
  | mark => false
  | record _ => true

/-- The records before the next mark or the end of the tape. -/
def recordsAhead (items : List Item) : ℕ := (items.takeWhile Item.isRecord).length

/-- The items that spacing over `n` records passes: `n` records, or those up to the next mark and
the mark, or those up to the end. -/
def spaced (n : ℕ) (items : List Item) : List Item :=
  items.take (if n ≤ recordsAhead items then n else recordsAhead items + 1)

@[simp] theorem recordsAhead_mark : recordsAhead (.mark :: items) = 0 := rfl

@[simp] theorem recordsAhead_record (r : Record) :
    recordsAhead (.record r :: items) = recordsAhead items + 1 := rfl

theorem spaced_zero (items : List Item) : spaced 0 items = [] := by
  rw [spaced, if_pos (Nat.zero_le _), List.take_zero]

theorem spaced_nil (n : ℕ) : spaced n [] = [] := List.take_nil

/-- A mark stops a count that is not used up. -/
theorem spaced_mark {n : ℕ} (hn : 0 < n) : spaced n (.mark :: items) = [.mark] := by
  rw [spaced, recordsAhead_mark, if_neg (by omega)]
  rfl

/-- A record uses up one of the count. -/
theorem spaced_record (n : ℕ) (r : Record) :
    spaced (n + 1) (.record r :: items) = .record r :: spaced n items := by
  rw [spaced, spaced, recordsAhead_record]
  by_cases h : n ≤ recordsAhead items
  · rw [if_pos h, if_pos (by omega), List.take_succ_cons]
  · rw [if_neg h, if_neg (by omega), List.take_succ_cons]

theorem spaced_eq_nil {n : ℕ} : spaced n items = [] ↔ n = 0 ∨ items = [] := by
  cases n with
  | zero => simp [spaced_zero]
  | succ n =>
    cases items with
    | nil => simp [spaced_nil]
    | cons item items =>
      cases item with
      | mark => simp [spaced_mark]
      | record r => simp [spaced_record]

theorem image_length_eq_zero : (image items).length = 0 ↔ items = [] := by
  cases items with
  | nil => simp [image]
  | cons item items =>
    have hsize : 4 ≤ item.bytes.length := item.four_le_size
    rw [image_cons, List.length_append]
    simp only [reduceCtorEq, iff_false]
    omega

end RecordTape
