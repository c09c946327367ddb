import Mathlib.Algebra.Group.Nat.Defs
import Mathlib.Data.List.TakeWhile
import Mathlib.Data.Nat.Notation
import Mathlib.Tactic.Common

/-! Text as the C library reads and prints it: numbers, words and lines. -/

namespace CText

/-- `isspace` in the C locale. -/
def isSpace (c : Char) : Bool := c = ' ' ∨ (9 ≤ c.toNat ∧ c.toNat ≤ 13)

/-- A buffer as a string: what stands before its first NUL. -/
def cString (s : List Char) : List Char := s.takeWhile fun c => c.toNat ≠ 0

/-! ## Numbers -/

/-- A digit of a base up to ten. -/
def isDigitOf (base : ℕ) (c : Char) : Bool := 48 ≤ c.toNat ∧ c.toNat < 48 + base

/-- An optional sign: whether it was a minus, and what follows. -/
def stripSign : List Char → Bool × List Char
  | '-' :: s => (true, s)
  | '+' :: s => (false, s)
  | s => (false, s)

/-- `strtoul` with a 64-bit result, in a base up to ten; out of range it is all ones. -/
def strtoul (base : ℕ) (s : List Char) : BitVec 64 :=
  let s := stripSign (s.dropWhile isSpace)
  let value := Nat.ofDigitChars base (s.2.takeWhile (isDigitOf base)) 0
  if 2 ^ 64 ≤ value then BitVec.allOnes 64
  else if s.1 then -BitVec.ofNat 64 value
  else BitVec.ofNat 64 value

/-- `%o` and `%d` of a number that is not negative. -/
def numeral (base n : ℕ) : List Char := Nat.toDigits base n

/-- `%0wo`: at least `w` digits. -/
def padded (base w n : ℕ) : List Char :=
  List.replicate (w - (numeral base n).length) '0' ++ numeral base n

variable {base n w : ℕ}

theorem isDigitOf_digitChar (hbase : base ≤ 10) (h : n < base) :
    isDigitOf base n.digitChar = true := by
  have hall : ∀ b ≤ 10, ∀ k < b, isDigitOf b k.digitChar = true := by decide
  exact hall base hbase n h

theorem isDigitOf_numeral (hbase : 1 < base) (hten : base ≤ 10) (n : ℕ) :
    ∀ c ∈ numeral base n, isDigitOf base c = true := by
  induction n using Nat.strongRecOn with
  | ind n ih =>
    intro c hc
    unfold numeral at hc
    by_cases hn : n < base
    · rw [Nat.toDigits_of_lt_base hn, List.mem_singleton] at hc
      rw [hc]
      exact isDigitOf_digitChar hten hn
    · rw [Nat.toDigits_of_base_le hbase (Nat.le_of_not_lt hn), List.mem_append,
        List.mem_singleton] at hc
      obtain hc | hc := hc
      · exact ih (n / base) (Nat.div_lt_self (by omega) hbase) c hc
      · rw [hc]
        exact isDigitOf_digitChar hten (Nat.mod_lt n (by omega))

theorem numeral_ne_nil (base n : ℕ) : numeral base n ≠ [] := Nat.toDigits_ne_nil

theorem not_space_of_digit {c : Char} (h : isDigitOf base c = true) : isSpace c = false := by
  simp only [isDigitOf, decide_eq_true_eq] at h
  simp only [isSpace, decide_eq_false_iff_not, not_or, not_and]
  refine ⟨?_, fun _ => by omega⟩
  rintro rfl
  exact absurd h.1 (by decide)

/-- A string of digits that starts with no sign and no blank is read as a whole. -/
theorem strtoul_digits {s : List Char} (hs : ∀ c ∈ s, isDigitOf base c = true)
    (hlt : Nat.ofDigitChars base s 0 < 2 ^ 64) :
    strtoul base s = BitVec.ofNat 64 (Nat.ofDigitChars base s 0) := by
  have hblank : s.dropWhile isSpace = s := by
    cases s with
    | nil => rfl
    | cons c s => simp [not_space_of_digit (hs c List.mem_cons_self)]
  have hsign : stripSign s = (false, s) := by
    cases s with
    | nil => rfl
    | cons c s =>
      have hc := hs c List.mem_cons_self
      simp only [isDigitOf, decide_eq_true_eq] at hc
      have hplus : c ≠ '+' := by
        rintro rfl
        exact absurd hc.1 (by decide)
      have hminus : c ≠ '-' := by
        rintro rfl
        exact absurd hc.1 (by decide)
      unfold stripSign
      split
      · next heq => exact absurd (List.cons.inj heq).1 hminus
      · next heq => exact absurd (List.cons.inj heq).1 hplus
      · rfl
  have htake : s.takeWhile (isDigitOf base) = s := List.takeWhile_eq_self_iff.2 hs
  unfold strtoul
  dsimp only
  rw [hblank, hsign, htake, if_neg (by omega)]
  rfl

/-- Numbers are read back as they were printed. -/
theorem strtoul_numeral (hbase : 1 < base) (hten : base ≤ 10) (hn : n < 2 ^ 64) :
    strtoul base (numeral base n) = BitVec.ofNat 64 n := by
  have hvalue : Nat.ofDigitChars base (numeral base n) 0 = n :=
    Nat.ofDigitChars_toDigits hbase hten
  rw [strtoul_digits (isDigitOf_numeral hbase hten n) (by rwa [hvalue]), hvalue]

theorem ofDigitChars_padded (hbase : 1 < base) (hten : base ≤ 10) (w n : ℕ) :
    Nat.ofDigitChars base (padded base w n) 0 = n := by
  rw [padded, Nat.ofDigitChars_append, Nat.ofDigitChars_replicate_zero, Nat.mul_zero]
  exact Nat.ofDigitChars_toDigits hbase hten

/-- Numbers printed with leading zeros differ when the numbers do. -/
theorem padded_inj (hbase : 1 < base) (hten : base ≤ 10) {m : ℕ}
    (h : padded base w m = padded base w n) : m = n := by
  have hvalue := congrArg (fun s => Nat.ofDigitChars base s 0) h
  rwa [ofDigitChars_padded hbase hten, ofDigitChars_padded hbase hten] at hvalue

theorem isDigitOf_padded (hbase : 1 < base) (hten : base ≤ 10) (w n : ℕ) :
    ∀ c ∈ padded base w n, isDigitOf base c = true := by
  intro c hc
  rw [padded, List.mem_append, List.mem_replicate] at hc
  obtain ⟨-, rfl⟩ | hc := hc
  · exact isDigitOf_digitChar (n := 0) hten (by omega)
  · exact isDigitOf_numeral hbase hten n c hc

/-! ## Words -/

/-- One `%Ns` of `sscanf`: the next word, cut at `width`, and the rest; none at the end. -/
def scanWord (width : ℕ) (s : List Char) : Option (List Char × List Char) :=
  let s := s.dropWhile isSpace
  if s = [] then none
  else
    let word := (s.take width).takeWhile fun c => !isSpace c
    some (word, s.drop word.length)

/-- The words `sscanf` assigns for a format of `%Ns` conversions. -/
def scanWords : List ℕ → List Char → List (List Char)
  | [], _ => []
  | width :: widths, s =>
    ((scanWord width s).map fun r => r.1 :: scanWords widths r.2).getD []

/-- A text that one conversion of `width` reads as a whole. -/
structure IsWord (width : ℕ) (t : List Char) : Prop where
  ne_nil : t ≠ []
  plain : ∀ c ∈ t, isSpace c = false
  fits : t.length ≤ width

theorem scanWord_word {width : ℕ} {t : List Char} (ht : IsWord width t) {c : Char}
    (hc : isSpace c = true) (rest : List Char) :
    scanWord width (t ++ c :: rest) = some (t, c :: rest) := by
  have hblank : (t ++ c :: rest).dropWhile isSpace = t ++ c :: rest := by
    obtain ⟨a, t', rfl⟩ := List.exists_cons_of_ne_nil ht.ne_nil
    simp [ht.plain a List.mem_cons_self]
  have hword : ((t ++ c :: rest).take width).takeWhile (fun c => !isSpace c) = t := by
    have hsplit : (t ++ c :: rest).take width = t ++ (c :: rest).take (width - t.length) := by
      rw [List.take_append, List.take_of_length_le ht.fits]
    rw [hsplit, List.takeWhile_append_of_pos fun d hd => by simp [ht.plain d hd]]
    cases width - t.length <;> simp [hc]
  unfold scanWord
  dsimp only
  rw [hblank, if_neg (by simp), hword, List.drop_left]

theorem scanWords_blank {c : Char} (hc : isSpace c = true) (widths : List ℕ) (s : List Char) :
    scanWords widths (c :: s) = scanWords widths s := by
  cases widths with
  | nil => rfl
  | cons width widths => simp [scanWords, scanWord, hc]

theorem scanWords_cons {width : ℕ} {widths : List ℕ} {t : List Char} (ht : IsWord width t)
    {c : Char} (hc : isSpace c = true) (rest : List Char) :
    scanWords (width :: widths) (t ++ c :: rest) = t :: scanWords widths rest := by
  rw [scanWords, scanWord_word ht hc]
  exact congrArg (t :: ·) (scanWords_blank hc widths rest)

@[simp] theorem scanWords_nil (widths : List ℕ) : scanWords widths [] = [] := by
  cases widths <;> rfl

/-! ## Files -/

/-- A byte as the C library reads it. -/
def byteChar (b : BitVec 8) : Char := Char.ofNat b.toNat

/-- The bytes of a text in a file, in UTF-8. -/
def fileBytes (text : List Char) : List (BitVec 8) :=
  text.flatMap fun c => (String.utf8EncodeChar c).map UInt8.toBitVec

/-- A byte is a character where the text is ASCII. -/
theorem map_byteChar_fileBytes {text : List Char} (h : ∀ c ∈ text, c.toNat < 128) :
    (fileBytes text).map byteChar = text := by
  induction text with
  | nil => rfl
  | cons c text ih =>
    have hc := h c List.mem_cons_self
    have hsize : c.utf8Size = 1 := by
      rw [Char.utf8Size, if_pos]
      exact UInt32.le_iff_toNat_le.2 (Nat.le_of_lt_succ hc)
    have hbyte : byteChar c.val.toUInt8.toBitVec = c := by
      have hval : c.val.toUInt8.toBitVec.toNat = c.toNat % 256 := rfl
      rw [byteChar, hval, Nat.mod_eq_of_lt (by omega), Char.ofNat_toNat]
    have hrest := ih fun d hd => h d (List.mem_cons_of_mem c hd)
    rw [fileBytes, List.flatMap_cons, String.utf8EncodeChar_eq_singleton hsize, ← fileBytes,
      List.map_append, hrest]
    exact congrArg (· :: text) hbyte

/-! ## Lines -/

/-- The strings that successive calls of `fgets` return for a buffer of `size` bytes, the first of
which has read `cur` so far. -/
def fgetsAll (size : ℕ) (cur : List Char) : List Char → List (List Char)
  | [] => if cur = [] then [] else [cur]
  | c :: s =>
    if c = '\n' ∨ cur.length + 2 = size then (cur ++ [c]) :: fgetsAll size [] s
    else fgetsAll size (cur ++ [c]) s

theorem fgetsAll_line {size : ℕ} (l : List Char) (hl : '\n' ∉ l) (s : List Char) :
    ∀ cur : List Char, cur.length + l.length + 2 ≤ size →
      fgetsAll size cur (l ++ '\n' :: s) = (cur ++ l ++ ['\n']) :: fgetsAll size [] s := by
  induction l with
  | nil =>
    intro cur _
    simp [fgetsAll]
  | cons c l ih =>
    intro cur hfits
    rw [List.length_cons] at hfits
    rw [List.mem_cons, not_or] at hl
    have hmore : ¬(c = '\n' ∨ cur.length + 2 = size) := by
      rintro (h | h)
      · exact hl.1 h.symm
      · omega
    rw [List.cons_append, fgetsAll, if_neg hmore, ih hl.2 (cur ++ [c])]
    · simp
    · rw [List.length_append, List.length_singleton]
      omega

/-- Lines that fit the buffer are returned one by one. -/
theorem fgetsAll_lines {size : ℕ} (ls : List (List Char))
    (hls : ∀ l ∈ ls, '\n' ∉ l ∧ l.length + 2 ≤ size) :
    fgetsAll size [] (ls.flatMap (· ++ ['\n'])) = ls.map (· ++ ['\n']) := by
  induction ls with
  | nil => rfl
  | cons l ls ih =>
    obtain ⟨hl, hfits⟩ := hls l List.mem_cons_self
    rw [List.flatMap_cons, List.append_assoc, List.singleton_append,
      fgetsAll_line l hl _ [] (by simpa using hfits), List.map_cons,
      ih fun k hk => hls k (List.mem_cons_of_mem l hk)]
    rfl

end CText
