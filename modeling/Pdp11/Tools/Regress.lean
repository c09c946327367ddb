import Mathlib.Data.List.DropRight
import Pdp11.Frontend.Headless

namespace Pdp11.Regress

open CText

/-! The golden check of the state dumps. -/

/-! ## Python's lines and blanks -/

/-- `str.isspace` of one character. -/
def pySpace (c : Char) : Bool :=
  (9 ≤ c.toNat ∧ c.toNat ≤ 13) ∨ (28 ≤ c.toNat ∧ c.toNat ≤ 32) ∨ c.toNat = 0x85 ∨ c.toNat = 0xA0 ∨
    c.toNat = 0x1680 ∨ (0x2000 ≤ c.toNat ∧ c.toNat ≤ 0x200A) ∨ c.toNat = 0x2028 ∨
    c.toNat = 0x2029 ∨ c.toNat = 0x202F ∨ c.toNat = 0x205F ∨ c.toNat = 0x3000

/-- The characters that end a line for `str.splitlines`. -/
def lineBreak (c : Char) : Bool :=
  (10 ≤ c.toNat ∧ c.toNat ≤ 13) ∨ (28 ≤ c.toNat ∧ c.toNat ≤ 30) ∨ c.toNat = 0x85 ∨
    c.toNat = 0x2028 ∨ c.toNat = 0x2029

/-- `str.splitlines`, inside a line that starts with `cur`. -/
def splitLines (cur : List Char) : List Char → List (List Char)
  | [] => if cur = [] then [] else [cur]
  | '\r' :: '\n' :: s => cur :: splitLines [] s
  | c :: s => if lineBreak c then cur :: splitLines [] s else splitLines (cur ++ [c]) s

/-- `str.rstrip` -/
def rstrip (l : List Char) : List Char := l.rdropWhile pySpace

def normalize (text : List Char) : List (List Char) :=
  ((splitLines [] text).filter fun l => !l.all pySpace).map rstrip

/-- Whether `main` accepts what the frontend prints for an image. -/
def goldenPasses (image : List Byte) (golden : List Char) : Option Bool :=
  (runImage image).map fun out => normalize out = normalize golden

/-! ## Texts that normalize to given lines -/

theorem splitLines_line (l : List Char) (hl : ∀ c ∈ l, lineBreak c = false) (s : List Char) :
    ∀ cur : List Char, splitLines cur (l ++ '\n' :: s) = (cur ++ l) :: splitLines [] s := by
  induction l with
  | nil =>
    intro cur
    simp [splitLines, lineBreak]
  | cons c l ih =>
    intro cur
    have hc := hl c List.mem_cons_self
    have hcr : c ≠ '\r' := by
      rintro rfl
      exact absurd hc (by decide)
    rw [List.cons_append, splitLines]
    · rw [hc, if_neg Bool.false_ne_true, ih fun d hd => hl d (List.mem_cons_of_mem c hd)]
      simp
    · intro s' hs
      exact absurd hs hcr

theorem splitLines_lines (ls : List (List Char)) (hls : ∀ l ∈ ls, ∀ c ∈ l, lineBreak c = false) :
    splitLines [] (ls.flatMap (· ++ ['\n'])) = ls := by
  induction ls with
  | nil => simp [splitLines]
  | cons l ls ih =>
    rw [List.flatMap_cons, List.append_assoc, List.singleton_append,
      splitLines_line l (hls l List.mem_cons_self), List.nil_append,
      ih fun k hk => hls k (List.mem_cons_of_mem l hk)]

/-- A line without a line break that does not end in a blank. -/
structure IsTrimmed (l : List Char) : Prop where
  unbroken : ∀ c ∈ l, lineBreak c = false
  last : ∀ h : l ≠ [], pySpace (l.getLast h) = false

theorem rstrip_trimmed {l blanks : List Char} (hl : IsTrimmed l)
    (hblanks : ∀ c ∈ blanks, pySpace c = true) : rstrip (l ++ blanks) = l := by
  have hdrop : rstrip (l ++ blanks) = rstrip l := by
    induction blanks using List.reverseRecOn with
    | nil => rw [List.append_nil]
    | append_singleton blanks c ih =>
      rw [← List.append_assoc, rstrip, List.rdropWhile_concat_pos _ _ _ (hblanks c (by simp))]
      exact ih fun d hd => hblanks d (by simp [hd])
  rw [hdrop, rstrip, List.rdropWhile_eq_self_iff]
  intro h
  simp [hl.last h]

theorem all_space_iff {l blanks : List Char} (hl : IsTrimmed l)
    (hblanks : ∀ c ∈ blanks, pySpace c = true) : (l ++ blanks).all pySpace = true ↔ l = [] := by
  rw [List.all_append, Bool.and_eq_true]
  constructor
  · rintro ⟨hall, -⟩
    by_contra h
    have hlast := List.all_eq_true.1 hall _ (List.getLast_mem h)
    rw [hl.last h] at hlast
    exact Bool.false_ne_true hlast
  · rintro rfl
    exact ⟨rfl, List.all_eq_true.2 hblanks⟩

/-- Lines with blanks after them, among them lines with nothing else. -/
theorem normalize_parts (parts : List (List Char × List Char))
    (hline : ∀ p ∈ parts, IsTrimmed p.1)
    (hblank : ∀ p ∈ parts, ∀ c ∈ p.2, pySpace c = true ∧ lineBreak c = false) :
    normalize (parts.flatMap fun p => p.1 ++ p.2 ++ ['\n']) =
      (parts.map Prod.fst).filter (· ≠ []) := by
  have hsplit : splitLines [] (parts.flatMap fun p => p.1 ++ p.2 ++ ['\n']) =
      parts.map fun p => p.1 ++ p.2 := by
    have hlines := splitLines_lines (parts.map fun p => p.1 ++ p.2) (by
      intro l hl c hc
      obtain ⟨p, hp, rfl⟩ := List.mem_map.1 hl
      rcases List.mem_append.1 hc with hc | hc
      · exact (hline p hp).unbroken c hc
      · exact (hblank p hp c hc).2)
    rwa [List.flatMap_map] at hlines
  rw [normalize, hsplit]
  clear hsplit
  induction parts with
  | nil => rfl
  | cons p parts ih =>
    have hp := hline p List.mem_cons_self
    have hb := fun c hc => (hblank p List.mem_cons_self c hc).1
    have hrest := ih (fun q hq => hline q (List.mem_cons_of_mem p hq))
      fun q hq => hblank q (List.mem_cons_of_mem p hq)
    by_cases hnil : p.1 = []
    · have hall := (all_space_iff hp hb).2 hnil
      simp only [List.map_cons, List.filter_cons, hall]
      simpa [hnil] using hrest
    · have hall : (p.1 ++ p.2).all pySpace = false :=
        Bool.eq_false_iff.2 fun h => hnil ((all_space_iff hp hb).1 h)
      simp only [List.map_cons, List.filter_cons, hall, hnil, Bool.not_false, if_true,
        rstrip_trimmed hp hb, ne_eq, not_false_eq_true, decide_true]
      exact congrArg (p.1 :: ·) hrest

/-! ## The lines of a dump -/

/-- The characters of a dump line. -/
def DumpChar (c : Char) : Prop := c = ' ' ∨ (33 ≤ c.toNat ∧ c.toNat ≤ 126)

theorem dumpChar_digit {c : Char} (h : isDigitOf 8 c = true ∨ isDigitOf 10 c = true) :
    DumpChar c := by
  simp only [isDigitOf, decide_eq_true_eq] at h
  right
  omega

theorem dumpChar_unbroken {c : Char} (h : DumpChar c) : lineBreak c = false := by
  rcases h with rfl | h
  · decide
  · simp only [lineBreak, decide_eq_false_iff_not]
    omega

theorem digit_not_space {c : Char} (h : isDigitOf 8 c = true) : pySpace c = false := by
  simp only [isDigitOf, decide_eq_true_eq] at h
  simp only [pySpace, decide_eq_false_iff_not]
  omega

theorem octal6_digits (n : ℕ) : ∀ c ∈ octal6 n, isDigitOf 8 c = true :=
  isDigitOf_padded (by decide) (by decide) 6 n

theorem octal6_ne_nil (n : ℕ) : octal6 n ≠ [] := by
  intro h
  exact numeral_ne_nil 8 n (List.append_eq_nil_iff.1 h).2

/-- What a line ends with is a number. -/
theorem trimmed_octal6 {pre : List Char} (hpre : ∀ c ∈ pre, DumpChar c) (n : ℕ) :
    IsTrimmed (pre ++ octal6 n) ∧ pre ++ octal6 n ≠ [] := by
  refine ⟨⟨?_, ?_⟩, by simp [octal6_ne_nil]⟩
  · intro c hc
    rcases List.mem_append.1 hc with hc | hc
    · exact dumpChar_unbroken (hpre c hc)
    · exact dumpChar_unbroken (dumpChar_digit (Or.inl (octal6_digits n c hc)))
  · intro h
    rw [List.getLast_append_of_ne_nil h (octal6_ne_nil n)]
    exact digit_not_space (octal6_digits n _ (List.getLast_mem _))

theorem dumpLines_trimmed (cpu : Cpu) (regions : List DumpRegion) :
    ∀ l ∈ dumpLines cpu regions, IsTrimmed l ∧ l ≠ [] := by
  intro l hl
  simp only [dumpLines, List.mem_append, List.mem_cons, List.mem_map] at hl
  rcases hl with ⟨i, -, rfl⟩ | rfl | ⟨a, -, rfl⟩
  · have hpre : ∀ c ∈ 'R' :: numeral 10 (BitVec.ofFin i : Field3).toNat ++ [' '], DumpChar c := by
      intro c hc
      simp only [List.cons_append, List.mem_cons, List.mem_append, List.not_mem_nil, or_false] at hc
      rcases hc with rfl | hc | rfl
      · right
        decide
      · exact dumpChar_digit (Or.inr (isDigitOf_numeral (by decide) (by decide) _ c hc))
      · left
        rfl
    have htrim := trimmed_octal6 hpre (cpu.regs.r (BitVec.ofFin i)).toNat
    rwa [List.append_assoc] at htrim
  · refine trimmed_octal6 ?_ _
    intro c hc
    simp only [List.mem_cons, List.not_mem_nil, or_false] at hc
    rcases hc with rfl | rfl | rfl | rfl
    · right
      decide
    · right
      decide
    · right
      decide
    · left
      rfl
  · have hpre : ∀ c ∈ ['M', ' '] ++ octal6 (a &&& 0o177777).toNat ++ [' '], DumpChar c := by
      intro c hc
      simp only [List.mem_append, List.mem_cons, List.not_mem_nil, or_false] at hc
      rcases hc with ((rfl | rfl) | hc) | rfl
      · right
        decide
      · left
        rfl
      · exact dumpChar_digit (Or.inl (octal6_digits _ c hc))
      · left
        rfl
    have htrim := trimmed_octal6 hpre (memReadWord cpu.mem a).toNat
    rwa [List.append_assoc] at htrim

/-- A state dump stored with blanks at the ends of its lines and blank lines between them. -/
structure IsGolden (golden : List Char) (cpu : Cpu) (regions : List DumpRegion) : Prop where
  parts : ∃ parts : List (List Char × List Char),
    golden = (parts.flatMap fun p => p.1 ++ p.2 ++ ['\n']) ∧
    (∀ p ∈ parts, ∀ c ∈ p.2, pySpace c = true ∧ lineBreak c = false) ∧
    (parts.map Prod.fst).filter (· ≠ []) = dumpLines cpu regions

theorem normalize_golden {golden : List Char} {cpu : Cpu} {regions : List DumpRegion}
    (h : IsGolden golden cpu regions) : normalize golden = dumpLines cpu regions := by
  obtain ⟨parts, rfl, hblank, hlines⟩ := h.parts
  rw [normalize_parts parts ?_ hblank, hlines]
  intro p hp
  by_cases hnil : p.1 = []
  · rw [hnil]
    exact ⟨by simp, by simp⟩
  · have hmem : p.1 ∈ dumpLines cpu regions := by
      rw [← hlines, List.mem_filter]
      exact ⟨List.mem_map_of_mem hp, by simpa using hnil⟩
    exact (dumpLines_trimmed cpu regions p.1 hmem).1

theorem isGolden_stateDump (cpu : Cpu) (regions : List DumpRegion) :
    IsGolden (stateDump cpu regions) cpu regions := by
  refine ⟨(dumpLines cpu regions).map fun l => (l, []), ?_, ?_, ?_⟩
  · rw [List.flatMap_map, stateDump]
    simp
  · simp
  · rw [List.map_map, List.filter_eq_self.2]
    · exact List.map_id _
    · intro l hl
      have hne := (dumpLines_trimmed cpu regions l (by simpa using hl)).2
      simpa using hne

/-! ## What the check compares -/

/-- Two machines that show the same registers, PSW and dumped words. -/
structure DumpsAgree (regions : List DumpRegion) (s s' : Cpu) : Prop where
  reg : ∀ i, s.regs.r i = s'.regs.r i
  psw : s.regs.psw = s'.regs.psw
  word : ∀ r ∈ regions, ∀ a ∈ r.words, memReadWord s.mem a = memReadWord s'.mem a

theorem octal6_inj {v v' : Word} : octal6 v.toNat = octal6 v'.toNat ↔ v = v' := by
  constructor
  · intro h
    exact BitVec.eq_of_toNat_eq (padded_inj (by decide) (by decide) h)
  · rintro rfl
    rfl

theorem dumpLines_eq_iff (regions : List DumpRegion) (s s' : Cpu) :
    dumpLines s regions = dumpLines s' regions ↔ DumpsAgree regions s s' := by
  have hreg : ∀ i, dumpReg s i = dumpReg s' i ↔ s.regs.r i = s'.regs.r i := by
    intro i
    rw [dumpReg, dumpReg, List.append_cancel_left_eq, List.cons_inj_right, octal6_inj]
  have hpsw : dumpPsw s = dumpPsw s' ↔ s.regs.psw = s'.regs.psw := by
    rw [dumpPsw, dumpPsw, List.append_cancel_left_eq, octal6_inj]
  have hword : ∀ a, dumpWord s a = dumpWord s' a ↔ memReadWord s.mem a = memReadWord s'.mem a := by
    intro a
    rw [dumpWord, dumpWord, List.append_cancel_left_eq, List.cons_inj_right, octal6_inj]
  have hsplit : dumpLines s regions = dumpLines s' regions ↔
      ((List.finRange 8).map fun i => dumpReg s (BitVec.ofFin i)) =
        ((List.finRange 8).map fun i => dumpReg s' (BitVec.ofFin i)) ∧
      dumpPsw s = dumpPsw s' ∧
      (regions.flatMap DumpRegion.words).map (dumpWord s) =
        (regions.flatMap DumpRegion.words).map (dumpWord s') := by
    rw [dumpLines, dumpLines]
    constructor
    · intro h
      have happ := List.append_inj h (by simp)
      exact ⟨happ.1, List.cons.inj happ.2⟩
    · rintro ⟨hr, hp, hw⟩
      rw [hr, hp, hw]
  rw [hsplit]
  simp only [List.map_inj_left, hreg, hpsw, hword, List.mem_flatMap, forall_exists_index, and_imp]
  constructor
  · rintro ⟨hr, hp, hw⟩
    exact ⟨fun i => hr i.toFin (List.mem_finRange _), hp, fun r hr a ha => hw a r hr ha⟩
  · rintro ⟨hr, hp, hw⟩
    exact ⟨fun i _ => hr _, hp, fun a r hr ha => hw r hr a ha⟩

/-- MOV #7,R0 and HALT at 01000. -/
def moveImage : List Byte :=
  fileBytes "w 1000 12700\nw 1002 7\nw 1004 0\npc 1000\nrun 10\ndump 1000 2\n".toList

/-- What the registers and the first words are after it. -/
def moved : Cpu :=
  { cpuCreate with
    regs.r := fun i => if i = 0 then 7 else if i = regPc then 0o1006 else 0
    mem := memWriteWord (memWriteWord cpuCreate.mem 0o1000 0o12700) 0o1002 7 }

end Pdp11.Regress
