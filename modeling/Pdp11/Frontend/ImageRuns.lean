import Pdp11.Frontend.Headless
import Pdp11.Tools.Assembler

namespace Pdp11

open CText

/-! ## Lines the loader takes apart -/

/-- A text of visible characters that one conversion of `width` reads as a whole. -/
structure IsToken (width : ℕ) (t : List Char) : Prop where
  ne_nil : t ≠ []
  visible : ∀ c ∈ t, 32 < c.toNat
  fits : t.length ≤ width

theorem not_space_of_visible {c : Char} (h : 32 < c.toNat) : isSpace c = false := by
  simp only [isSpace, decide_eq_false_iff_not, not_or, not_and]
  refine ⟨?_, fun _ => by omega⟩
  rintro rfl
  exact absurd h (by decide)

theorem IsToken.isWord {width : ℕ} {t : List Char} (ht : IsToken width t) : IsWord width t :=
  ⟨ht.ne_nil, fun c hc => not_space_of_visible (ht.visible c hc), ht.fits⟩

theorem isToken_numeral {base n : ℕ} (hbase : 1 < base) (hten : base ≤ 10) (hn : n < base ^ 31) :
    IsToken 31 (numeral base n) := by
  refine ⟨numeral_ne_nil base n, ?_, (Nat.length_toDigits_le_iff hbase (by omega)).2 hn⟩
  intro c hc
  have hdigit := isDigitOf_numeral hbase hten n c hc
  simp only [isDigitOf, decide_eq_true_eq] at hdigit
  omega

theorem cString_of_visible {s : List Char} (hs : ∀ c ∈ s, c.toNat ≠ 0) : cString s = s :=
  List.takeWhile_eq_self_iff.2 (by simpa using hs)

theorem visible_ne_nul {t : List Char} (ht : ∀ c ∈ t, 32 < c.toNat) : ∀ c ∈ t, c.toNat ≠ 0 := by
  intro c hc
  have := ht c hc
  omega

section Lines

variable {op a b : List Char} (hop : IsToken 15 op) (ha : IsToken 31 a) (hb : IsToken 31 b)
include hop ha

theorem loadLine_two (hhash : op.head? ≠ some '#') (st : Loader) :
    loadLine st (op ++ ' ' :: a ++ ['\n']) =
      loadDirective st (op ++ ' ' :: a ++ ['\n']) op [a] := by
  have htext : cString (op ++ ' ' :: a ++ ['\n']) = op ++ ' ' :: a ++ ['\n'] := by
    apply cString_of_visible
    intro c hc
    simp only [List.mem_append, List.mem_cons, List.not_mem_nil, or_false] at hc
    rcases hc with (hc | rfl | hc) | rfl
    · exact visible_ne_nul hop.visible c hc
    · decide
    · exact visible_ne_nul ha.visible c hc
    · decide
  have hwords : scanWords [15, 31, 31] (op ++ ' ' :: a ++ ['\n']) = [op, a] := by
    rw [List.append_assoc, List.cons_append, scanWords_cons hop.isWord (by decide),
      scanWords_cons ha.isWord (by decide), scanWords_nil]
  unfold loadLine
  rw [htext, hwords]
  simp [hhash]

include hb in
theorem loadLine_three (hhash : op.head? ≠ some '#') (st : Loader) :
    loadLine st (op ++ ' ' :: a ++ ' ' :: b ++ ['\n']) =
      loadDirective st (op ++ ' ' :: a ++ ' ' :: b ++ ['\n']) op [a, b] := by
  have htext : cString (op ++ ' ' :: a ++ ' ' :: b ++ ['\n']) =
      op ++ ' ' :: a ++ ' ' :: b ++ ['\n'] := by
    apply cString_of_visible
    intro c hc
    simp only [List.mem_append, List.mem_cons, List.not_mem_nil, or_false] at hc
    rcases hc with ((hc | rfl | hc) | rfl | hc) | rfl
    · exact visible_ne_nul hop.visible c hc
    · decide
    · exact visible_ne_nul ha.visible c hc
    · decide
    · exact visible_ne_nul hb.visible c hc
    · decide
  have hwords : scanWords [15, 31, 31] (op ++ ' ' :: a ++ ' ' :: b ++ ['\n']) = [op, a, b] := by
    rw [List.append_assoc, List.append_assoc, List.cons_append,
      scanWords_cons hop.isWord (by decide), List.cons_append,
      scanWords_cons ha.isWord (by decide), scanWords_cons hb.isWord (by decide), scanWords_nil]
  unfold loadLine
  rw [htext, hwords]
  simp [hhash]

end Lines

/-! ## The image of a program -/

theorem parseOctal_numeral {n : ℕ} (hn : n < 2 ^ 64) :
    parseOctal (numeral 8 n) = BitVec.ofNat 32 n := by
  rw [parseOctal, strtoul_numeral (by decide) (by decide) hn]
  exact BitVec.setWidth_ofNat_of_le (by decide) n

/-- Memory after the deposits, in their order. -/
def depositWords (mem : Mem) (words : List (ℕ × Word)) : Mem :=
  words.foldl (fun mem w => memWriteWord mem (BitVec.ofNat 32 w.1) w.2) mem

theorem isToken_of_all {width : ℕ} {t : List Char}
    (h : t ≠ [] ∧ (t.all fun c => 32 < c.toNat) = true ∧ t.length ≤ width) : IsToken width t where
  ne_nil := h.1
  visible c hc := of_decide_eq_true (List.all_eq_true.1 h.2.1 c hc)
  fits := h.2.2

theorem isToken_opW : IsToken 15 opW := isToken_of_all (by decide)

theorem isToken_opPc : IsToken 15 opPc := isToken_of_all (by decide)

theorem isToken_opRun : IsToken 15 opRun := isToken_of_all (by decide)

theorem isToken_opDump : IsToken 15 opDump := isToken_of_all (by decide)

theorem isToken_octal {n : ℕ} (hn : n < 2 ^ 64) : IsToken 31 (numeral 8 n) :=
  isToken_numeral (by decide) (by decide) (hn.trans_le (by decide))

/-- The line of one deposit. -/
theorem loadLine_word (st : Loader) {w : ℕ × Word} (hw : w.1 < 2 ^ 64) :
    loadLine st ("w ".toList ++ numeral 8 w.1 ++ ' ' :: numeral 8 w.2.toNat ++ ['\n']) =
      { st with cpu := { st.cpu with
        mem := memWriteWord st.cpu.mem (BitVec.ofNat 32 w.1) w.2 } } := by
  have hval : w.2.toNat < 2 ^ 64 := by omega
  have hline := loadLine_three isToken_opW (isToken_octal hw)
    (isToken_octal hval) (by decide) st
  refine Eq.trans hline ?_
  have hvalue : (parseOctal (numeral 8 w.2.toNat)).setWidth 16 = w.2 := by
    rw [parseOctal_numeral hval, BitVec.setWidth_ofNat_of_le (by decide), BitVec.ofNat_toNat,
      BitVec.setWidth_eq]
  simp only [loadDirective, List.length_cons, List.length_nil, and_self, if_true,
    List.getD_cons_zero, List.getD_cons_succ, hvalue, parseOctal_numeral hw]

theorem loadLine_pc (st : Loader) {origin : ℕ} (horigin : origin < 2 ^ 64) :
    loadLine st ("pc ".toList ++ numeral 8 origin ++ ['\n']) =
      { st with cpu := { st.cpu with
        regs.r := Function.update st.cpu.regs.r regPc (BitVec.ofNat 16 origin) } } := by
  have hline := loadLine_two isToken_opPc (isToken_octal horigin)
    (by decide) st
  refine Eq.trans hline ?_
  have hvalue : (parseOctal (numeral 8 origin)).setWidth 16 = BitVec.ofNat 16 origin := by
    rw [parseOctal_numeral horigin, BitVec.setWidth_ofNat_of_le (by decide)]
  simp only [loadDirective, List.length_cons, List.length_nil, List.getD_cons_zero, hvalue]
  rfl

theorem loadLine_run (st : Loader) {run : ℕ} (hrun : run < 2 ^ 64) :
    loadLine st ("run ".toList ++ numeral 10 run ++ ['\n']) =
      { st with runLimit := BitVec.ofNat 64 run } := by
  have htoken : IsToken 31 (numeral 10 run) :=
    isToken_numeral (by decide) (by decide) (hrun.trans_le (by decide))
  have hline := loadLine_two isToken_opRun htoken (by decide) st
  refine Eq.trans hline ?_
  simp only [loadDirective, List.length_cons, List.length_nil, List.getD_cons_zero,
    strtoul_numeral (by decide : 1 < 10) (by decide) hrun]
  rfl

/-- The region of a dump directive. -/
def dumpRegion (d : ℕ × ℕ) : DumpRegion := ⟨BitVec.ofNat 32 d.1, BitVec.ofNat 32 d.2⟩

theorem loadLine_dump (st : Loader) {d : ℕ × ℕ} (hd : d.1 < 2 ^ 64 ∧ d.2 < 2 ^ 64) :
    loadLine st ("dump ".toList ++ numeral 8 d.1 ++ ' ' :: numeral 8 d.2 ++ ['\n']) =
      { st with regions := if st.regions.length < maxDumpRegions then st.regions ++ [dumpRegion d]
        else st.regions } := by
  have hline := loadLine_three isToken_opDump (isToken_octal hd.1)
    (isToken_octal hd.2) (by decide) st
  refine Eq.trans hline ?_
  have hsplit : ∀ (c : Prop) [Decidable c] (r : List DumpRegion),
      (if c then { st with regions := r } else st) =
        { st with regions := if c then r else st.regions } := by
    intro c _ r
    by_cases hc : c
    · simp [hc]
    · simp [hc]
  simp only [loadDirective, List.length_cons, List.length_nil, List.getD_cons_zero,
    List.getD_cons_succ, parseOctal_numeral hd.1, parseOctal_numeral hd.2]
  exact hsplit _ _

theorem foldl_loadLine_words (words : List (ℕ × Word)) (hwords : ∀ w ∈ words, w.1 < 2 ^ 64)
    (st : Loader) :
    (words.map fun w => "w ".toList ++ numeral 8 w.1 ++ ' ' :: numeral 8 w.2.toNat ++ ['\n']).foldl
        loadLine st =
      { st with cpu := { st.cpu with mem := depositWords st.cpu.mem words } } := by
  induction words generalizing st with
  | nil => rfl
  | cons w words ih =>
    rw [List.map_cons, List.foldl_cons, loadLine_word st (hwords w List.mem_cons_self),
      ih fun v hv => hwords v (List.mem_cons_of_mem w hv)]
    rfl

/-- Only the first 32 regions are kept. -/
theorem foldl_loadLine_dumps (dumps : List (ℕ × ℕ))
    (hdumps : ∀ d ∈ dumps, d.1 < 2 ^ 64 ∧ d.2 < 2 ^ 64) (st : Loader)
    (hroom : st.regions.length ≤ maxDumpRegions) :
    (dumps.map fun d => "dump ".toList ++ numeral 8 d.1 ++ ' ' :: numeral 8 d.2 ++ ['\n']).foldl
        loadLine st =
      { st with regions := (st.regions ++ dumps.map dumpRegion).take maxDumpRegions } := by
  induction dumps generalizing st with
  | nil => simp [List.take_of_length_le hroom]
  | cons d dumps ih =>
    have hrest := fun e he => hdumps e (List.mem_cons_of_mem d he)
    rw [List.map_cons, List.foldl_cons, loadLine_dump st (hdumps d List.mem_cons_self)]
    by_cases hlt : st.regions.length < maxDumpRegions
    · rw [if_pos hlt, ih hrest]
      · simp
      · rw [List.length_append]
        exact hlt
    · have hfull : st.regions.length = maxDumpRegions := by omega
      rw [if_neg hlt, ih hrest _ hroom]
      simp [← hfull]

/-- A line without a line end that fits the buffer of the loader. -/
def FitsLine (l : List Char) : Prop := '\n' ∉ l ∧ l.length + 2 ≤ 256

theorem fitsLine_of {pre l : List Char} (hpre : '\n' ∉ pre ∧ pre.length ≤ 100) (hl : '\n' ∉ l)
    (hlen : l.length ≤ 100) : FitsLine (pre ++ l) := by
  refine ⟨?_, ?_⟩
  · simp [hpre.1, hl]
  · rw [List.length_append]
    omega

theorem IsToken.no_line_end {width : ℕ} {t : List Char} (ht : IsToken width t) : '\n' ∉ t := by
  intro hmem
  exact absurd (ht.visible _ hmem) (by decide)

theorem fitsLine_one {pre : List Char} (hpre : '\n' ∉ pre ∧ pre.length ≤ 100) {a : List Char}
    (ha : IsToken 31 a) : FitsLine (pre ++ a) :=
  fitsLine_of hpre ha.no_line_end (ha.fits.trans (by decide))

theorem fitsLine_two {pre : List Char} (hpre : '\n' ∉ pre ∧ pre.length ≤ 100) {a b : List Char}
    (ha : IsToken 31 a) (hb : IsToken 31 b) : FitsLine (pre ++ a ++ ' ' :: b) := by
  have hfits := ha.fits
  have hfits' := hb.fits
  rw [List.append_assoc]
  apply fitsLine_of hpre
  · simp [ha.no_line_end, hb.no_line_end]
  · simp only [List.length_append, List.length_cons]
    omega

/-- What the loader can take in: 64-bit numbers. -/
structure ImageFits (origin : ℕ) (words : List (ℕ × Word)) (run : ℕ) (dumps : List (ℕ × ℕ)) :
    Prop where
  origin : origin < 2 ^ 64
  words : ∀ w ∈ words, w.1 < 2 ^ 64
  run : run < 2 ^ 64
  dumps : ∀ d ∈ dumps, d.1 < 2 ^ 64 ∧ d.2 < 2 ^ 64

variable {origin run : ℕ} {words : List (ℕ × Word)} {dumps : List (ℕ × ℕ)}

theorem imageLines_fit (h : ImageFits origin words run dumps) :
    ∀ l ∈ imageLines origin words run dumps, FitsLine l := by
  intro l hl
  simp only [imageLines, List.mem_append, List.mem_cons, List.mem_map] at hl
  rcases hl with (rfl | rfl | ⟨w, hw, rfl⟩) | rfl | ⟨d, hd, rfl⟩
  · exact ⟨by decide, by decide⟩
  · exact fitsLine_one ⟨by decide, by decide⟩ (isToken_octal h.origin)
  · have hval : w.2.toNat < 2 ^ 64 := by omega
    exact fitsLine_two ⟨by decide, by decide⟩ (isToken_octal (h.words w hw)) (isToken_octal hval)
  · refine fitsLine_one ⟨by decide, by decide⟩ (isToken_numeral (by decide) (by decide) ?_)
    exact h.run.trans_le (by decide)
  · exact fitsLine_two ⟨by decide, by decide⟩ (isToken_octal (h.dumps d hd).1)
      (isToken_octal (h.dumps d hd).2)

theorem loadLine_comment (st : Loader) :
    loadLine st ("# generated by tools/probes/asm.py".toList ++ ['\n']) = st := by
  have hwords : scanWords [15, 31, 31]
      (cString ("# generated by tools/probes/asm.py".toList ++ ['\n'])) =
        [['#'], "generated".toList, "by".toList] := by decide
  rw [loadLine, hwords]
  rfl

theorem numeral_ascii {base : ℕ} (hbase : 1 < base) (hten : base ≤ 10) (n : ℕ) :
    ∀ c ∈ numeral base n, c.toNat < 128 := by
  intro c hc
  have hdigit := isDigitOf_numeral hbase hten n c hc
  simp only [isDigitOf, decide_eq_true_eq] at hdigit
  omega

theorem ascii_of_all {s : List Char} (h : (s.all fun c => c.toNat < 128) = true) :
    ∀ c ∈ s, c.toNat < 128 := fun c hc => of_decide_eq_true (List.all_eq_true.1 h c hc)

theorem ascii_append {s t : List Char} (hs : ∀ c ∈ s, c.toNat < 128)
    (ht : ∀ c ∈ t, c.toNat < 128) : ∀ c ∈ s ++ t, c.toNat < 128 := by
  intro c hc
  exact (List.mem_append.1 hc).elim (hs c) (ht c)

theorem imageLines_ascii (origin : ℕ) (words : List (ℕ × Word)) (run : ℕ) (dumps : List (ℕ × ℕ)) :
    ∀ l ∈ imageLines origin words run dumps, ∀ c ∈ l, c.toNat < 128 := by
  have hoctal (n : ℕ) : ∀ c ∈ numeral 8 n, c.toNat < 128 :=
    numeral_ascii (by decide) (by decide) n
  have hpair (pre : List Char) (hpre : ∀ c ∈ pre, c.toNat < 128) (a b : ℕ) :
      ∀ c ∈ pre ++ numeral 8 a ++ ' ' :: numeral 8 b, c.toNat < 128 :=
    ascii_append (ascii_append hpre (hoctal a)) (List.forall_mem_cons.2 ⟨by decide, hoctal b⟩)
  intro l hl
  simp only [imageLines, List.mem_append, List.mem_cons, List.mem_map] at hl
  rcases hl with (rfl | rfl | ⟨w, -, rfl⟩) | rfl | ⟨d, -, rfl⟩
  · exact ascii_of_all (by decide)
  · exact ascii_append (ascii_of_all (by decide)) (hoctal origin)
  · exact hpair _ (ascii_of_all (by decide)) w.1 w.2.toNat
  · exact ascii_append (ascii_of_all (by decide)) (numeral_ascii (by decide) (by decide) run)
  · exact hpair _ (ascii_of_all (by decide)) d.1 d.2

/-- The image of a program gives the loader what went into it. -/
theorem loadImage_imageLines (h : ImageFits origin words run dumps) (cpu : Cpu) :
    loadImage cpu (fileBytes ((imageLines origin words run dumps).flatMap (· ++ ['\n']))) =
      { cpu := { cpu with
          mem := depositWords cpu.mem words
          regs.r := Function.update cpu.regs.r regPc (BitVec.ofNat 16 origin) }
        regions := (dumps.map dumpRegion).take maxDumpRegions
        runLimit := BitVec.ofNat 64 run
        warned := [] } := by
  have hascii : ∀ c ∈ (imageLines origin words run dumps).flatMap (· ++ ['\n']),
      c.toNat < 128 := by
    intro c hc
    obtain ⟨l, hl, hin⟩ := List.mem_flatMap.1 hc
    exact ascii_append (imageLines_ascii origin words run dumps l hl) (ascii_of_all (by decide)) c hin
  rw [loadImage, map_byteChar_fileBytes hascii, fgetsAll_lines _ (imageLines_fit h)]
  simp only [imageLines, List.map_append, List.map_cons, List.map_map, List.foldl_append,
    List.foldl_cons, loadLine_comment, loadLine_pc _ h.origin]
  have hwords := foldl_loadLine_words words h.words
  have hdumps := foldl_loadLine_dumps dumps h.dumps
  simp only [Function.comp_def]
  rw [hwords, loadLine_run _ h.run, hdumps _ (by simp)]
  rfl

end Pdp11
