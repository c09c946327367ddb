import Pdp11.ConsoleStream
import Pdp11.Frontend.Dialog
import Pdp11.Frontend.SessionRuns
import Pdp11.Lib.RollingTail

namespace Pdp11

open RollingTail

/-! ## Prompts -/

theorem consoleSink_tail (cs : ConsoleState) (ch : Byte) :
    (consoleSink cs ch).tail = push tailSize cs.tail (asciiByte ch) := by
  unfold consoleSink push
  split_ifs <;> rfl

theorem foldl_consoleSink_tail (bytes : List Byte) (cs : ConsoleState) :
    (bytes.foldl consoleSink cs).tail = (bytes.map asciiByte).foldl (push tailSize) cs.tail := by
  induction bytes generalizing cs with
  | nil => rfl
  | cons ch bytes ih => rw [List.foldl_cons, ih, consoleSink_tail, List.map_cons, List.foldl_cons]

theorem tailEndsWith_iff (cs : ConsoleState) (s : List Byte) :
    tailEndsWith cs s = true ↔ s ≠ [] ∧ s <:+ cs.tail := by
  rw [tailEndsWith, decide_eq_true_iff, List.length_pos_iff]
  refine and_congr_right fun _ => ⟨?_, ?_⟩
  · rintro ⟨-, heq⟩
    rw [← heq]
    exact List.drop_suffix _ _
  · intro h
    exact ⟨h.length_le, (List.suffix_iff_eq_drop.1 h).symm⟩

/-! ## Whoever types at the console -/

/-- What passes between the console and its operator, with the steps that are answered. -/
inductive ConsoleAct
  | sent (ch : Byte)
  | typed (b : Byte)
  | answered (d : DialogStep)

namespace ConsoleAct

def sent? : ConsoleAct → Option Byte
  | sent ch => some ch
  | _ => none

def typed? : ConsoleAct → Option Byte
  | typed b => some b
  | _ => none

def answered? : ConsoleAct → Option DialogStep
  | answered d => some d
  | _ => none

end ConsoleAct

open ConsoleAct

/-- What is still to be typed, the steps that are left, and the output since the last answer. -/
structure Operator where
  typing : List Byte
  steps : List DialogStep
  seen : List Byte

/-- An operator types byte by byte what is to be typed. The next step is answered when nothing is
left to type and the output since the last answer ends with the prompt. -/
def Operator.does (op : Operator) : ConsoleAct → Option Operator
  | .sent ch => some { op with seen := op.seen ++ [asciiByte ch] }
  | .typed b => if op.typing.head? = some b then some { op with typing := op.typing.tail } else none
  | .answered d =>
    if op.typing = [] ∧ op.steps.head? = some d ∧ d.expect ≠ [] ∧ d.expect <:+ op.seen then
      some ⟨d.send, op.steps.tail, []⟩
    else none

/-- The steps are answered in order; what is typed is what there was to type, then their replies. -/
theorem Operator.replay_order (acts : List ConsoleAct) {op op' : Operator}
    (h : acts.foldlM Operator.does op = some op') :
    op.steps = acts.filterMap answered? ++ op'.steps ∧
      op.typing ++ (acts.filterMap answered?).flatMap DialogStep.send =
        acts.filterMap typed? ++ op'.typing := by
  -- on the log: an act taken from the front gives what the head of the list says
  induction acts generalizing op with
  | nil =>
    cases h
    simp
  | cons act acts ih =>
    rw [List.foldlM_cons] at h
    cases act with
    | sent ch =>
      have hrest : acts.foldlM Operator.does { op with seen := op.seen ++ [asciiByte ch] } =
        some op' := h
      obtain ⟨hsteps, htyped⟩ := ih hrest
      exact ⟨hsteps, htyped⟩
    | typed b =>
      by_cases hhead : op.typing.head? = some b
      · rw [show op.does (.typed b) = some { op with typing := op.typing.tail } from
          if_pos hhead] at h
        have hnext : acts.foldlM Operator.does { op with typing := op.typing.tail } = some op' := h
        obtain ⟨hsteps, htyped⟩ := ih hnext
        obtain ⟨rest, hrest⟩ := List.head?_eq_some_iff.1 hhead
        refine ⟨hsteps, ?_⟩
        rw [hrest] at htyped ⊢
        exact congrArg (b :: ·) htyped
      · rw [show op.does (.typed b) = none from if_neg hhead] at h
        cases h
    | answered d =>
      by_cases hdue : op.typing = [] ∧ op.steps.head? = some d ∧ d.expect ≠ [] ∧ d.expect <:+ op.seen
      · rw [show op.does (.answered d) = some ⟨d.send, op.steps.tail, []⟩ from if_pos hdue] at h
        have hnext : acts.foldlM Operator.does ⟨d.send, op.steps.tail, []⟩ = some op' := h
        obtain ⟨hsteps, htyped⟩ := ih hnext
        obtain ⟨rest, hrest⟩ := List.head?_eq_some_iff.1 hdue.2.1
        constructor
        · rw [hrest] at hsteps ⊢
          exact congrArg (d :: ·) hsteps
        · rw [hdue.1]
          exact htyped
      · rw [show op.does (.answered d) = none from if_neg hdue] at h
        cases h

/-! ## Runs -/

/-- The loop stands where the operator does; the tail has the end of what was seen. -/
structure Operates (op : Operator) (st : BootState) : Prop where
  typing : op.typing = st.input ++ st.pend
  steps : op.steps = st.steps
  tail : st.console.tail = op.seen.rtake tailSize
  sink : ∃ out, st.cpu.dev.consoleOut = some out
  /-- The script is fed before the dialog is looked at. -/
  script : st.input ≠ [] → st.pend = []
  expect : ∀ d ∈ st.steps, d.expect.length ≤ tailSize

theorem rtake_nil : ([] : List Byte).rtake tailSize = [] := List.drop_nil

/-- Part of a run: an operator who stands where the loop does can do all that passes in it, and then
stands where the loop does. -/
structure DialogMoves (op : Operator) (st st' : BootState) (acts : List ConsoleAct) : Prop where
  replay : ∃ op', acts.foldlM Operator.does op = some op' ∧ Operates op' st'
  held : st'.cpu.dev.ttiBuf =
    ((acts.filterMap typed?).getLast?.map fun b => b.setWidth 16).getD st.cpu.dev.ttiBuf
  out : st'.cpu.dev.consoleOut = st.cpu.dev.consoleOut.map (· ++ acts.filterMap sent?)

namespace DialogMoves

variable {op : Operator} {st st' st'' : BootState} {acts acts' : List ConsoleAct}

theorem refl (h : Operates op st) : DialogMoves op st st [] where
  replay := ⟨op, rfl, h⟩
  held := rfl
  out := by simp

theorem trans (h : DialogMoves op st st' acts)
    (h' : ∀ op', Operates op' st' → DialogMoves op' st' st'' acts') :
    DialogMoves op st st'' (acts ++ acts') := by
  obtain ⟨op', hreplay, hop'⟩ := h.replay
  have hrest := h' op' hop'
  refine ⟨?_, ?_, ?_⟩
  · rw [List.foldlM_append, hreplay]
    exact hrest.replay
  · rw [hrest.held, h.held, List.filterMap_append, List.getLast?_append]
    cases (acts'.filterMap typed?).getLast? <;> simp
  · rw [hrest.out, h.out, List.filterMap_append]
    cases st.cpu.dev.consoleOut <;> simp

end DialogMoves

theorem replay_sent (bytes : List Byte) (op : Operator) :
    (bytes.map ConsoleAct.sent).foldlM Operator.does op =
      some { op with seen := op.seen ++ bytes.map asciiByte } := by
  induction bytes generalizing op with
  | nil => simp
  | cons ch bytes ih =>
    rw [List.map_cons, List.foldlM_cons]
    show (bytes.map ConsoleAct.sent).foldlM Operator.does
      { op with seen := op.seen ++ [asciiByte ch] } = _
    rw [ih, List.append_assoc, List.map_cons, List.singleton_append]

def advanceActs (st : BootState) : List ConsoleAct :=
  (sentBytes (cpuStep st.cpu).events).map .sent

/-- What the processor sends goes to the end of the tail. -/
theorem bootAdvance_moves {op : Operator} {st : BootState} (h : Operates op st) :
    DialogMoves op st (bootAdvance st) (advanceActs st) := by
  obtain ⟨out, hout⟩ := h.sink
  have hmoves := cpuStep_console st.cpu
  obtain ⟨hnew, hafter⟩ := newBytes_eq hmoves hout
  unfold advanceActs
  refine ⟨⟨_, replay_sent _ op, h.typing, h.steps, ?_, ⟨_, hafter⟩, h.script, h.expect⟩, ?_, ?_⟩
  · show ((newBytes st.cpu (cpuStep st.cpu).cpu).foldl consoleSink st.console).tail = _
    rw [foldl_consoleSink_tail, h.tail, hnew]
    exact foldl_push (by decide) _ _
  · rw [filterMap_map_none fun _ => rfl]
    exact hmoves.buf
  · rw [List.filterMap_map, show sent? ∘ ConsoleAct.sent = some from rfl, List.filterMap_some]
    exact hmoves.out

/-- What `bootFeed` does: it gives a byte to the receiver, or takes up the next step. -/
def feedBoot (st : BootState) : List ConsoleAct :=
  match st.input, st.pend, st.steps with
  | ch :: _, _, _ => [.typed ch]
  | [], ch :: _, _ => if st.nextKeyNs ≤ st.cpu.acct.timeNs then [.typed ch] else []
  | [], [], d :: _ => if tailEndsWith st.console d.expect then [.answered d] else []
  | [], [], [] => []

theorem consoleInput_kept (s : Cpu) (ch : Byte) :
    (consoleInput s ch).dev.ttiBuf = ch.setWidth 16 ∧
      (consoleInput s ch).dev.consoleOut = s.dev.consoleOut := by
  unfold consoleInput
  dsimp only
  split_ifs <;> exact ⟨rfl, rfl⟩

theorem bootFeed_moves (pace : DialogPace) {op : Operator} {st : BootState} (h : Operates op st) :
    DialogMoves op st (bootFeed pace st) (feedBoot st) := by
  obtain ⟨cpu, console, input, pend, steps, nextKeyNs⟩ := st
  obtain ⟨out, hout⟩ := h.sink
  have hkept := fun ch => consoleInput_kept cpu ch
  -- a byte that is next to be typed reaches the receiver
  have htype (ch : Byte) (rest : List Byte) (st' : BootState) (hhead : op.typing = ch :: rest)
      (hcpu : st'.cpu = consoleInput cpu ch) (hst : Operates { op with typing := rest } st') :
      DialogMoves op ⟨cpu, console, input, pend, steps, nextKeyNs⟩ st' [.typed ch] := by
    refine ⟨⟨{ op with typing := rest }, ?_, hst⟩, ?_, ?_⟩
    · rw [List.foldlM_cons, show op.does (.typed ch) = some { op with typing := op.typing.tail } from
        if_pos (by rw [hhead]; rfl), hhead]
      rfl
    · rw [hcpu]
      exact (hkept ch).1
    · rw [hcpu, (hkept ch).2, show [ConsoleAct.typed ch].filterMap sent? = [] from rfl, hout]
      exact congrArg some (List.append_nil out).symm
  rcases input with _ | ⟨ch, input⟩
  · rcases pend with _ | ⟨ch, pend⟩
    · rcases steps with _ | ⟨d, steps⟩
      · exact .refl h
      · -- the prompt of the next step
        by_cases hmatch : tailEndsWith console d.expect
        · have hsuffix := (tailEndsWith_iff _ _).1 hmatch
          rw [h.tail, suffix_rtake_iff (h.expect d List.mem_cons_self)] at hsuffix
          have hdue : op.typing = [] ∧ op.steps.head? = some d ∧ d.expect ≠ [] ∧
              d.expect <:+ op.seen :=
            ⟨h.typing, by rw [h.steps]; rfl, hsuffix⟩
          simp only [bootFeed, feedBoot, hmatch, if_true]
          refine ⟨⟨⟨d.send, op.steps.tail, []⟩, ?_, ?_⟩, rfl, ?_⟩
          · rw [List.foldlM_cons, show op.does (.answered d) = some ⟨d.send, op.steps.tail, []⟩ from
              if_pos hdue]
            rfl
          · exact ⟨rfl, congrArg List.tail h.steps, rtake_nil.symm, ⟨out, hout⟩,
              fun hne => absurd rfl hne, fun e he => h.expect e (List.mem_cons_of_mem d he)⟩
          · rw [show [ConsoleAct.answered d].filterMap sent? = [] from rfl, hout]
            exact congrArg some (List.append_nil out).symm
        · simp only [bootFeed, feedBoot, hmatch]
          exact .refl h
    · -- the reply to the last prompt
      by_cases hdue : nextKeyNs ≤ cpu.acct.timeNs
      · simp only [bootFeed, feedBoot, hdue, if_true]
        exact htype ch pend _ h.typing rfl ⟨rfl, h.steps, h.tail, ⟨out, (hkept ch).2.trans hout⟩,
          fun hne => absurd rfl hne, h.expect⟩
      · simp only [bootFeed, feedBoot, hdue, if_false]
        exact .refl h
  · -- the script
    have hnone : pend = [] := h.script (List.cons_ne_nil ch input)
    exact htype ch (input ++ pend) _ h.typing rfl ⟨rfl, h.steps, h.tail,
      ⟨out, (hkept ch).2.trans hout⟩, fun _ => hnone, h.expect⟩

/-- What passes in one pass of the loop. -/
def bootStepActs (st : BootState) : List ConsoleAct :=
  advanceActs st ++
    if (bootAdvance st).cpu.dev.ttiCsr &&& dl11Done ≠ 0 then [] else feedBoot (bootAdvance st)

/-- What passes in a run, in order. -/
def bootActs (pace : DialogPace) (st : BootState) : ℕ → List ConsoleAct
  | 0 => []
  | n + 1 =>
    if st.cpu.ctl.halted then [] else bootStepActs st ++ bootActs pace (bootStep pace st) n

theorem bootStep_moves (pace : DialogPace) {op : Operator} {st : BootState} (h : Operates op st) :
    DialogMoves op st (bootStep pace st) (bootStepActs st) := by
  unfold bootStep bootStepActs
  dsimp only
  refine (bootAdvance_moves h).trans fun op' h' => ?_
  split
  · exact .refl h'
  · exact bootFeed_moves pace h'

theorem bootRun_moves (pace : DialogPace) (n : ℕ) {op : Operator} {st : BootState}
    (h : Operates op st) : DialogMoves op st (bootRun pace st n) (bootActs pace st n) := by
  induction n generalizing op st with
  | zero => exact .refl h
  | succ n ih =>
    unfold bootRun bootActs
    split
    · exact .refl h
    · exact (bootStep_moves pace h).trans fun op' h' => ih h'

/-! ## Specifications -/

theorem unescape_length (cap : ℕ) (s : List Byte) : (unescape cap s).length ≤ cap :=
  List.length_take_le _ _

theorem pairFields_expect (fields : List (List Byte)) :
    ∀ d ∈ pairFields fields, d.expect.length ≤ 63 := by
  induction fields using pairFields.induct with
  | case1 => simp [pairFields]
  | case2 e =>
    intro d hd
    rw [pairFields, List.mem_singleton] at hd
    rw [hd]
    exact unescape_length 63 _
  | case3 e s fields ih =>
    intro d hd
    rw [pairFields, List.mem_cons] at hd
    rcases hd with rfl | hd
    · exact unescape_length 63 _
    · exact ih d hd

theorem bootInit_operates (bytes script spec : List Byte) :
    Operates ⟨unescape 512 script, parseDialog spec, []⟩ (bootInit bytes script spec) where
  typing := (List.append_nil _).symm
  steps := rfl
  tail := rtake_nil.symm
  sink := ⟨[], rfl⟩
  script _ := rfl
  expect d hd := (pairFields_expect _ d hd).trans (by decide)

/-- Any boot is the work of an operator who types the script and then waits for each prompt of the
dialog in turn: a step is answered when the output since the last answer ends with its prompt. What
is typed is the script, then the replies of the steps answered, each byte once. -/
theorem boot_dialog (pace : DialogPace) (bytes script spec : List Byte) (n : ℕ) :
    let st := bootRun pace (bootInit bytes script spec) n
    let acts := bootActs pace (bootInit bytes script spec) n
    let done := acts.filterMap answered?
    (∃ seen, acts.foldlM Operator.does ⟨unescape 512 script, parseDialog spec, []⟩ =
        some ⟨st.input ++ st.pend, st.steps, seen⟩) ∧
      parseDialog spec = done ++ st.steps ∧
      unescape 512 script ++ done.flatMap DialogStep.send =
        acts.filterMap typed? ++ (st.input ++ st.pend) ∧
      st.cpu.dev.consoleOut = some (acts.filterMap sent?) ∧
      st.cpu.dev.ttiBuf =
        ((acts.filterMap typed?).getLast?.map fun b => b.setWidth 16).getD 0 := by
  intro st acts done
  have h := bootRun_moves pace n (bootInit_operates bytes script spec)
  obtain ⟨⟨typing, steps, seen⟩, hreplay, hst⟩ := h.replay
  obtain ⟨rfl, rfl⟩ : typing = st.input ++ st.pend ∧ steps = st.steps := ⟨hst.typing, hst.steps⟩
  obtain ⟨hsteps, htyped⟩ := Operator.replay_order acts hreplay
  exact ⟨⟨seen, hreplay⟩, hsteps, htyped, h.out, h.held⟩

/-! ## Writing a specification -/

/-- How a byte is written in a script. -/
def escape (b : Byte) : List Byte :=
  if b = chBackslash then [chBackslash, chBackslash]
  else if b = 0x0d then [chBackslash, 0x72]
  else if b = 0x0a then [chBackslash, 0x6e]
  else if b = 0x09 then [chBackslash, 0x74]
  else [b]

def escapeAll (s : List Byte) : List Byte := s.flatMap escape

theorem unescapeAll_escape (b : Byte) (rest : List Byte) :
    unescapeAll (escape b ++ rest) = b :: unescapeAll rest := by
  unfold escape
  split_ifs with hback hr hn ht
  · subst hback
    rfl
  · subst hr
    rfl
  · subst hn
    rfl
  · subst ht
    rfl
  · cases rest with
    | nil => rfl
    | cons c rest => rw [List.singleton_append, unescapeAll, if_neg hback]

theorem unescapeAll_escapeAll (s : List Byte) : unescapeAll (escapeAll s) = s := by
  induction s with
  | nil => rfl
  | cons b s ih => rw [escapeAll, List.flatMap_cons, unescapeAll_escape, ← escapeAll, ih]

/-- Escapes bring only a backslash and the letters of the escapes. -/
theorem not_mem_escapeAll {ch : Byte} (hch : ch ∉ [chBackslash, 0x72, 0x6e, 0x74])
    {s : List Byte} (h : ch ∉ s) : ch ∉ escapeAll s := by
  intro hmem
  obtain ⟨b, hb, hin⟩ := List.mem_flatMap.1 hmem
  simp only [List.mem_cons, List.not_mem_nil, or_false, not_or] at hch
  unfold escape at hin
  split_ifs at hin
  all_goals simp only [List.mem_cons, List.not_mem_nil, or_false] at hin
  · exact hch.1 (hin.elim id id)
  · exact hin.elim hch.1 hch.2.1
  · exact hin.elim hch.1 hch.2.2.1
  · exact hin.elim hch.1 hch.2.2.2
  · exact h (hin ▸ hb)

theorem cBytes_eq {s : List Byte} (h : 0 ∉ s) : cBytes s = s := by
  rw [cBytes, List.takeWhile_eq_self_iff]
  intro b hb
  exact decide_eq_true fun hzero => h (hzero ▸ hb)

/-- A step that a specification can hold. -/
structure DialogStep.Writable (d : DialogStep) : Prop where
  plain : chBar ∉ d.expect ∧ chBar ∉ d.send
  nonzero : 0 ∉ d.expect ∧ 0 ∉ d.send
  expect : d.expect.length ≤ 63 ∧ (escapeAll d.expect).length ≤ 127
  send : (escapeAll d.send).length ≤ 127

/-- The specification of some steps. -/
def writeDialog : List DialogStep → List Byte
  | [] => []
  | [d] => escapeAll d.expect ++ chBar :: escapeAll d.send
  | d :: steps => escapeAll d.expect ++ chBar :: (escapeAll d.send ++ chBar :: writeDialog steps)

theorem fieldsFrom_plain {field : List Byte} (h : chBar ∉ field) (cur : List Byte) :
    fieldsFrom cur field = [cur ++ field] := by
  induction field generalizing cur with
  | nil => simp [fieldsFrom]
  | cons b field ih =>
    rw [List.mem_cons, not_or] at h
    rw [fieldsFrom, if_neg fun hb => h.1 hb.symm, ih h.2, List.append_assoc, List.singleton_append]

theorem fieldsFrom_bar {field : List Byte} (h : chBar ∉ field) (cur rest : List Byte) :
    fieldsFrom cur (field ++ chBar :: rest) = (cur ++ field) :: dialogFields rest := by
  induction field generalizing cur with
  | nil => simp [fieldsFrom, dialogFields]
  | cons b field ih =>
    rw [List.mem_cons, not_or] at h
    rw [List.cons_append, fieldsFrom, if_neg fun hb => h.1 hb.symm, ih h.2, List.append_assoc,
      List.singleton_append]

theorem dialogFields_bar {field : List Byte} (h : chBar ∉ field) (rest : List Byte) :
    dialogFields (field ++ chBar :: rest) = field :: dialogFields rest := by
  rw [dialogFields, if_neg (by simp), fieldsFrom_bar h, List.nil_append]

theorem unescape_escapeAll {cap : ℕ} {s : List Byte} (hzero : 0 ∉ s) (hcap : s.length ≤ cap)
    (hfield : (escapeAll s).length ≤ 127) : unescape cap (cutField (escapeAll s)) = s := by
  rw [cutField, List.take_of_length_le hfield, unescape,
    cBytes_eq (not_mem_escapeAll (by decide) hzero), unescapeAll_escapeAll,
    List.take_of_length_le hcap]

theorem length_le_escapeAll (s : List Byte) : s.length ≤ (escapeAll s).length := by
  induction s with
  | nil => exact le_rfl
  | cons b s ih =>
    have hb : 1 ≤ (escape b).length := by
      unfold escape
      split_ifs <;> simp
    rw [escapeAll, List.flatMap_cons, List.length_append, ← escapeAll, List.length_cons]
    omega

theorem unescape_send {d : DialogStep} (h : d.Writable) :
    unescape 128 (cutField (escapeAll d.send)) = d.send :=
  unescape_escapeAll h.nonzero.2 ((length_le_escapeAll d.send).trans (h.send.trans (by decide)))
    h.send

/-- A specification is a C string. -/
theorem writeDialog_nonzero (steps : List DialogStep) (h : ∀ d ∈ steps, d.Writable) :
    0 ∉ writeDialog steps := by
  have hfield (s : List Byte) (hs : 0 ∉ s) : 0 ∉ escapeAll s := not_mem_escapeAll (by decide) hs
  induction steps using writeDialog.induct with
  | case1 => simp [writeDialog]
  | case2 d =>
    have hd := (h d List.mem_cons_self).nonzero
    rw [writeDialog, List.mem_append, List.mem_cons]
    rintro (hin | hin | hin)
    · exact hfield _ hd.1 hin
    · exact absurd hin (by decide)
    · exact hfield _ hd.2 hin
  | case3 d steps hsome ih =>
    have hd := (h d List.mem_cons_self).nonzero
    rw [writeDialog, List.mem_append, List.mem_cons, List.mem_append, List.mem_cons]
    rintro (hin | hin | hin | hin | hin)
    · exact hfield _ hd.1 hin
    · exact absurd hin (by decide)
    · exact hfield _ hd.2 hin
    · exact absurd hin (by decide)
    · exact ih (fun x hx => h x (List.mem_cons_of_mem d hx)) hin
    · exact hsome

/-- The fields of a specification, and the steps they stand for. -/
theorem writeDialog_fields (steps : List DialogStep) (h : ∀ d ∈ steps, d.Writable) :
    (dialogFields (writeDialog steps)).length ≤ 2 * steps.length ∧
      pairFields (dialogFields (writeDialog steps)) = steps := by
  induction steps with
  | nil => exact ⟨le_rfl, rfl⟩
  | cons d steps ih =>
    have hd := h d List.mem_cons_self
    have hexpect : chBar ∉ escapeAll d.expect := not_mem_escapeAll (by decide) hd.plain.1
    have hsend : chBar ∉ escapeAll d.send := not_mem_escapeAll (by decide) hd.plain.2
    have hprompt := unescape_escapeAll hd.nonzero.1 hd.expect.1 hd.expect.2
    have hreply := unescape_send hd
    cases steps with
    | nil =>
      rw [writeDialog, dialogFields_bar hexpect]
      by_cases hempty : escapeAll d.send = []
      · -- no field follows the bar, and the reply is empty
        have hnil : d.send = [] := by
          rw [← unescapeAll_escapeAll d.send, hempty]
          rfl
        rw [hempty, dialogFields, if_pos rfl]
        refine ⟨by simp, ?_⟩
        rw [pairFields, hprompt, ← hnil]
      · rw [dialogFields, if_neg hempty, fieldsFrom_plain hsend, List.nil_append]
        refine ⟨by simp, ?_⟩
        rw [pairFields, hprompt, hreply, pairFields]
    | cons e steps =>
      obtain ⟨hlen, hpairs⟩ := ih fun x hx => h x (List.mem_cons_of_mem d hx)
      have hwrite : writeDialog (d :: e :: steps) =
          escapeAll d.expect ++ chBar :: (escapeAll d.send ++ chBar :: writeDialog (e :: steps)) :=
        rfl
      rw [hwrite, dialogFields_bar hexpect, dialogFields_bar hsend]
      refine ⟨?_, ?_⟩
      · simp only [List.length_cons] at hlen ⊢
        omega
      · rw [pairFields, hprompt, hreply, hpairs]

/-- A dialog of at most 16 steps is read back as it was written. -/
theorem parse_written_dialog {steps : List DialogStep} (hlen : steps.length ≤ maxSteps)
    (h : ∀ d ∈ steps, d.Writable) : parseDialog (writeDialog steps) = steps := by
  obtain ⟨hfields, hpairs⟩ := writeDialog_fields steps h
  rw [parseDialog, cBytes_eq (writeDialog_nonzero steps h), List.take_of_length_le, hpairs]
  omega

/-- `login: ` answered by `root` and a return, then `# ` by nothing. -/
theorem login_dialog_read_back :
    parseDialog (writeDialog [⟨[0x6c, 0x6f, 0x67, 0x69, 0x6e, 0x3a, 0x20],
        [0x72, 0x6f, 0x6f, 0x74, 0x0d]⟩, ⟨[0x23, 0x20], []⟩]) =
      [⟨[0x6c, 0x6f, 0x67, 0x69, 0x6e, 0x3a, 0x20], [0x72, 0x6f, 0x6f, 0x74, 0x0d]⟩,
        ⟨[0x23, 0x20], []⟩] := by
  refine parse_written_dialog (by decide) ?_
  intro d hd
  simp only [List.mem_cons, List.not_mem_nil, or_false] at hd
  rcases hd with rfl | rfl
  · exact ⟨by decide, by decide, by decide, by decide⟩
  · exact ⟨by decide, by decide, by decide, by decide⟩

end Pdp11
