import RexxEditing.Proofs.Highlight.Case
import RexxEditing.Proofs.Indent.Column
import RexxEditing.Proofs.Indent.Placement

/-! # Columns in any case

The indenter reads white space, the leading word of a line and the words of its code. None of them
tells a capital from its small letter, so a line goes to the same column in any case.

* `Buffer.lower`, `column_lower`: the columns of a buffer in small letters.
* `reindent_lower`: a text in small letters is indented like the text.
* `differences_reindent`: two indented texts differ in the letters in which the texts do.
-/

namespace RexxEditing.Indent

open Text (lower differences)

/-! ## What a line says -/

theorem startsWith_lower (line : Text) (word : String) :
    startsWith line.lower word = startsWith line word := by
  have hBlind : CaseBlind isLeadingWordChar := caseBlind_of_capitals (by decide)
  rw [startsWith, leadingWord, Text.trimStart_lower, Text.takeWhile_lower hBlind,
    Text.eqIgnoreCase_lower]
  rfl

theorem LineKind.ofLine_lower (line : Text) : ofLine line.lower = ofLine line := by
  simp only [ofLine, startsWith_lower]

theorem columnFrom_lower (n : Nat) (line : Text) : columnFrom n line.lower = columnFrom n line := by
  induction line generalizing n with
  | nil => rfl
  | cons c cs ih =>
    by_cases hSpace : c = ' '
    · subst hSpace
      exact ih (n + 1)
    by_cases hTab : c = '\t'
    · subst hTab
      exact ih ((n / tabWidth + 1) * tabWidth)
    have hSpace' : c.toLower ≠ ' ' := mt (toLower_eq_iff rfl).1 hSpace
    have hTab' : c.toLower ≠ '\t' := mt (toLower_eq_iff rfl).1 hTab
    rw [Text.lower_cons, columnFrom_cons_of_ne hSpace' hTab', columnFrom_cons_of_ne hSpace hTab]

theorem opensBlock_lower (code : Text) : opensBlock code.lower = opensBlock code := by
  simp only [opensBlock, startsWith_lower, Text.words_lower, List.any_map, Function.comp_def,
    Text.fold_lower]

/-! ## The code line above -/

/-- The code line in small letters. -/
def CodeLine.lower (line : CodeLine) : CodeLine := ⟨line.index, line.text.lower, line.code.lower⟩

theorem codeSpan?_lower (line : Text) (entry : State) :
    codeSpan? line.lower entry = codeSpan? line entry := by
  simp only [codeSpan?, LineScan.ofLine_lower, Text.byteSize_lower]

theorem CodeLine.ofLine?_lower (index : Nat) (text : Text) (entry : State) :
    ofLine? index text.lower entry = (ofLine? index text entry).map lower := by
  unfold ofLine?
  rw [codeSpan?_lower]
  cases codeSpan? text entry with
  | none => rfl
  | some span =>
    simp only [Option.bind_eq_bind, Option.bind_some, Span.text?, Text.slice?_lower]
    cases text.slice? span.start span.stop <;> rfl

theorem findCodeLine?_map_lower (lines : List (Nat × Text)) (states : List State) :
    findCodeLine? (lines.map fun (k, line) => (k, line.lower)) states =
      (findCodeLine? lines states).map CodeLine.lower := by
  induction lines with
  | nil => rfl
  | cons numbered rest ih =>
    obtain ⟨index, line⟩ := numbered
    unfold findCodeLine? at ih ⊢
    simp only [List.map_cons, List.findSome?_cons, CodeLine.ofLine?_lower, ih]
    cases CodeLine.ofLine? index line (states.getD index .normal) <;> rfl

theorem columnBelow_lower (offset : Nat) (kind : LineKind) (above : CodeLine) :
    columnBelow offset kind above.lower = columnBelow offset kind above := by
  simp only [columnBelow, CodeLine.lower, columnOf, columnFrom_lower, opensBlock_lower]

/-! ## Columns -/

namespace Buffer

/-- The buffer with its lines in small letters. -/
def lower (b : Buffer) : Buffer := ⟨b.count, fun i => (b.line? i).map Text.lower⟩

theorem ofLines_lower (lines : List Text) :
    ofLines (lines.map Text.lower) = (ofLines lines).lower := by
  simp [ofLines, lower]

theorem ofText_lower (text : Text) : ofText text.lower = (ofText text).lower := by
  have hReturn : Text.dropReturn ∘ Text.lower = Text.lower ∘ Text.dropReturn :=
    funext Text.dropReturn_lower
  rw [ofText, Text.lines_lower, List.map_map, hReturn, ← List.map_map, ofLines_lower]
  rfl

theorem linesBefore_lower (b : Buffer) (i : Nat) :
    b.lower.linesBefore i = (b.linesBefore i).map fun (k, line) => (k, line.lower) := by
  simp only [linesBefore, lower, List.map_filterMap, Option.map_map]
  rfl

theorem entryStates_lower (b : Buffer) (n : Nat) : b.lower.entryStates n = b.entryStates n := by
  have hLine (i : Nat) : (b.lower.line? i).getD [] = Text.lower ((b.line? i).getD []) := by
    show ((b.line? i).map Text.lower).getD [] = _
    cases b.line? i <;> rfl
  have hLines : (List.range n).map (fun i => (b.lower.line? i).getD []) =
      ((List.range n).map fun i => (b.line? i).getD []).map Text.lower := by
    rw [List.map_map]
    exact List.map_congr_left fun i _ => hLine i
  rw [entryStates, hLines, State.sequence_map_lower]
  rfl

theorem kind_lower (b : Buffer) (i : Nat) : b.lower.kind i = b.kind i := by
  simp only [kind, lower]
  cases b.line? i with
  | none => rfl
  | some line => exact LineKind.ofLine_lower line

end Buffer

theorem columnWith_lower (b : Buffer) (i offset : Nat) (states : List State) :
    columnWith b.lower i offset states = columnWith b i offset states := by
  unfold columnWith
  rw [Buffer.linesBefore_lower, findCodeLine?_map_lower, Buffer.kind_lower]
  cases findCodeLine? (b.linesBefore i) states with
  | none => rfl
  | some above => exact columnBelow_lower offset _ above

theorem columnWith_eq_of_lower_eq {lines lines' : List Text}
    (h : lines.map lower = lines'.map lower) (i offset : Nat) (states : List State) :
    columnWith (.ofLines lines) i offset states = columnWith (.ofLines lines') i offset states := by
  rw [← columnWith_lower, ← Buffer.ofLines_lower, h, Buffer.ofLines_lower, columnWith_lower]

/-- **Columns** are the same in any case. -/
theorem column_lower (b : Buffer) (i offset : Nat) :
    column b.lower i offset = column b i offset := by
  rw [column, Buffer.entryStates_lower, columnWith_lower]
  rfl

/-! ## Indented texts -/

section Indented

variable (offset : Nat) (states : List State)

theorem place_lower (above : List Text) (entry : State) (line : Text) :
    place offset states (above.map lower) entry line.lower =
      lower (place offset states above entry line) := by
  cases entry with
  | inside region => rfl
  | normal =>
    have hNil : line.lower.trimStart = [] ↔ line.trimStart = [] := by
      rw [Text.trimStart_lower, Text.lower_eq_nil_iff]
    by_cases h : line.trimStart = []
    · rw [place_white _ _ _ h, place_white _ _ _ (hNil.2 h), Text.lower_nil]
    · have hLower := mt hNil.1 h
      have hAbove : above.map lower ++ [lower line.trimStart] =
          (above ++ [line.trimStart]).map lower := by
        rw [List.map_append]
        rfl
      rw [place_body _ _ _ h, place_body _ _ _ hLower, Text.trimStart_lower, hAbove,
        Buffer.ofLines_lower, columnWith_lower, List.length_map, Text.lower_append,
        Text.lower_spaces]

theorem indented_lower (above : List Text) (entry : State) (lines : List Text) :
    indented offset states (above.map lower) entry (lines.map lower) =
      (indented offset states above entry lines).map lower := by
  induction lines generalizing above entry with
  | nil => rfl
  | cons line rest ih =>
    have hRest := ih (above ++ [place offset states above entry line.dropReturn]) (entry.next line)
    rw [List.map_append, List.map_singleton] at hRest
    simp only [List.map_cons, indented, Text.dropReturn_lower, place_lower, Text.ending_lower,
      State.next_lower, hRest, Text.lower_append, Text.lower_ending]

end Indented

/-- **A text in small letters** is indented like the text. -/
theorem reindent_lower (offset : Nat) (text : Text) :
    reindent offset text.lower = lower (reindent offset text) := by
  have hLines := indented_lower offset (lineStates text .normal) [] .normal text.lines
  rw [reindent_eq, reindent_eq, lineStates_lower, Text.lines_lower, ← Text.ofLines_lower, ← hLines]
  rfl

/-! ## Differences -/

section Differences

variable (offset : Nat) (states : List State) {above above' : List Text}
  (hAbove : above.map lower = above'.map lower)
include hAbove

theorem lower_place_eq {line line' : Text} (h : line.lower = line'.lower) (entry : State) :
    lower (place offset states above entry line) =
      lower (place offset states above' entry line') := by
  rw [← place_lower, ← place_lower, hAbove, h]

/-- Two lines in their places differ in the letters in which the lines do. -/
theorem differences_place {line line' : Text} (h : line.lower = line'.lower) (entry : State) :
    differences (place offset states above entry line) (place offset states above' entry line') =
      differences line line' := by
  cases entry with
  | inside region => rfl
  | normal =>
    have hTrim : lower line.trimStart = lower line'.trimStart := by
      rw [← Text.trimStart_lower, h, Text.trimStart_lower]
    rw [← Text.differences_trimStart h]
    have hNil : line'.trimStart = [] ↔ line.trimStart = [] := by
      rw [← Text.lower_eq_nil_iff, ← hTrim, Text.lower_eq_nil_iff]
    by_cases hLine : line.trimStart = []
    · have hLine' := hNil.2 hLine
      rw [place_white _ _ _ hLine, place_white _ _ _ hLine', hLine, hLine']
    · have hLine' := mt hNil.1 hLine
      have hLength : above.length = above'.length := by simpa using congrArg List.length hAbove
      have hLines : (above ++ [line.trimStart]).map lower =
          (above' ++ [line'.trimStart]).map lower := by
        rw [List.map_append, List.map_append, hAbove, List.map_singleton, hTrim]
        rfl
      have hColumn := columnWith_eq_of_lower_eq hLines above.length offset states
      rw [hLength] at hColumn
      rw [place_body _ _ _ hLine, place_body _ _ _ hLine', hLength, hColumn,
        Text.differences_append rfl, Text.differences_self, List.nil_append]

theorem zipWith_differences_indented {lines lines' : List Text}
    (h : lines.map lower = lines'.map lower) (entry : State) :
    List.zipWith differences (indented offset states above entry lines)
        (indented offset states above' entry lines') = List.zipWith differences lines lines' := by
  induction lines generalizing lines' above above' entry with
  | nil => rfl
  | cons line rest ih =>
    cases lines' with
    | nil => cases h
    | cons line' rest' =>
      obtain ⟨hLine, hRest⟩ := List.cons_eq_cons.1 h
      have hText : lower line.dropReturn = lower line'.dropReturn := by
        rw [← Text.dropReturn_lower, hLine, Text.dropReturn_lower]
      have hEnding : line.ending = line'.ending := by
        rw [← Text.ending_lower, hLine, Text.ending_lower]
      have hNext : entry.next line = entry.next line' := by
        rw [← State.next_lower, hLine, State.next_lower]
      have hPlaced := lower_place_eq offset states hAbove hText entry
      have hBelow : (above ++ [place offset states above entry line.dropReturn]).map lower =
          (above' ++ [place offset states above' entry line'.dropReturn]).map lower := by
        simp only [List.map_append, hAbove, List.map_singleton, hPlaced]
      simp only [indented, List.zipWith_cons_cons]
      rw [Text.differences_append (Text.length_eq_of_lower_eq hPlaced), hEnding,
        Text.differences_self, List.append_nil, differences_place offset states hAbove hText,
        Text.differences_dropReturn hLine, hNext, ih hBelow hRest]

end Differences

/-- **Two indented texts** differ in the letters in which the texts do. -/
theorem differences_reindent {s t : Text} (h : s.lower = t.lower) (offset : Nat) :
    differences (reindent offset s) (reindent offset t) = differences s t := by
  have hLines : s.lines.map lower = t.lines.map lower := by
    rw [← Text.lines_lower, h, Text.lines_lower]
  have hStates : lineStates s .normal = lineStates t .normal := by
    rw [← lineStates_lower, h, lineStates_lower]
  have hIndented : (indented offset (lineStates t .normal) [] .normal s.lines).map lower =
      (indented offset (lineStates t .normal) [] .normal t.lines).map lower := by
    rw [← indented_lower, hLines, indented_lower]
  calc differences (reindent offset s) (reindent offset t)
      = (List.zipWith differences (indented offset (lineStates t .normal) [] .normal s.lines)
          (indented offset (lineStates t .normal) [] .normal t.lines)).flatten := by
        rw [reindent_eq, reindent_eq, hStates, Text.differences_ofLines hIndented]
    _ = (List.zipWith differences s.lines t.lines).flatten := by
        rw [zipWith_differences_indented offset _ rfl hLines]
    _ = differences s t := by
        rw [← Text.differences_ofLines hLines, Text.ofLines_lines, Text.ofLines_lines]

end RexxEditing.Indent
