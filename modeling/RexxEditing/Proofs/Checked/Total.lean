import RexxEditing.Proofs.Checked.Format
import RexxEditing.Proofs.Checked.Outline
import RexxEditing.Proofs.Checked.Semantic

/-! # Every text has its answers

The functions on texts with all arithmetic on places checked: a span that leaves the text, cuts a
character or ends before it starts has no answer, and neither has a loop that does not end, a line
that is not there or a difference of numbers that are not in order. All of them give what the plain
functions give. Only a column may be too large, as each line may stand an offset further right than
the one above. Then the column is not below the limit, or there is no room for the line.

* `columnOf_le_of_mem_lines`: columns of the lines of a text, by its size.
* `columnOf_le_of_mem_indented`: columns of the lines in their places, by the number of lines.
* `answers_exist`: all answers to a text.
* `answers_missing`: a line without room.
-/

namespace RexxEditing.Checked

open Text (byteSize linesSize)
open Indent (Buffer LineKind CodeLine columnOf columnFrom tabWidth)
open Format (LineRange)

/-! ## How far lines are indented -/

theorem columnFrom_le (column : Nat) (line : Text) :
    columnFrom column line ≤ column + tabWidth * line.byteSize := by
  fun_induction columnFrom column line with
  | case1 column cs ih =>
    have hSize : byteSize (' ' :: cs) = 1 + byteSize cs := rfl
    rw [hSize, tabWidth] at *
    omega
  | case2 column cs ih =>
    have hSize : byteSize ('\t' :: cs) = 1 + byteSize cs := rfl
    rw [hSize, tabWidth] at *
    omega
  | case3 => exact Nat.le_add_right _ _

theorem byteSize_lt_linesSize {lines : List Text} {line : Text} (h : line ∈ lines) :
    line.byteSize < linesSize lines := by
  induction lines with
  | nil => cases h
  | cons first rest ih =>
    rw [Text.linesSize_cons]
    rcases List.mem_cons.1 h with rfl | hRest
    · omega
    · have hLess := ih hRest
      omega

/-- A line is indented by a tab for each byte of the text at most. -/
theorem columnOf_le_of_mem_lines {text line : Text} (h : line ∈ text.lines) :
    columnOf line ≤ tabWidth * text.byteSize := by
  have hSize := byteSize_lt_linesSize h
  rw [Text.linesSize_lines] at hSize
  have hColumn := columnFrom_le 0 line
  rw [Nat.zero_add] at hColumn
  exact Nat.le_trans hColumn (Nat.mul_le_mul_left _ (Nat.le_of_lt_succ hSize))

theorem columnBelow_le (offset : Nat) (kind : LineKind) (above : CodeLine) :
    Indent.columnBelow offset kind above ≤ columnOf above.text + offset := by
  unfold Indent.columnBelow
  dsimp only
  split
  · omega
  · omega
  · split <;> omega

/-- A line stands an offset further right than some line above it at most. -/
theorem columnWith_le {b : Buffer} {i m : Nat}
    (h : ∀ numbered ∈ b.linesBefore i, columnOf numbered.2 ≤ m) (offset : Nat)
    (states : List State) : Indent.columnWith b i offset states ≤ m + offset := by
  unfold Indent.columnWith
  split
  next => exact Nat.zero_le _
  next above hAbove =>
    have hText := h _ (mem_of_findCodeLine? hAbove)
    exact Nat.le_trans (columnBelow_le offset _ above) (Nat.add_le_add_right hText _)

section Place

variable {offset m : Nat} {states : List State} {above : List Text}

theorem columnOf_place_le (hAbove : ∀ l ∈ above, columnOf l ≤ m) {line : Text}
    (hLine : columnOf line ≤ m) (entry : State) :
    columnOf (Indent.place offset states above entry line) ≤ m + offset := by
  cases entry with
  | inside region => exact Nat.le_trans hLine (Nat.le_add_right _ _)
  | normal =>
    by_cases hTrim : line.trimStart = []
    · rw [Indent.place_white _ _ _ hTrim]
      exact Nat.zero_le _
    · rw [Indent.columnOf_place _ _ _ hTrim]
      exact columnWith_le (fun numbered h => hAbove _ (mem_of_mem_linesBefore_length h)) offset
        states

/-- **Columns of indented lines.** Each line adds an offset at most. -/
theorem columnOf_le_of_mem_indented (hAbove : ∀ l ∈ above, columnOf l ≤ m)
    {lines : List Text} (hLines : ∀ l ∈ lines, columnOf l ≤ m) (entry : State) :
    ∀ l ∈ Indent.indented offset states above entry lines,
      columnOf l ≤ m + offset * lines.length := by
  induction lines generalizing m above entry with
  | nil =>
    intro l hl
    cases hl
  | cons line rest ih =>
    obtain ⟨hLine, hRest⟩ := List.forall_mem_cons.1 hLines
    have hPlaced : columnOf (Indent.place offset states above entry line.dropReturn) ≤
        m + offset :=
      columnOf_place_le hAbove ((Indent.columnOf_dropReturn line).trans_le hLine) entry
    have hMore {l : Text} (h : columnOf l ≤ m) : columnOf l ≤ m + offset :=
      Nat.le_trans h (Nat.le_add_right _ _)
    -- All lines so far may stand an offset further right than before.
    have hBelow := ih
      (List.forall_mem_append.2
        ⟨fun l hl => hMore (hAbove l hl), List.forall_mem_singleton.2 hPlaced⟩)
      (fun l hl => hMore (hRest l hl)) (entry.next line)
    have hSum : m + offset + offset * rest.length = m + offset * (line :: rest).length := by
      rw [List.length_cons, Nat.mul_succ]
      omega
    rw [hSum] at hBelow
    refine List.forall_mem_cons.2 ⟨?_, hBelow⟩
    rw [columnOf, Indent.columnFrom_append_ending]
    exact Nat.le_trans hPlaced (by omega)

end Place

/-- The limit is above a tab for each byte of a text and an offset for each of its lines. -/
def IsAbove (limit offset : Nat) (text : Text) : Prop :=
  tabWidth * text.byteSize + offset * text.lines.length < limit

section IsAbove

variable {limit offset : Nat} {text : Text}

theorem IsAbove.lines (h : IsAbove limit offset text) : ∀ l ∈ text.lines, columnOf l < limit := by
  intro l hl
  have hColumn := columnOf_le_of_mem_lines hl
  rw [IsAbove] at h
  omega

theorem IsAbove.column (h : IsAbove limit offset text) (i : Nat) :
    Indent.column (.ofText text) i offset < limit := by
  refine Nat.lt_of_le_of_lt ?_ h
  have hLines : ∀ numbered ∈ (Buffer.ofText text).linesBefore i,
      columnOf numbered.2 ≤ tabWidth * text.byteSize := by
    intro numbered hMem
    obtain ⟨line, hLine, hDrop⟩ :=
      List.mem_map.1 (List.mem_of_mem_take (mem_take_of_mem_linesBefore hMem))
    rw [← hDrop, Indent.columnOf_dropReturn]
    exact columnOf_le_of_mem_lines hLine
  have hPos : 1 ≤ text.lines.length := by
    rw [Text.length_lines]
    omega
  exact Nat.le_trans (columnWith_le hLines offset _)
    (Nat.add_le_add_left (Nat.le_mul_of_pos_right offset hPos) _)

theorem IsAbove.reindent (h : IsAbove limit offset text) :
    ∀ l ∈ (Indent.reindent offset text).lines, columnOf l < limit := by
  intro l hl
  rw [Indent.lines_reindent] at hl
  refine Nat.lt_of_le_of_lt ?_ h
  exact columnOf_le_of_mem_indented (fun _ hNil => absurd hNil List.not_mem_nil)
    (fun _ hLine => columnOf_le_of_mem_lines hLine) .normal l hl

/-- There is room for all lines if the limit is no larger than a text. -/
theorem IsAbove.hasRoom (h : IsAbove limit offset text) (hLimit : limit ≤ Text.maxSize + 1) :
    Indent.HasRoom offset text := by
  intro placed hPlaced _
  have hColumn := h.reindent _ (List.of_mem_zip hPlaced).2
  omega

end IsAbove

/-! ## All answers -/

/-- **Answers to a text.** Every text can be read from every state, and has its outline and its
semantic tokens with their numbers. The column of a line is found if it and the columns of the lines
above are below the limit. If the columns of the indented lines are, the text is indented and
formatted exactly if there is room for its lines. The columns are below the limit if it is above a
tab for each byte and an offset for each line, and then there is room if the limit is no larger than
a text. -/
theorem answers_exist (text : Text) :
    (∀ entry, classify? text entry = some (classify text entry) ∧
      lineStates? text entry = some (lineStates text entry)) ∧
    routines? text = some (Outline.routines text) ∧
    symbols? text = some (Outline.symbols text) ∧
    semanticTokens? text = some (SemanticToken.ofText text) ∧
    (∃ numbers, numbers? text = some numbers ∧
      SemanticToken.encodeAll? (SemanticToken.ofText text) = some numbers) ∧
    (∀ limit offset i, (∀ l ∈ text.lines.take i, columnOf l < limit) →
      Indent.column (.ofText text) i offset < limit →
      column? limit (.ofText text) i offset = some (Indent.column (.ofText text) i offset)) ∧
    (∀ limit offset, (∀ l ∈ (Indent.reindent offset text).lines, columnOf l < limit) →
      (Indent.HasRoom offset text →
        reindent? limit offset text = some (Indent.reindent offset text) ∧
        document? limit offset text = some (Format.document offset text) ∧
        ∀ r : LineRange, lines? limit offset text r = some (Format.lines offset text r)) ∧
      (¬ Indent.HasRoom offset text →
        reindent? limit offset text = none ∧ document? limit offset text = none ∧
        ∀ r : LineRange, lines? limit offset text r = none)) ∧
    (∀ limit offset, IsAbove limit offset text →
      (∀ i, (∀ l ∈ text.lines.take i, columnOf l < limit) ∧
        Indent.column (.ofText text) i offset < limit) ∧
      (∀ l ∈ (Indent.reindent offset text).lines, columnOf l < limit) ∧
      (limit ≤ Text.maxSize + 1 → Indent.HasRoom offset text)) := by
  refine ⟨fun entry => ⟨classify?_eq text entry, lineStates?_eq text entry⟩, routines?_eq text,
    symbols?_eq text, semanticTokens?_eq text, exists_numbers? text, ?_, ?_, ?_⟩
  · intro limit offset i hLines hColumn
    exact column?_eq hLines hColumn
  · intro limit offset hLines
    simp only [reindent?_eq hLines, document?_eq hLines, lines?_eq hLines, Indent.reindent?_eq,
      Format.document?_eq, Format.lines?_eq]
    constructor
    · intro hRoom
      simp only [if_pos hRoom, implies_true, and_self]
    · intro hRoom
      simp only [if_neg hRoom, implies_true, and_self]
  · intro limit offset hAbove
    refine ⟨fun i => ⟨fun l hl => ?_, hAbove.column i⟩, hAbove.reindent, hAbove.hasRoom⟩
    exact hAbove.lines l (List.mem_of_mem_take hl)

/-- A loop with a string over two lines, some characters of which take two bytes. -/
theorem answers_exist_in_loop :
    let text := "do\r\n\tsay 'é\nü'\nend".toList
    IsAbove 65536 3 text ∧ column? 65536 (.ofText text) 1 3 = some 3 ∧
      reindent? 65536 3 text = some "do\r\n   say 'é\nü'\nend".toList ∧
      document? 65536 3 text = some [⟨⟨4, 13⟩, "   say 'é\n".toList⟩] := by
  intro text
  have hAbove : IsAbove 65536 3 text := by
    unfold IsAbove
    decide +kernel
  obtain ⟨-, -, -, -, -, hColumn, hReindent, hFits⟩ := answers_exist text
  obtain ⟨hColumns, hLines, hRoom⟩ := hFits 65536 3 hAbove
  obtain ⟨hText, hEdits, -⟩ := (hReindent 65536 3 hLines).1 (hRoom (by decide))
  refine ⟨hAbove, ?_, hText.trans ?_, hEdits.trans ?_⟩
  · refine (hColumn 65536 3 1 (hColumns 1).1 (hColumns 1).2).trans ?_
    decide +kernel
  · decide +kernel
  · decide +kernel

/-- **No room.** With an offset of 2⁶³, the second line of a loop has a column of 64 bits, and there
is no text of so many spaces. So the text is not indented, and has no edits. -/
theorem answers_missing :
    let text : Text := "do\nx".toList
    (∀ l ∈ (Indent.reindent (1 <<< 63) text).lines, columnOf l < 1 <<< 64) ∧
      reindent? (1 <<< 64) (1 <<< 63) text = none ∧ document? (1 <<< 64) (1 <<< 63) text = none ∧
      lines? (1 <<< 64) (1 <<< 63) text ⟨2, 3⟩ = none := by
  intro text
  have hText : text.lines = ["do".toList, "x".toList] := by decide
  have hColumns : ∀ l ∈ (Indent.reindent (1 <<< 63) text).lines, columnOf l < 1 <<< 64 := by
    rw [Indent.lines_reindent, hText]
    -- the first line stands at column zero, and the second an offset further right at most
    refine List.forall_mem_cons.2 ⟨by decide +kernel, fun l hl => ?_⟩
    have hLe := columnOf_le_of_mem_indented (List.forall_mem_singleton.2 (by decide +kernel))
      (List.forall_mem_singleton.2 (Nat.le_refl (columnOf "x".toList))) _ l hl
    exact Nat.lt_of_le_of_lt hLe (by decide)
  have hNone : Indent.reindent? (1 <<< 63) text = none := by decide +kernel
  have hDocument : Format.document? (1 <<< 63) text = none := by
    rw [Format.document?, hNone, Option.map_none]
  refine ⟨hColumns, (reindent?_eq hColumns).trans hNone,
    (document?_eq hColumns).trans hDocument, (lines?_eq hColumns _).trans ?_⟩
  rw [Format.lines?, hDocument, Option.map_none]

end RexxEditing.Checked
