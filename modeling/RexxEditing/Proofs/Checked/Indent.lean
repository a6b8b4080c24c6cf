import Mathlib.Data.List.TakeWhile
import RexxEditing.Proofs.Checked.Document
import RexxEditing.Proofs.Indent.Room

/-! # Indenting at checked offsets and columns

The indenter cuts the code out of the line above, and the leading word out of a line. It adds up
columns, each of which has to stay below a limit, and it looks up states and lines by their numbers.
The spaces in front of a line have to fit into a text.

* `codeLine?_eq`: the span of the code cuts no character.
* `columnWith?_eq`, `column?_eq`: a column is found, if it is below the limit.
* `placeAll?_eq`, `reindent?_eq`: if all lines of the result are indented by less than the limit, a
  text is indented like in memory.
-/

namespace RexxEditing.Checked

open Text (byteSize)
open Indent (Buffer CodeLine LineKind)

/-! ## The code line above -/

/-- The part of a line that holds code, if any. -/
noncomputable def codeSpan? (line : Text) (entry : State) : Option (Option Span) := do
  let scan ← scanLine? line 0 entry none
  return (Indent.ownTokens? entry scan.tokens).bind fun own =>
    (Indent.codeStop? (Indent.codeEnd scan line.byteSize) own.2).map (⟨own.1, ·⟩)

noncomputable def codeLine? (index : Nat) (line : Text) (entry : State) :
    Option (Option CodeLine) := do
  match ← codeSpan? line entry with
  | none => return none
  | some span =>
    let code ← span.text? line
    return some ⟨index, line, code⟩

noncomputable def findCodeLine? (states : List State) :
    List (Nat × Text) → Option (Option CodeLine)
  | [] => some none
  | (index, line) :: rest => do
    match ← codeLine? index line (states.getD index .normal) with
    | some above => return some above
    | none => findCodeLine? states rest

theorem codeSpan?_eq (line : Text) (entry : State) :
    codeSpan? line entry = some (Indent.codeSpan? line entry) := by
  rw [codeSpan?, scanLine?_eq line entry (Nat.le_refl 0), Indent.codeSpan?_eq_codeStop?]
  rfl

/-- **The code of a line** is cut out of it. -/
theorem codeLine?_eq (index : Nat) (line : Text) (entry : State) :
    codeLine? index line entry = some (CodeLine.ofLine? index line entry) := by
  have hLine := Indent.CodeLine.ofLine?_eq index line entry
  rw [codeLine?, codeSpan?_eq]
  unfold CodeLine.ofLine? at hLine ⊢
  rw [Indent.codeSpan?_eq] at hLine ⊢
  cases hPart : Piece.codePart? (Piece.own entry line) with
  | none => rfl
  | some part =>
    -- a line with code has a code line, so its span is a part of the line
    rw [hPart] at hLine
    simp only [Option.map_some, Option.bind_eq_bind, Option.bind_some] at hLine ⊢
    obtain ⟨code, hCode, -⟩ := Option.bind_eq_some_iff.1 hLine
    rw [hCode]
    rfl

theorem findCodeLine?_eq (lines : List (Nat × Text)) (states : List State) :
    findCodeLine? states lines = some (Indent.findCodeLine? lines states) := by
  induction lines with
  | nil => rfl
  | cons numbered rest ih =>
    obtain ⟨index, line⟩ := numbered
    rw [findCodeLine?, codeLine?_eq, Indent.findCodeLine?, List.findSome?_cons]
    simp only [Option.bind_eq_bind, Option.bind_some]
    cases CodeLine.ofLine? index line (states.getD index .normal) with
    | some above => rfl
    | none => exact ih

theorem mem_of_findCodeLine? {lines : List (Nat × Text)} {states : List State} {above : CodeLine}
    (h : Indent.findCodeLine? lines states = some above) : (above.index, above.text) ∈ lines := by
  obtain ⟨⟨index, line⟩, hMem, hLine⟩ := List.exists_of_findSome?_eq_some h
  simp only [Indent.CodeLine.ofLine?_eq] at hLine
  obtain ⟨part, -, rfl⟩ := Option.map_eq_some_iff.1 hLine
  exact hMem

/-! ## Words -/

def leadingWord? (line : Text) : Option Text :=
  let rest := line.trimStart
  rest.slice? 0 ((findByte? (!Indent.isLeadingWordChar ·) rest).getD rest.byteSize)

def lineKind? (line : Text) : Option LineKind :=
  (leadingWord? line).map fun word =>
    if word.eqIgnoreCase "end".toList then .close
    else if word.eqIgnoreCase "when".toList || word.eqIgnoreCase "otherwise".toList then .mid
    else .plain

def opensBlock? (code : Text) : Option Bool :=
  (leadingWord? code).map fun word =>
    word.eqIgnoreCase "else".toList ||
      code.words.any fun word => Indent.blockOpeners.contains (Text.fold word)

/-- The text up to the first character with a property is cut out of the text. -/
theorem slice?_findByte? (p : Char → Bool) (t : Text) :
    t.slice? 0 ((findByte? p t).getD t.byteSize) = some (t.takeWhile (!p ·)) := by
  have hSlice (a b : Text) : (a ++ b).slice? 0 a.byteSize = some a := by
    simpa using Text.slice?_append [] a b
  by_cases hAny : t.any p = true
  · have hTake := hSlice (t.takeWhile (!p ·)) (t.dropWhile (!p ·))
    rw [List.takeWhile_append_dropWhile] at hTake
    rw [findByte?, if_pos hAny]
    exact hTake
  · have hNone : ∀ c ∈ t, p c = false := by simpa using hAny
    have hTake : t.takeWhile (!p ·) = t := by
      rw [List.takeWhile_eq_self_iff]
      intro c hc
      rw [hNone c hc]
      rfl
    have hWhole := hSlice t []
    rw [List.append_nil] at hWhole
    rw [findByte?_eq_none hNone, hTake]
    exact hWhole

theorem leadingWord?_eq (line : Text) : leadingWord? line = some (Indent.leadingWord line) := by
  rw [leadingWord?, slice?_findByte?, Indent.leadingWord]
  simp only [Bool.not_not]

theorem lineKind?_eq (line : Text) : lineKind? line = some (LineKind.ofLine line) := by
  rw [lineKind?, leadingWord?_eq]
  rfl

theorem opensBlock?_eq (code : Text) : opensBlock? code = some (Indent.opensBlock code) := by
  rw [opensBlock?, leadingWord?_eq]
  rfl

/-! ## Columns -/

/-- A number that has to stay below the limit. -/
def fit? (limit n : Nat) : Option Nat := if n < limit then some n else none

theorem fit?_eq {limit n : Nat} (h : n < limit) : fit? limit n = some n := if_pos h

def columnFrom? (limit column : Nat) : Text → Option Nat
  | ' ' :: cs => (fit? limit (column + 1)).bind fun next => columnFrom? limit next cs
  | '\t' :: cs =>
    (fit? limit ((column / Indent.tabWidth + 1) * Indent.tabWidth)).bind fun next =>
      columnFrom? limit next cs
  | _ => some column

noncomputable def columnWith? (limit : Nat) (b : Buffer) (i offset : Nat) (states : List State) :
    Option Nat := do
  let kind ← ((b.line? i).map lineKind?).getD (some .plain)
  match ← findCodeLine? states (b.linesBefore i) with
  | none => return 0
  | some above =>
    let column ← columnFrom? limit 0 above.text
    match kind with
    | .close | .mid => return column - offset
    | .plain =>
      if ← opensBlock? above.code then fit? limit (column + offset)
      else return column

/-- The states in which lines are entered that follow each other. -/
noncomputable def entryStates? (entry : State) : List Text → Option (List State)
  | [] => some []
  | line :: rest => do
    let scan ← scanLine? line 0 entry none
    let states ← entryStates? scan.exit rest
    return entry :: states

noncomputable def column? (limit : Nat) (b : Buffer) (i offset : Nat) : Option Nat := do
  let lines := (List.range (min i b.count)).map fun k => (b.line? k).getD []
  let states ← entryStates? .normal lines
  columnWith? limit b i offset states

theorem lt_tab (column : Nat) : column < (column / Indent.tabWidth + 1) * Indent.tabWidth := by
  rw [Indent.tabWidth]
  omega

theorem le_columnFrom (column : Nat) (line : Text) : column ≤ Indent.columnFrom column line := by
  fun_induction Indent.columnFrom column line with
  | case1 column cs ih => exact Nat.le_of_succ_le ih
  | case2 column cs ih => exact Nat.le_trans (Nat.le_of_lt (lt_tab column)) ih
  | case3 => exact Nat.le_refl _

/-- Columns only grow along a line. -/
theorem columnFrom?_eq {limit column : Nat} {line : Text}
    (h : Indent.columnFrom column line < limit) :
    columnFrom? limit column line = some (Indent.columnFrom column line) := by
  fun_induction Indent.columnFrom column line with
  | case1 column cs ih =>
    rw [columnFrom?, fit?_eq (Nat.lt_of_le_of_lt (le_columnFrom _ cs) h), Option.bind_some, ih h]
  | case2 column cs ih =>
    rw [columnFrom?, fit?_eq (Nat.lt_of_le_of_lt (le_columnFrom _ cs) h), Option.bind_some, ih h]
  | case3 line column hSpace hTab => rw [columnFrom?] <;> assumption

/-- **A column** below the limit is found, if the lines above are indented by less. -/
theorem columnWith?_eq {limit : Nat} {b : Buffer} {i offset : Nat} {states : List State}
    (hLines : ∀ numbered ∈ b.linesBefore i, Indent.columnOf numbered.2 < limit)
    (hColumn : Indent.columnWith b i offset states < limit) :
    columnWith? limit b i offset states = some (Indent.columnWith b i offset states) := by
  have hKind : ((b.line? i).map lineKind?).getD (some .plain) = some (b.kind i) := by
    rw [Buffer.kind]
    cases b.line? i with
    | none => rfl
    | some line => exact lineKind?_eq line
  unfold Indent.columnWith at hColumn ⊢
  rw [columnWith?, hKind, findCodeLine?_eq]
  simp only [Option.bind_eq_bind, Option.bind_some]
  cases hAbove : Indent.findCodeLine? (b.linesBefore i) states with
  | none => rfl
  | some above =>
    have hText : columnFrom? limit 0 above.text = some (Indent.columnOf above.text) :=
      columnFrom?_eq (hLines _ (mem_of_findCodeLine? hAbove))
    simp only [hAbove, Indent.columnBelow] at hColumn
    simp only [hText, opensBlock?_eq, Option.bind_some, Indent.columnBelow]
    cases hKind : b.kind i with
    | close | mid => rfl
    | plain =>
      simp only [hKind] at hColumn
      cases hOpens : Indent.opensBlock above.code with
      | false => simp
      | true =>
        simp only [hOpens, if_true] at hColumn ⊢
        exact fit?_eq hColumn

theorem entryStates?_eq (entry : State) (lines : List Text) :
    entryStates? entry lines = some (entry.sequence lines) := by
  induction lines generalizing entry with
  | nil => rfl
  | cons line rest ih =>
    rw [entryStates?, scanLine?_eq line entry (Nat.le_refl 0)]
    simp only [Option.bind_eq_bind, Option.bind_some, ih]
    rfl

/-- The state of the next line, and the states behind it. -/
theorem sequence_step {states before : List State} {entry : State} {line : Text}
    {rest : List Text} {n : Nat} (hLength : before.length = n)
    (hStates : states = before ++ entry.sequence (line :: rest)) :
    states[n]? = some entry ∧ states = (before ++ [entry]) ++ (entry.next line).sequence rest := by
  constructor
  · rw [hStates, ← hLength, List.getElem?_append_right (Nat.le_refl _), Nat.sub_self]
    rfl
  · rw [hStates, State.sequence, List.append_assoc, List.singleton_append]

theorem mem_take_of_mem_linesBefore {lines : List Text} {i : Nat} {numbered : Nat × Text}
    (h : numbered ∈ (Buffer.ofLines lines).linesBefore i) : numbered.2 ∈ lines.take i := by
  have hLess := Indent.Buffer.lt_of_mem_linesBefore h
  obtain ⟨k, -, hLine⟩ := List.mem_filterMap.1 h
  obtain ⟨line, hk, rfl⟩ := Option.map_eq_some_iff.1 hLine
  exact List.mem_of_getElem? ((List.getElem?_take_of_lt hLess).trans hk)

theorem mem_of_mem_linesBefore_length {above below : List Text} {numbered : Nat × Text}
    (h : numbered ∈ (Buffer.ofLines (above ++ below)).linesBefore above.length) :
    numbered.2 ∈ above := by
  have hMem := mem_take_of_mem_linesBefore h
  rwa [List.take_left] at hMem

/-- **The column of a line** of a text is found if it is below the limit, and the lines above are
indented by less. -/
theorem column?_eq {limit : Nat} {text : Text} {i : Nat}
    (hLines : ∀ line ∈ text.lines.take i, Indent.columnOf line < limit) {offset : Nat}
    (hColumn : Indent.column (.ofText text) i offset < limit) :
    column? limit (.ofText text) i offset = some (Indent.column (.ofText text) i offset) := by
  rw [column?, entryStates?_eq]
  refine columnWith?_eq (fun numbered h => ?_) hColumn
  have hMem := mem_take_of_mem_linesBefore h
  rw [← List.map_take] at hMem
  obtain ⟨line, hLine, hDrop⟩ := List.mem_map.1 hMem
  rw [← hDrop, Indent.columnOf_dropReturn]
  exact hLines line hLine

/-! ## Lines in their places -/

/-- The lines with line `i`, which has to be there, replaced. -/
def setLine? (lines : List Text) (i : Nat) (line : Text) : Option (List Text) :=
  if i < lines.length then some (lines.set i line) else none

/-- The lines `above` with line `i` in its place below them. -/
noncomputable def place? (limit offset : Nat) (states : List State) (above : List Text) (i : Nat)
    (line : Text) : Option (List Text) := do
  match ← states[i]? with
  | .inside _ => return above ++ [line]
  | .normal =>
    let body := line.trimStart
    if body.isAllWhite then return above ++ [[]]
    else
      let lines := above ++ [body]
      let column ← columnWith? limit (.ofLines lines) i offset states
      let front ← Text.spaces? column
      setLine? lines i (front ++ body)

noncomputable def placeAll? (limit offset : Nat) (states : List State) (above : List Text)
    (i : Nat) : List Text → Option (List Text)
  | [] => some above
  | line :: rest => do
    let lines ← place? limit offset states above i line
    placeAll? limit offset states lines (i + 1) rest

noncomputable def reindent? (limit offset : Nat) (text : Text) : Option Text := do
  let states ← lineStates? text .normal
  let parts := text.lines.map Text.splitReturn
  let placed ← placeAll? limit offset states [] 0 (parts.map Prod.fst)
  return Text.ofLines (List.zipWith (· ++ ·) placed (parts.map Prod.snd))

section Place

variable {limit offset : Nat} {states : List State}

theorem setLine?_append (above : List Text) (line line' : Text) :
    setLine? (above ++ [line]) above.length line' = some (above ++ [line']) := by
  have hLess : above.length < (above ++ [line]).length := by simp
  rw [setLine?, if_pos hLess, List.set_append_right _ _ (Nat.le_refl _), Nat.sub_self]
  rfl

/-- One line is put in its place like in memory, if it is indented there by less than the limit. -/
theorem place?_eq {above : List Text} {entry : State} (hEntry : states[above.length]? = some entry)
    (hAbove : ∀ l ∈ above, Indent.columnOf l < limit) {line : Text}
    (hLine : Indent.columnOf (Indent.place offset states above entry line) < limit) :
    place? limit offset states above above.length line =
      (Indent.place? offset states above entry line).map (above ++ [·]) := by
  rw [place?, hEntry]
  simp only [Option.bind_eq_bind, Option.bind_some]
  cases entry with
  | inside region => rfl
  | normal =>
    by_cases hTrim : line.trimStart = []
    · rw [Indent.place?_white _ _ _ hTrim, hTrim]
      rfl
    · have hWhite : ¬ line.trimStart.isAllWhite = true := by
        rwa [← Text.trimStart_eq_nil_iff, Text.trimStart_trimStart]
      rw [Indent.columnOf_place _ _ _ hTrim] at hLine
      rw [if_neg hWhite, columnWith?_eq
        (fun numbered h => hAbove _ (mem_of_mem_linesBefore_length h)) hLine,
        Indent.place?_body _ _ _ hTrim, Option.bind_some]
      cases Text.spaces? (Indent.columnWith (.ofLines (above ++ [line.trimStart])) above.length
        offset states) with
      | none => rfl
      | some front => exact setLine?_append above _ _

/-- **All lines** are put in their places like in memory. -/
theorem placeAll?_eq {before : List State} {above : List Text}
    (hLength : before.length = above.length) {entry : State} {lines : List Text}
    (hStates : states = before ++ entry.sequence lines)
    (hAbove : ∀ l ∈ above, Indent.columnOf l < limit)
    (hLines : ∀ l ∈ Indent.indented offset states above entry lines, Indent.columnOf l < limit) :
    placeAll? limit offset states above above.length (lines.map Text.dropReturn) =
      Indent.placeAll? offset states above
        ((entry.sequence lines).zip (lines.map Text.dropReturn)) := by
  induction lines generalizing before above entry with
  | nil => rfl
  | cons line rest ih =>
    obtain ⟨hLine, hRest⟩ := List.forall_mem_cons.1 hLines
    obtain ⟨hEntry, hStates'⟩ := sequence_step hLength hStates
    rw [Indent.columnOf, Indent.columnFrom_append_ending] at hLine
    have hLength' : (before ++ [entry]).length =
        (above ++ [Indent.place offset states above entry line.dropReturn]).length := by
      simp [hLength]
    have hAbove' := List.forall_mem_append.2 ⟨hAbove, List.forall_mem_singleton.2 hLine⟩
    have hBelow := ih hLength' hStates' hAbove' hRest
    rw [List.length_append] at hBelow
    rw [List.map_cons, placeAll?, place?_eq hEntry hAbove hLine, State.sequence,
      List.zip_cons_cons, Indent.placeAll?, Indent.place?_eq]
    split
    · exact hBelow
    · rfl

end Place

/-- **Indenting a text** ends like in memory, if no line of the result is indented by the limit or
more. -/
theorem reindent?_eq {limit offset : Nat} {text : Text}
    (h : ∀ line ∈ (Indent.reindent offset text).lines, Indent.columnOf line < limit) :
    reindent? limit offset text = Indent.reindent? offset text := by
  rw [Indent.lines_reindent] at h
  have hPlaced := placeAll?_eq (List.length_nil.trans List.length_nil.symm)
    (List.nil_append _).symm (fun _ h => absurd h List.not_mem_nil) h
  have hLines : (text.lines.map Text.splitReturn).map Prod.fst = text.lines.map Text.dropReturn :=
    List.map_map ..
  rw [List.length_nil, ← hLines, ← lineStates] at hPlaced
  rw [reindent?, lineStates?_eq, Indent.reindent?]
  simp only [Option.bind_eq_bind, Option.bind_some, hPlaced]

end RexxEditing.Checked
