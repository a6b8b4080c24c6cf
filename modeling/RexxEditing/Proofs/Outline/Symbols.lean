import RexxEditing.Outline.Symbols
import RexxEditing.Proofs.Outline.Routines

/-! # Symbols tile the text

The symbol of a routine runs from the start of its line to the end of the line before the next
routine, or to the end of the text. So what is from the first routine on is cut into the symbols and
one line feed between every two of them.

* `routineEnd_eq`: the end of a routine by the lines of the text.
* `shows_ofRoutine`: the symbol of one routine.
* `symbols_tile`: the symbols of a text.
-/

namespace RexxEditing

/-- Whether the ends of the range are at the positions of their bytes. -/
structure Range.IsPlaced (range : Range) (text : Text) : Prop where
  start : text.IsAt range.span.start range.start
  stop : text.IsAt range.span.stop range.stop

theorem Range.isPlaced_range {text : Text} {span : Span} (hStart : span.start ≤ text.byteSize)
    (hStop : span.stop ≤ text.byteSize) : ((LineTable.ofText text).range span).IsPlaced text :=
  ⟨Text.isAt_position hStart, Text.isAt_position hStop⟩

namespace Outline

open Text (linesSize)

variable {text : Text} {r : Routine}

/-! ## Where a routine ends -/

/-- The byte where a routine ends that is followed by a routine on line `next?`. -/
def stopBefore (text : Text) (next? : Option Nat) : Nat :=
  match next? with
  | none => text.byteSize
  | some next => linesSize (text.lines.take next) - 1

/-- Whether a routine on the line can be followed by one on line `next?`. -/
def IsFollowed (text : Text) (line : Nat) (next? : Option Nat) : Prop :=
  ∀ next, next? = some next → line < next ∧ next < text.lines.length

theorem routineEnd_eq {line : Nat} {next? : Option Nat} (h : IsFollowed text line next?) :
    routineEnd (LineTable.ofText text) next? = stopBefore text next? := by
  cases next? with
  | none => rfl
  | some next =>
    obtain ⟨hLess, hNext⟩ := h next rfl
    obtain ⟨above, rfl⟩ : ∃ above, next = above + 1 := Nat.exists_eq_add_one.2 (by omega)
    have hLine := List.getElem?_eq_getElem (show above < text.lines.length by omega)
    rw [routineEnd, Text.span?_ofText hLine, stopBefore, Text.linesSize_take_succ hLine]
    rfl

/-- A routine ends no earlier than its line. -/
theorem le_stopBefore {line : Text} {i : Nat} (hLine : text.lines[i]? = some line)
    {next? : Option Nat} (h : IsFollowed text i next?) :
    linesSize (text.lines.take i) + line.byteSize ≤ stopBefore text next? := by
  cases next? with
  | none =>
    have hLe := text.linesSize_take_le (i + 1)
    rw [Text.linesSize_take_succ hLine] at hLe
    exact Nat.le_of_succ_le_succ hLe
  | some next =>
    have hMono := Text.linesSize_take_mono text.lines (show i + 1 ≤ next from (h next rfl).1)
    rw [Text.linesSize_take_succ hLine] at hMono
    exact Nat.le_sub_one_of_lt hMono

/-! ## Symbols -/

/-- Whether the symbol shows the routine: its name where the label has it, inside of a range that
starts with the line of the label. -/
structure Symbol.Shows (text : Text) (r : Routine) (s : Symbol) : Prop where
  name_eq : s.name = r.name
  kind_eq : s.kind = r.kind
  selection_eq : s.selection = r.range
  selected : s.selection.span.text? text = some r.name
  start_eq : (LineTable.ofText text).start? r.line = some s.range.span.start
  inside : s.range.span.start ≤ s.selection.span.start ∧
    s.selection.span.start ≤ s.selection.span.stop ∧
    s.selection.span.stop ≤ s.range.span.stop
  contains : s.range.contains s.selection.start = true ∧
    s.range.contains s.selection.stop = true
  range_isPlaced : s.range.IsPlaced text
  selection_isPlaced : s.selection.IsPlaced text
  line_eq : s.range.start = ⟨r.line, 0⟩ ∧ s.selection.start.line = r.line ∧
    s.selection.stop.line = r.line

theorem stopBefore_le (text : Text) (next? : Option Nat) :
    stopBefore text next? ≤ text.byteSize := by
  cases next? with
  | none => exact Nat.le_refl _
  | some next => exact Nat.sub_le_of_le_add (text.linesSize_take_le next)

theorem Declares.ofRoutine_eq {above below : List Text} {line : Text} {label : Label}
    (h : Declares text r above line below label) {next? : Option Nat}
    (hNext : IsFollowed text r.line next?) :
    Symbol.ofRoutine (LineTable.ofText text) r next? =
      ⟨r.name, r.kind, (LineTable.ofText text).range ⟨linesSize above, stopBefore text next?⟩,
        r.range⟩ := by
  have hStop := le_stopBefore h.getElem?_lines hNext
  rw [h.take_lines] at hStop
  have hMax : max (stopBefore text next?) (linesSize above) = stopBefore text next? := by omega
  rw [Symbol.ofRoutine, LineTable.start?_ofText h.line_lt, routineEnd_eq hNext, h.take_lines]
  simp only [Option.getD_some, hMax]

/-- **The symbol of a routine.** -/
theorem shows_ofRoutine (hr : r ∈ routines text) {next? : Option Nat}
    (hNext : IsFollowed text r.line next?) :
    (Symbol.ofRoutine (LineTable.ofText text) r next?).Shows text r := by
  obtain ⟨above, line, below, label, h⟩ := exists_declares hr
  obtain ⟨hNameStart, hNameStop, hStartLine, hStopLine⟩ := h.isAt_range
  have hName := h.name_le
  have hStop := le_stopBefore h.getElem?_lines hNext
  have hSize := stopBefore_le text next?
  rw [h.take_lines] at hStop
  have hSpan : r.range.span = ⟨linesSize above + label.gap.byteSize,
      linesSize above + label.gap.byteSize + label.name.byteSize⟩ := by
    rw [h.range_eq]
    rfl
  have hInside : linesSize above ≤ r.range.span.start ∧
      r.range.span.start ≤ r.range.span.stop ∧ r.range.span.stop ≤ stopBefore text next? := by
    rw [hSpan]
    dsimp only
    omega
  have hPlaced : ((LineTable.ofText text).range
      ⟨linesSize above, stopBefore text next?⟩).IsPlaced text :=
    Range.isPlaced_range (by dsimp only; omega) hSize
  rw [h.ofRoutine_eq hNext]
  refine ⟨rfl, rfl, rfl, h.text?_range, ?_, hInside, ?_, hPlaced, ⟨hNameStart, hNameStop⟩, ?_⟩
  · rw [LineTable.start?_ofText h.line_lt, h.take_lines]
    rfl
  · have hLow := hPlaced.start.le hNameStart hInside.1
    have hHigh := hNameStop.le hPlaced.stop hInside.2.2
    have hMiddle := hNameStart.le hNameStop hInside.2.1
    have hBelow := hNameStart.le hPlaced.stop (Nat.le_trans hInside.2.1 hInside.2.2)
    have hAbove := hPlaced.start.le hNameStop (Nat.le_trans hInside.1 hInside.2.1)
    simp only [Range.contains, Bool.and_eq_true]
    exact ⟨⟨hLow, hBelow⟩, hAbove, hHigh⟩
  · exact ⟨(h.isAt (Nat.zero_le _)).position_eq, hStartLine, hStopLine⟩

/-- Whether the first of the symbols ends right in front of a line feed, and the second starts right
behind it. -/
def Symbol.Precedes (text : Text) (s s' : Symbol) : Prop :=
  text.bytes[s.range.span.stop]? = some 0x0a ∧ s.range.span.stop + 1 = s'.range.span.start

/-- A routine ends in front of the line feed before the next one. -/
theorem precedes_ofRoutine {r' : Routine} (hr : r ∈ routines text) (hr' : r' ∈ routines text)
    (hLess : r.line < r'.line) {next? : Option Nat} (hNext : IsFollowed text r'.line next?) :
    (Symbol.ofRoutine (LineTable.ofText text) r (some r'.line)).Precedes text
      (Symbol.ofRoutine (LineTable.ofText text) r' next?) := by
  obtain ⟨above, line, below, label, h⟩ := exists_declares hr
  obtain ⟨above', line', below', label', h'⟩ := exists_declares hr'
  have hIndex := h'.line_lt
  have hFollowed : IsFollowed text r.line (some r'.line) := by
    rintro _ ⟨⟩
    exact ⟨hLess, hIndex⟩
  obtain ⟨last, hLast⟩ : ∃ last, r'.line = last + 1 := Nat.exists_eq_add_one.2 (by omega)
  -- the line before the next routine ends with a line feed
  have hLine := List.getElem?_eq_getElem (show last < text.lines.length by omega)
  have hFeed := Text.getElem?_bytes_newline hLine (by omega)
  have hNextStart := Text.linesSize_take_succ hLine
  rw [← hLast, h'.take_lines] at hNextStart
  have hStop : stopBefore text (some r'.line) =
      linesSize (text.lines.take last) + text.lines[last].byteSize := by
    rw [stopBefore, h'.take_lines, hNextStart, Nat.add_sub_cancel]
  rw [h.ofRoutine_eq hFollowed, h'.ofRoutine_eq hNext, hStop]
  exact ⟨hFeed, hNextStart.symm⟩

/-! ## All symbols -/

/-- The first routines of a list are followed by the others. -/
theorem isFollowed_head? {rest : List Routine} (hMem : ∀ r' ∈ rest, r' ∈ routines text)
    (hOrder : ∀ r' ∈ rest, r.line < r'.line) :
    IsFollowed text r.line (rest.head?.map Routine.line) := by
  intro next hNext
  obtain ⟨r', hHead, rfl⟩ := Option.map_eq_some_iff.1 hNext
  have hr' := List.mem_of_head? hHead
  obtain ⟨above, line, below, label, h⟩ := exists_declares (hMem r' hr')
  exact ⟨hOrder r' hr', h.line_lt⟩

theorem shows_symbolsOf {rs : List Routine} (hMem : ∀ r ∈ rs, r ∈ routines text)
    (hOrder : rs.Pairwise fun r r' => r.line < r'.line) :
    List.Forall₂ (Symbol.Shows text) rs (symbolsOf (LineTable.ofText text) rs) := by
  induction rs with
  | nil => exact .nil
  | cons r rest ih =>
    obtain ⟨hr, hRest⟩ := List.forall_mem_cons.1 hMem
    obtain ⟨hLess, hRestOrder⟩ := List.pairwise_cons.1 hOrder
    exact .cons (shows_ofRoutine hr (isFollowed_head? hRest hLess)) (ih hRest hRestOrder)

theorem isChain_symbolsOf {rs : List Routine} (hMem : ∀ r ∈ rs, r ∈ routines text)
    (hOrder : rs.Pairwise fun r r' => r.line < r'.line) :
    (symbolsOf (LineTable.ofText text) rs).IsChain (Symbol.Precedes text) := by
  induction rs with
  | nil => exact .nil
  | cons r rest ih =>
    obtain ⟨hr, hRest⟩ := List.forall_mem_cons.1 hMem
    obtain ⟨hLess, hRestOrder⟩ := List.pairwise_cons.1 hOrder
    have hChain := ih hRest hRestOrder
    cases rest with
    | nil => exact .singleton _
    | cons r' others =>
      obtain ⟨hr', hOthers⟩ := List.forall_mem_cons.1 hRest
      have hNext := isFollowed_head? hOthers (List.pairwise_cons.1 hRestOrder).1
      exact .cons_cons (precedes_ofRoutine hr hr' (hLess r' List.mem_cons_self) hNext) hChain

theorem stop_of_getLast?_symbolsOf {rs : List Routine} (hMem : ∀ r ∈ rs, r ∈ routines text)
    {s : Symbol} (h : (symbolsOf (LineTable.ofText text) rs).getLast? = some s) :
    s.range.span.stop = text.byteSize := by
  induction rs with
  | nil => cases h
  | cons r rest ih =>
    obtain ⟨hr, hRest⟩ := List.forall_mem_cons.1 hMem
    cases rest with
    | nil =>
      obtain ⟨above, line, below, label, hDeclares⟩ := exists_declares hr
      obtain rfl := Option.some.inj h
      have hNone : IsFollowed text r.line none := by
        intro next hNext
        cases hNext
      have hSymbol := hDeclares.ofRoutine_eq hNone
      rw [List.head?_nil, Option.map_none, hSymbol]
      rfl
    | cons r' others =>
      rw [symbolsOf, symbolsOf, List.getLast?_cons_cons] at h
      exact ih hRest h

/-- **Symbols tile the text.** There is one symbol for each routine, in the order of the lines. The
first starts with the line of its label, between every two of them is the one line feed before the
line of the next label, and the last ends with the text. Each shows the name of its routine. -/
theorem symbols_tile (text : Text) :
    List.Forall₂ (Symbol.Shows text) (routines text) (symbols text) ∧
      (routines text).Pairwise (fun r r' => r.line < r'.line) ∧
      (symbols text).IsChain (Symbol.Precedes text) ∧
      ∀ s, (symbols text).getLast? = some s → s.range.span.stop = text.byteSize :=
  ⟨shows_symbolsOf (fun _ h => h) (pairwise_line_routines text), pairwise_line_routines text,
    isChain_symbolsOf (fun _ h => h) (pairwise_line_routines text),
    fun _ => stop_of_getLast?_symbolsOf fun _ h => h⟩

end Outline

end RexxEditing
