import RexxEditing.Proofs.Text.Bytes
import RexxEditing.Proofs.Text.Position

/-! # Offsets and positions

Every byte offset of a text is at one position: so many bytes behind the start of a line, and no
further than its end. The byte at the end of a line is its line feed, and line feeds stand nowhere
else. The line table finds the position of an offset and the span of a line.

* `isAt_position`, `IsAt.position_eq`: the position of an offset.
* `IsAt.before`: positions are in the order of their offsets.
* `span?_ofText`: the span of a line.
* `getElem?_bytes_ne_newline`, `getElem?_bytes_newline`: where the line feeds are.
* `LineTable.mem_starts_iff`, `LineTable.pairwise_starts`: the starts of the lines are the start of
  the text and the places behind its line feeds, in increasing order.
* `LineTable.position_bijective`: the offsets of a text and its positions.
-/

namespace RexxEditing

open Text (linesSize)

/-- Whether the position comes before another in reading order. -/
def Position.Before (p q : Position) : Prop :=
  p.line < q.line ∨ p.line = q.line ∧ p.column < q.column

namespace Text

/-- Whether byte `n` of the text, or its end, is at the position. -/
def IsAt (text : Text) (n : Nat) (p : Position) : Prop :=
  ∃ line, text.lines[p.line]? = some line ∧ linesSize (text.lines.take p.line) + p.column = n ∧
    p.column ≤ line.byteSize

/-! ## Sizes of lines -/

theorem linesSize_take_succ {lines' : List Text} {i : Nat} {line : Text}
    (h : lines'[i]? = some line) :
    linesSize (lines'.take (i + 1)) = linesSize (lines'.take i) + line.byteSize + 1 := by
  rw [List.take_add_one, h, linesSize_append]
  show _ + (line.byteSize + 1 + 0) = _
  omega

theorem linesSize_take_mono (lines' : List Text) {i j : Nat} (h : i ≤ j) :
    linesSize (lines'.take i) ≤ linesSize (lines'.take j) := by
  obtain ⟨k, rfl⟩ := Nat.exists_eq_add_of_le h
  rw [List.take_add, linesSize_append]
  omega

theorem linesSize_take_le (text : Text) (i : Nat) :
    linesSize (text.lines.take i) ≤ text.byteSize + 1 := by
  have hAll := linesSize_append (text.lines.take i) (text.lines.drop i)
  rw [List.take_append_drop, linesSize_lines] at hAll
  omega

/-- A line ends where the next one starts, but for the line feed, or it ends with the text. -/
theorem line_stop {text line : Text} {i : Nat} (h : text.lines[i]? = some line) :
    (i + 1 < text.lines.length ∧
        linesSize (text.lines.take i) + line.byteSize + 1 = linesSize (text.lines.take (i + 1))) ∨
      i + 1 = text.lines.length ∧
        linesSize (text.lines.take i) + line.byteSize = text.byteSize := by
  have hNext := linesSize_take_succ h
  obtain ⟨hi, -⟩ := List.getElem?_eq_some_iff.1 h
  rcases Nat.lt_or_eq_of_le (Nat.succ_le_of_lt hi) with hLess | hLast
  · exact Or.inl ⟨hLess, hNext.symm⟩
  · refine Or.inr ⟨hLast, ?_⟩
    rw [show i + 1 = text.lines.length from hLast, List.take_length, linesSize_lines] at hNext
    omega

/-! ## Positions -/

theorem exists_line_of_lt {lines' : List Text} {n : Nat} (h : n < linesSize lines') :
    ∃ i line, lines'[i]? = some line ∧ linesSize (lines'.take i) ≤ n ∧
      n ≤ linesSize (lines'.take i) + line.byteSize := by
  induction lines' generalizing n with
  | nil => cases h
  | cons first rest ih =>
    rw [linesSize_cons] at h
    by_cases hFirst : n ≤ first.byteSize
    · refine ⟨0, first, rfl, Nat.zero_le n, ?_⟩
      show n ≤ 0 + first.byteSize
      omega
    · have hRest : n - (first.byteSize + 1) < linesSize rest := by omega
      obtain ⟨i, line, hLine, hStart, hStop⟩ := ih hRest
      refine ⟨i + 1, line, hLine, ?_, ?_⟩ <;> rw [List.take_succ_cons, linesSize_cons] <;> omega

theorem exists_isAt {text : Text} {n : Nat} (h : n ≤ text.byteSize) : ∃ p, text.IsAt n p := by
  have hSize : n < linesSize text.lines := by
    rw [linesSize_lines]
    omega
  obtain ⟨i, line, hLine, hStart, hStop⟩ := exists_line_of_lt hSize
  refine ⟨⟨i, n - linesSize (text.lines.take i)⟩, line, hLine, ?_, ?_⟩
  · show linesSize (text.lines.take i) + (n - linesSize (text.lines.take i)) = n
    omega
  · show n - linesSize (text.lines.take i) ≤ line.byteSize
    omega

namespace IsAt

variable {text : Text} {m n : Nat} {p q : Position}

/-- An offset is on its line, the line feed included. -/
theorem bounds (h : text.IsAt n p) :
    p.line < text.lines.length ∧ linesSize (text.lines.take p.line) ≤ n ∧
      n < linesSize (text.lines.take (p.line + 1)) := by
  obtain ⟨line, hLine, hOffset, hColumn⟩ := h
  have hNext := linesSize_take_succ hLine
  obtain ⟨hIndex, -⟩ := List.getElem?_eq_some_iff.1 hLine
  exact ⟨hIndex, by omega, by omega⟩

theorem le_byteSize (h : text.IsAt n p) : n ≤ text.byteSize := by
  obtain ⟨-, -, hStop⟩ := h.bounds
  have hAll := text.linesSize_take_le (p.line + 1)
  omega

theorem line_le (hp : text.IsAt m p) (hq : text.IsAt n q) (h : m ≤ n) : p.line ≤ q.line := by
  obtain ⟨-, hpStart, -⟩ := hp.bounds
  obtain ⟨-, -, hqStop⟩ := hq.bounds
  apply Nat.le_of_not_lt
  intro hLess
  -- the first line would be wholly behind the second
  have hOrder := linesSize_take_mono text.lines (show q.line + 1 ≤ p.line from hLess)
  omega

/-- **Positions are in the order of their offsets.** -/
theorem before (hp : text.IsAt m p) (hq : text.IsAt n q) (h : m < n) : p.Before q := by
  rcases Nat.lt_or_eq_of_le (hp.line_le hq (Nat.le_of_lt h)) with hLess | hSame
  · exact Or.inl hLess
  · obtain ⟨-, -, hpOffset, -⟩ := hp
    obtain ⟨-, -, hqOffset, -⟩ := hq
    rw [hSame] at hpOffset
    exact Or.inr ⟨hSame, by omega⟩

theorem le (hp : text.IsAt m p) (hq : text.IsAt n q) (h : m ≤ n) : p.le q = true := by
  rw [Position.le_iff]
  rcases Nat.lt_or_eq_of_le (hp.line_le hq h) with hLess | hSame
  · exact Or.inl hLess
  · obtain ⟨-, -, hpOffset, -⟩ := hp
    obtain ⟨-, -, hqOffset, -⟩ := hq
    rw [hSame] at hpOffset
    exact Or.inr ⟨hSame, by omega⟩

/-- **The line table finds the position.** -/
theorem position_eq (h : text.IsAt n p) : (LineTable.ofText text).position n = p := by
  obtain ⟨hIndex, hStart, hStop⟩ := h.bounds
  have hSize : min n (LineTable.ofText text).size = n := Nat.min_eq_left h.le_byteSize
  have hLine := LineTable.lineOf_of_mem hIndex hStart hStop
  obtain ⟨-, -, hOffset, -⟩ := h
  simp only [LineTable.position, hSize, hLine, LineTable.start?_ofText hIndex, Option.getD_some]
  have hColumn : n - linesSize (text.lines.take p.line) = p.column := by omega
  rw [hColumn]

end IsAt

theorem isAt_position {text : Text} {n : Nat} (h : n ≤ text.byteSize) :
    text.IsAt n ((LineTable.ofText text).position n) := by
  obtain ⟨p, hp⟩ := exists_isAt h
  rwa [hp.position_eq]

/-- A line has a span without its line feed. -/
theorem span?_ofText {text line : Text} {i : Nat} (h : text.lines[i]? = some line) :
    (LineTable.ofText text).span? i =
      some ⟨linesSize (text.lines.take i), linesSize (text.lines.take i) + line.byteSize⟩ := by
  obtain ⟨hi, -⟩ := List.getElem?_eq_some_iff.1 h
  rcases line_stop h with ⟨hNext, hStop⟩ | ⟨hLast, hStop⟩
  · have hFeed : linesSize (text.lines.take (i + 1)) - 1 =
        linesSize (text.lines.take i) + line.byteSize := by omega
    simp only [LineTable.span?, LineTable.start?_ofText hi, LineTable.start?_ofText hNext,
      Option.bind_eq_bind, Option.bind_some, hFeed]
    rfl
  · have hNone : (LineTable.ofText text).start? (i + 1) = none := by
      apply List.getElem?_eq_none
      show (LineTable.ofText text).count ≤ i + 1
      rw [LineTable.count_ofText]
      omega
    simp only [LineTable.span?, LineTable.start?_ofText hi, hNone, Option.bind_eq_bind,
      Option.bind_some, hStop]
    rfl

/-! ## Line feeds -/

/-- A line with what stands in front of it and behind it. -/
theorem exists_eq_feed_append {text line : Text} {i : Nat} (h : text.lines[i]? = some line) :
    ∃ after, text = feed (text.lines.take i) ++ line ++ after ∧
      (i + 1 < text.lines.length → ∃ rest, after = '\n' :: rest) := by
  obtain ⟨hi, hGet⟩ := List.getElem?_eq_some_iff.1 h
  have hDrop : text.lines.drop i = line :: text.lines.drop (i + 1) := by
    rw [List.drop_eq_getElem_cons hi, hGet]
  have hText : text = feed (text.lines.take i) ++ ofLines (text.lines.drop i) := by
    rw [← ofLines_append _ (hDrop ▸ List.cons_ne_nil _ _), List.take_append_drop, ofLines_lines]
  by_cases hNext : text.lines.drop (i + 1) = []
  · refine ⟨[], ?_, ?_⟩
    · rw [hDrop, hNext] at hText
      rw [List.append_nil]
      exact hText
    · intro hLess
      rw [List.drop_eq_nil_iff] at hNext
      omega
  · refine ⟨'\n' :: ofLines (text.lines.drop (i + 1)), ?_, fun _ => ⟨_, rfl⟩⟩
    rw [hDrop, ofLines_cons hNext] at hText
    rw [List.append_assoc]
    exact hText

/-- There is no line feed inside a line. -/
theorem getElem?_bytes_ne_newline {text line : Text} {i n : Nat} (h : text.lines[i]? = some line)
    (hStart : linesSize (text.lines.take i) ≤ n)
    (hStop : n < linesSize (text.lines.take i) + line.byteSize) : text.bytes[n]? ≠ some 0x0a := by
  intro hByte
  obtain ⟨after, hText, -⟩ := exists_eq_feed_append h
  rw [hText] at hByte
  have hMem := mem_bytes_of_getElem?_bytes hByte (by rwa [byteSize_feed]) (by rwa [byteSize_feed])
  exact newline_notMem_of_mem_lines (List.mem_of_getElem? h) (newlineByte_mem_bytes_iff.1 hMem)

/-- There is a line feed at the end of every line but the last. -/
theorem getElem?_bytes_newline {text line : Text} {i : Nat} (h : text.lines[i]? = some line)
    (hNext : i + 1 < text.lines.length) :
    text.bytes[linesSize (text.lines.take i) + line.byteSize]? = some 0x0a := by
  obtain ⟨after, hText, hAfter⟩ := exists_eq_feed_append h
  obtain ⟨rest, rfl⟩ := hAfter hNext
  have hFront := byteSize_feed (text.lines.take i)
  generalize feed (text.lines.take i) = front at hText hFront
  rw [← hFront, ← byteSize_append, ← length_bytes, hText, bytes_append, bytes_cons,
    List.getElem?_append_right (Nat.le_refl _), Nat.sub_self]
  rfl

/-! ## Slices -/

/-- The lines are the parts between the line feeds. -/
theorem lines_eq_splitOn (text : Text) : text.lines = text.splitOn '\n' := by
  induction text with
  | nil => rfl
  | cons c cs ih =>
    rw [List.splitOn_eq_splitOnP] at ih ⊢
    rw [List.splitOnP_cons_eq_if_modifyHead, ← ih]
    by_cases hc : c = '\n'
    · rw [hc, lines_newline_cons]
      rfl
    · obtain ⟨line, rest, hLines⟩ := exists_lines_eq_cons cs
      rw [if_neg (by simpa using hc), lines_cons_of_ne hc hLines, hLines]
      rfl

/-- A line is what its span covers. -/
theorem slice?_line {text line : Text} {i : Nat} (h : text.lines[i]? = some line) :
    text.slice? (linesSize (text.lines.take i))
      (linesSize (text.lines.take i) + line.byteSize) = some line := by
  obtain ⟨after, hText, -⟩ := exists_eq_feed_append h
  have hSlice := slice?_append (feed (text.lines.take i)) line after
  rwa [← hText, byteSize_feed] at hSlice

end Text

/-! ## The line table of a text -/

namespace LineTable

/-- Whether the table has the offset at the position: that many bytes behind the start of its line,
and in the span of the line, both ends included. -/
def Holds (t : LineTable) (n : Nat) (p : Position) : Prop :=
  ∃ start span, t.start? p.line = some start ∧ t.span? p.line = some span ∧
    start + p.column = n ∧ span.start ≤ n ∧ n ≤ span.stop

variable {text : Text} {n : Nat} {p : Position}

theorem lt_length_of_start? {i start : Nat} (h : (ofText text).start? i = some start) :
    i < text.lines.length := by
  obtain ⟨hi, -⟩ := List.getElem?_eq_some_iff.1 h
  rw [← count_ofText]
  exact hi

theorem start_of_span? {t : LineTable} {i start : Nat} {span : Span}
    (hStart : t.start? i = some start) (hSpan : t.span? i = some span) : span.start = start := by
  rw [span?, hStart] at hSpan
  rw [← Option.some.inj hSpan]

/-- The table and the lines have an offset at the same position. -/
theorem holds_iff_isAt : (ofText text).Holds n p ↔ text.IsAt n p := by
  constructor
  · rintro ⟨start, span, hStart, hSpan, hOffset, -, hStop⟩
    have hIndex := lt_length_of_start? hStart
    have hLine := List.getElem?_eq_getElem hIndex
    rw [start?_ofText hIndex] at hStart
    rw [Text.span?_ofText hLine] at hSpan
    obtain rfl := Option.some.inj hStart
    obtain rfl := Option.some.inj hSpan
    exact ⟨_, hLine, hOffset, by dsimp only at hStop; omega⟩
  · rintro ⟨line, hLine, hOffset, hColumn⟩
    obtain ⟨hIndex, -⟩ := List.getElem?_eq_some_iff.1 hLine
    refine ⟨_, _, start?_ofText hIndex, Text.span?_ofText hLine, hOffset, ?_, ?_⟩
    · exact hOffset ▸ Nat.le_add_right _ _
    · dsimp only
      omega

/-- **Line starts.** A line starts at the start of the text, and behind each line feed. -/
theorem mem_starts_iff :
    n ∈ (ofText text).starts ↔ n = 0 ∨ ∃ k, n = k + 1 ∧ text.bytes[k]? = some 0x0a := by
  constructor
  · intro h
    obtain ⟨i, hStart⟩ := List.getElem?_of_mem h
    have hIndex : i < text.lines.length := lt_length_of_start? hStart
    have hn : n = linesSize (text.lines.take i) :=
      Option.some.inj (hStart.symm.trans (start?_ofText hIndex))
    cases i with
    | zero => exact Or.inl hn
    | succ i =>
      -- the line above ends with a line feed
      have hLine := List.getElem?_eq_getElem (Nat.lt_of_succ_lt hIndex)
      rw [Text.linesSize_take_succ hLine] at hn
      exact Or.inr ⟨_, hn, Text.getElem?_bytes_newline hLine hIndex⟩
  · rintro (rfl | ⟨k, rfl, hByte⟩)
    · obtain ⟨line, rest, hLines⟩ := text.exists_lines_eq_cons
      rw [ofText, hLines]
      exact List.mem_cons_self
    · obtain ⟨hLess, -⟩ := List.getElem?_eq_some_iff.1 hByte
      rw [Text.length_bytes] at hLess
      obtain ⟨p, line, hLine, hOffset, hColumn⟩ := Text.exists_isAt (Nat.le_of_lt hLess)
      have hStop : p.column = line.byteSize := by
        rcases Nat.lt_or_eq_of_le hColumn with hInside | hEnd
        · exact absurd hByte (Text.getElem?_bytes_ne_newline hLine (by omega) (by omega))
        · exact hEnd
      rcases Text.line_stop hLine with ⟨hNext, hFeed⟩ | ⟨-, hLast⟩
      · have hStart : (ofText text).start? (p.line + 1) = some (k + 1) := by
          rw [start?_ofText hNext, ← hFeed, ← hStop, hOffset]
        exact List.mem_of_getElem? hStart
      · omega

theorem pairwise_starts (text : Text) : (ofText text).starts.Pairwise (· < ·) := by
  rw [List.pairwise_iff_getElem]
  intro i j hi hj hLess
  have hStart {i : Nat} (hi : i < (ofText text).starts.length) :
      (ofText text).starts[i] = linesSize (text.lines.take i) := by
    have hIndex : i < text.lines.length := (count_ofText text) ▸ hi
    exact Option.some.inj ((List.getElem?_eq_getElem hi).symm.trans (start?_ofText hIndex))
  have hIndex : i < text.lines.length := (count_ofText text) ▸ hi
  have hNext := Text.linesSize_take_succ (List.getElem?_eq_getElem hIndex)
  have hMono := Text.linesSize_take_mono text.lines (show i + 1 ≤ j from hLess)
  rw [hStart hi, hStart hj]
  omega

theorem position_of_size_le (h : text.byteSize ≤ n) :
    (ofText text).position n = (ofText text).position text.byteSize := by
  have hSize : (ofText text).size = text.byteSize := rfl
  simp only [position, hSize, Nat.min_eq_right h, Nat.min_self]

/-- The slices at the spans of all lines. -/
theorem map_slice?_span? (text : Text) :
    (List.range (ofText text).count).map (fun i => ((ofText text).span? i).bind (·.text? text)) =
      text.lines.map some := by
  apply List.ext_getElem?
  intro i
  rw [List.getElem?_map, List.getElem?_map, count_ofText]
  by_cases hi : i < text.lines.length
  · have hLine := List.getElem?_eq_getElem hi
    rw [List.getElem?_range hi, hLine, Option.map_some, Option.map_some, Text.span?_ofText hLine,
      Option.bind_some]
    exact congrArg some (Text.slice?_line hLine)
  · have hLe := Nat.le_of_not_lt hi
    rw [List.getElem?_eq_none (by rwa [List.length_range]), List.getElem?_eq_none hLe]
    rfl

/-- **Offsets and positions.** Every offset of a text has exactly one position on a line, and every
place on a line is the position of an offset. What is past the end has the position of the end, and
the positions are in the order of the offsets. The spans of the lines cut the text at its line
feeds. -/
theorem position_bijective (text : Text) :
    let table := ofText text
    (∀ n ≤ text.byteSize, table.Holds n (table.position n) ∧
        ∀ p, table.Holds n p → p = table.position n) ∧
      (∀ p start span, table.start? p.line = some start → table.span? p.line = some span →
        start + p.column ≤ span.stop →
        start + p.column ≤ text.byteSize ∧ table.position (start + p.column) = p) ∧
      (∀ n, text.byteSize ≤ n → table.position n = table.position text.byteSize) ∧
      (∀ m n, m < n → n ≤ text.byteSize → (table.position m).Before (table.position n)) ∧
      (List.range table.count).map (fun i => (table.span? i).bind (·.text? text)) =
        (text.splitOn '\n').map some := by
  refine ⟨?_, ?_, fun n => position_of_size_le, ?_, ?_⟩
  · intro n hn
    exact ⟨holds_iff_isAt.2 (Text.isAt_position hn), fun p hp =>
      (holds_iff_isAt.1 hp).position_eq.symm⟩
  · intro p start span hStart hSpan hStop
    have hFirst := start_of_span? hStart hSpan
    have hAt := holds_iff_isAt.1 ⟨start, span, hStart, hSpan, rfl, by omega, hStop⟩
    exact ⟨hAt.le_byteSize, hAt.position_eq⟩
  · intro m n hmn hn
    exact (Text.isAt_position (by omega)).before (Text.isAt_position hn) hmn
  · rw [map_slice?_span?, Text.lines_eq_splitOn]

end LineTable

end RexxEditing
