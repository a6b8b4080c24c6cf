import RexxEditing.Proofs.Checked.Semantic
import RexxEditing.Proofs.Highlight.Partition
import RexxEditing.Proofs.Text.Offset

/-! # Semantic tokens are cut at the line ends

A span is cut into its parts on the lines, and parts with nothing in them are left out. The parts of
the tokens come in the order of the text already, so sorting leaves them where they are.

* `ofSpan_eq`: a span on one line is cut like any other.
* `isPlaced_part`, `covers_ofSpan`: the parts of a span, and the bytes that they cover.
* `ofText_eq`: sorting has nothing to do.
* `ofText_cuts`: the semantic tokens of a text, byte by byte.
-/

namespace RexxEditing.SemanticToken

open Text (linesSize)

variable {text : Text} {kind : SemanticKind} {span : Span}

/-- Whether the token has byte `i` of the text. -/
def Covers (t : SemanticToken) (i : Nat) : Prop := t.range.span.start ≤ i ∧ i < t.range.span.stop

/-- Whether the token has its place on one line of the text. -/
structure IsPlaced (text : Text) (t : SemanticToken) : Prop where
  nonempty : t.range.span.start < t.range.span.stop
  start : text.IsAt t.range.span.start t.range.start
  stop : text.IsAt t.range.span.stop t.range.stop
  single : t.range.isSingleLine = true

/-! ## Parts of a span -/

/-- The part of a span on line `i`, which is `line`. -/
def part (text : Text) (span : Span) (i : Nat) (line : Text) : Span :=
  ⟨max span.start (linesSize (text.lines.take i)),
    min span.stop (linesSize (text.lines.take i) + line.byteSize)⟩

theorem onLine?_eq {i : Nat} {line : Text} (h : text.lines[i]? = some line) :
    onLine? (LineTable.ofText text) kind span i =
      ofRange? kind ((LineTable.ofText text).range (part text span i line)) := by
  rw [onLine?, Text.span?_ofText h]
  rfl

theorem onLine?_eq_some_iff {i : Nat} {t : SemanticToken} :
    onLine? (LineTable.ofText text) kind span i = some t ↔
      ∃ line, text.lines[i]? = some line ∧
        (part text span i line).start < (part text span i line).stop ∧
        t = ⟨kind, (LineTable.ofText text).range (part text span i line)⟩ := by
  cases hLine : text.lines[i]? with
  | none =>
    have hStart : (LineTable.ofText text).start? i = none := by
      apply List.getElem?_eq_none
      show (LineTable.ofText text).count ≤ i
      rw [LineTable.count_ofText]
      exact List.getElem?_eq_none_iff.1 hLine
    simp [onLine?, LineTable.span?, hStart]
  | some line =>
    rw [onLine?_eq hLine, ofRange?]
    show (if (part text span i line).start < (part text span i line).stop then _ else _) = _ ↔ _
    by_cases hPart : (part text span i line).start < (part text span i line).stop
    · simp [hPart, eq_comm]
    · simp [hPart]

/-- Both ends of a part are on its line. -/
theorem isAt_part {i : Nat} {line : Text} (h : text.lines[i]? = some line)
    (hPart : (part text span i line).start < (part text span i line).stop) :
    text.IsAt (part text span i line).start
        ⟨i, (part text span i line).start - linesSize (text.lines.take i)⟩ ∧
      text.IsAt (part text span i line).stop
        ⟨i, (part text span i line).stop - linesSize (text.lines.take i)⟩ := by
  have hStart : linesSize (text.lines.take i) ≤ (part text span i line).start :=
    Nat.le_max_right _ _
  have hStop : (part text span i line).stop ≤ linesSize (text.lines.take i) + line.byteSize :=
    Nat.min_le_right _ _
  refine ⟨⟨line, h, ?_, ?_⟩, ⟨line, h, ?_, ?_⟩⟩ <;> dsimp only <;> omega

theorem isPlaced_part {i : Nat} {line : Text} (h : text.lines[i]? = some line)
    (hPart : (part text span i line).start < (part text span i line).stop) :
    IsPlaced text ⟨kind, (LineTable.ofText text).range (part text span i line)⟩ := by
  obtain ⟨hStart, hStop⟩ := isAt_part h hPart
  have hStartAt := hStart.position_eq
  have hStopAt := hStop.position_eq
  refine ⟨hPart, ?_, ?_, ?_⟩
  · rw [← hStartAt] at hStart
    exact hStart
  · rw [← hStopAt] at hStop
    exact hStop
  · show (((LineTable.ofText text).position (part text span i line).start).line ==
      ((LineTable.ofText text).position (part text span i line).stop).line) = true
    rw [hStartAt, hStopAt]
    exact beq_self_eq_true i

/-! ## A span -/

/-- **Cutting.** A span on one line is cut like one on several lines. -/
theorem ofSpan_eq (hOrder : span.start ≤ span.stop) (hSize : span.stop ≤ text.byteSize) :
    ofSpan (LineTable.ofText text) kind span =
      (List.range' ((LineTable.ofText text).position span.start).line
        (((LineTable.ofText text).position span.stop).line + 1 -
          ((LineTable.ofText text).position span.start).line)).filterMap
        (onLine? (LineTable.ofText text) kind span) := by
  have hStart := Text.isAt_position (Nat.le_trans hOrder hSize)
  have hStop := Text.isAt_position hSize
  unfold ofSpan
  dsimp only
  split
  next hSingle =>
    have hLines : ((LineTable.ofText text).position span.start).line =
        ((LineTable.ofText text).position span.stop).line :=
      beq_iff_eq.1 hSingle
    obtain ⟨line, hLine, hStopAt, hStopLe⟩ := hStop
    obtain ⟨-, -, hStartAt, -⟩ := hStart
    rw [hLines] at hStartAt ⊢
    generalize ((LineTable.ofText text).position span.stop).line = i at *
    have hWhole : part text span i line = span := by
      have hMax : max span.start (linesSize (text.lines.take i)) = span.start := by omega
      have hMin : min span.stop (linesSize (text.lines.take i) + line.byteSize) = span.stop := by
        omega
      rw [part, hMax, hMin]
    rw [Nat.add_sub_cancel_left, List.range'_one, List.filterMap_cons, onLine?_eq hLine, hWhole]
    cases ofRange? kind ((LineTable.ofText text).range span) <;> rfl
  next => rfl

theorem exists_part_of_mem_ofSpan (hOrder : span.start ≤ span.stop)
    (hSize : span.stop ≤ text.byteSize) {t : SemanticToken}
    (ht : t ∈ ofSpan (LineTable.ofText text) kind span) :
    ∃ i line, text.lines[i]? = some line ∧
      (part text span i line).start < (part text span i line).stop ∧
      t = ⟨kind, (LineTable.ofText text).range (part text span i line)⟩ := by
  rw [ofSpan_eq hOrder hSize] at ht
  obtain ⟨i, -, hi⟩ := List.mem_filterMap.1 ht
  exact ⟨i, onLine?_eq_some_iff.1 hi⟩

/-- The parts of a span follow each other. -/
theorem pairwise_ofSpan (hOrder : span.start ≤ span.stop) (hSize : span.stop ≤ text.byteSize) :
    (ofSpan (LineTable.ofText text) kind span).Pairwise
      fun a b => a.range.span.stop ≤ b.range.span.start := by
  rw [ofSpan_eq hOrder hSize, List.pairwise_filterMap]
  apply List.Pairwise.imp _ List.pairwise_lt_range'
  intro i j hij a ha b hb
  obtain ⟨line, hLine, -, rfl⟩ := onLine?_eq_some_iff.1 ha
  obtain ⟨line', -, -, rfl⟩ := onLine?_eq_some_iff.1 hb
  have hNext := Text.linesSize_take_succ hLine
  have hBelow := Text.linesSize_take_mono text.lines (show i + 1 ≤ j from hij)
  show min span.stop (linesSize (text.lines.take i) + line.byteSize) ≤
    max span.start (linesSize (text.lines.take j))
  omega

/-- **The bytes of a span.** Its parts have all of them but line feeds. -/
theorem covers_ofSpan (hOrder : span.start ≤ span.stop) (hSize : span.stop ≤ text.byteSize)
    (n : Nat) :
    (∃ t ∈ ofSpan (LineTable.ofText text) kind span, t.Covers n) ↔
      text.bytes[n]? ≠ some 0x0a ∧ span.start ≤ n ∧ n < span.stop := by
  constructor
  · rintro ⟨t, ht, hStart, hStop⟩
    obtain ⟨i, line, hLine, -, rfl⟩ := exists_part_of_mem_ofSpan hOrder hSize ht
    change max span.start (linesSize (text.lines.take i)) ≤ n at hStart
    change n < min span.stop (linesSize (text.lines.take i) + line.byteSize) at hStop
    refine ⟨?_, by omega, by omega⟩
    exact Text.getElem?_bytes_ne_newline hLine (by omega) (by omega)
  · rintro ⟨hByte, hStart, hStop⟩
    obtain ⟨p, hp⟩ := Text.exists_isAt (show n ≤ text.byteSize by omega)
    have hFirst := (Text.isAt_position (Nat.le_trans hOrder hSize)).line_le hp hStart
    have hLast := hp.line_le (Text.isAt_position hSize) (Nat.le_of_lt hStop)
    obtain ⟨line, hLine, hOffset, hColumn⟩ := hp
    -- at the end of its line the byte would be a line feed, or behind the text
    have hInside : p.column < line.byteSize := by
      apply Nat.lt_of_le_of_ne hColumn
      intro hEnd
      rw [hEnd] at hOffset
      rcases Text.line_stop hLine with ⟨hNext, -⟩ | ⟨-, hText⟩
      · exact hByte (hOffset ▸ Text.getElem?_bytes_newline hLine hNext)
      · omega
    have hPart : (part text span p.line line).start ≤ n ∧
        n < (part text span p.line line).stop := by
      show max span.start (linesSize (text.lines.take p.line)) ≤ n ∧
        n < min span.stop (linesSize (text.lines.take p.line) + line.byteSize)
      omega
    refine ⟨⟨kind, (LineTable.ofText text).range (part text span p.line line)⟩, ?_, hPart⟩
    rw [ofSpan_eq hOrder hSize]
    refine List.mem_filterMap.2 ⟨p.line, ?_, ?_⟩
    · rw [List.mem_range'_1]
      omega
    · exact onLine?_eq_some_iff.2 ⟨line, hLine, by omega, rfl⟩

/-! ## All tokens -/

theorem mem_ofToken_iff {u : Token} {t : SemanticToken} :
    t ∈ ofToken (LineTable.ofText text) u ↔
      ∃ kind, SemanticKind.ofKind? u.kind = some kind ∧
        t ∈ ofSpan (LineTable.ofText text) kind u.span := by
  unfold ofToken
  cases SemanticKind.ofKind? u.kind <;> simp

theorem of_mem_ofToken {u : Token} (hu : u ∈ (classify text .normal).tokens) {t : SemanticToken}
    (ht : t ∈ ofToken (LineTable.ofText text) u) :
    SemanticKind.ofKind? u.kind = some t.kind ∧ u.span.start ≤ t.range.span.start ∧
      t.range.span.stop ≤ u.span.stop ∧ IsPlaced text t := by
  obtain ⟨kind, hKind, ht⟩ := mem_ofToken_iff.1 ht
  obtain ⟨hOrder, hSize, -, -⟩ := (classify_tiles text .normal).span_fits hu
  obtain ⟨i, line, hLine, hPart, rfl⟩ :=
    exists_part_of_mem_ofSpan (Nat.le_of_lt hOrder) hSize ht
  exact ⟨hKind, Nat.le_max_left _ _, Nat.min_le_left _ _, isPlaced_part hLine hPart⟩

/-- The parts of all tokens, in the order of the tokens. -/
def parts (text : Text) : List SemanticToken :=
  (classify text .normal).tokens.flatMap (ofToken (LineTable.ofText text))

theorem isPlaced_of_mem_parts {t : SemanticToken} (ht : t ∈ parts text) : IsPlaced text t := by
  obtain ⟨u, hu, ht⟩ := List.mem_flatMap.1 ht
  exact (of_mem_ofToken hu ht).2.2.2

theorem pairwise_parts (text : Text) :
    (parts text).Pairwise fun a b => a.range.span.stop ≤ b.range.span.start := by
  have hTiles := classify_tiles text .normal
  rw [parts, List.pairwise_flatMap]
  constructor
  · intro u hu
    obtain ⟨hOrder, hSize, -, -⟩ := hTiles.span_fits hu
    unfold ofToken
    split
    · exact pairwise_ofSpan (Nat.le_of_lt hOrder) hSize
    · exact .nil
  · apply hTiles.pairwise.imp_of_mem
    intro u v hu hv huv a ha b hb
    obtain ⟨-, -, haStop, -⟩ := of_mem_ofToken hu ha
    obtain ⟨-, hbStart, -, -⟩ := of_mem_ofToken hv hb
    omega

/-- The parts start one behind the other. -/
theorem pairwise_before_parts (text : Text) :
    (parts text).Pairwise fun a b =>
      a.range.start.Before b.range.start ∧ a.range.span.stop ≤ b.range.span.start := by
  apply (pairwise_parts text).imp_of_mem
  intro a b ha hb hab
  have haPlaced := isPlaced_of_mem_parts ha
  have hbPlaced := isPlaced_of_mem_parts hb
  exact ⟨haPlaced.start.before hbPlaced.start (Nat.lt_of_lt_of_le haPlaced.nonempty hab), hab⟩

theorem le_of_before {a b : SemanticToken} (h : a.range.start.Before b.range.start) :
    le a b = true := by
  simp only [Position.Before] at h
  simp only [le_iff, Position.le_iff, ne_eq, Position.eq_iff]
  omega

/-- **Sorting has nothing to do.** -/
theorem ofText_eq (text : Text) : ofText text = parts text := by
  apply List.mergeSort_of_pairwise
  apply (pairwise_before_parts text).imp
  intro a b hab
  exact le_of_before hab.1

theorem covers_parts (text : Text) (n : Nat) (k : SemanticKind) :
    (∃ t ∈ parts text, t.kind = k ∧ t.Covers n) ↔
      text.bytes[n]? ≠ some 0x0a ∧
        ∃ u ∈ (classify text .normal).tokens, SemanticKind.ofKind? u.kind = some k ∧
          u.Covers n := by
  have hSpan (u : Token) (hu : u ∈ (classify text .normal).tokens) :=
    have hFits := (classify_tiles text .normal).span_fits hu
    @covers_ofSpan text k u.span (Nat.le_of_lt hFits.1) hFits.2.1 n
  constructor
  · rintro ⟨t, ht, rfl, hCovers⟩
    obtain ⟨u, hu, ht⟩ := List.mem_flatMap.1 ht
    obtain ⟨hKind, -⟩ := of_mem_ofToken hu ht
    obtain ⟨kind, hKind', ht⟩ := mem_ofToken_iff.1 ht
    obtain rfl : t.kind = kind := Option.some.inj (hKind.symm.trans hKind')
    obtain ⟨hByte, hBounds⟩ := (hSpan u hu).1 ⟨t, ht, hCovers⟩
    exact ⟨hByte, u, hu, hKind, hBounds⟩
  · rintro ⟨hByte, u, hu, hKind, hBounds⟩
    obtain ⟨t, ht, hCovers⟩ := (hSpan u hu).2 ⟨hByte, hBounds⟩
    have hPart : t ∈ ofToken (LineTable.ofText text) u := mem_ofToken_iff.2 ⟨k, hKind, ht⟩
    refine ⟨t, List.mem_flatMap.2 ⟨u, hu, hPart⟩, ?_, hCovers⟩
    exact Option.some.inj ((of_mem_ofToken hu hPart).1.symm.trans hKind)

/-- **Semantic tokens are the tokens of the text cut at the line ends.** They are not empty, lie on
one line each and have the positions of their ends. They start one behind the other and do not
overlap. A byte is in a semantic token of some category exactly if it is no line feed and lies in a
token of the text with that category. -/
theorem ofText_cuts (text : Text) :
    (∀ t ∈ ofText text, t.range.span.start < t.range.span.stop ∧ t.range.isSingleLine = true ∧
        text.IsAt t.range.span.start t.range.start ∧ text.IsAt t.range.span.stop t.range.stop) ∧
      (ofText text).Pairwise (fun a b =>
        a.range.start.Before b.range.start ∧ a.range.span.stop ≤ b.range.span.start) ∧
      ∀ n k, (∃ t ∈ ofText text, t.kind = k ∧ t.Covers n) ↔
        text.bytes[n]? ≠ some 0x0a ∧
          ∃ u ∈ (classify text .normal).tokens, SemanticKind.ofKind? u.kind = some k ∧
            u.Covers n := by
  rw [ofText_eq]
  refine ⟨?_, pairwise_before_parts text, covers_parts text⟩
  intro t ht
  have hPlaced := isPlaced_of_mem_parts ht
  exact ⟨hPlaced.nonempty, hPlaced.single, hPlaced.start, hPlaced.stop⟩

end RexxEditing.SemanticToken
