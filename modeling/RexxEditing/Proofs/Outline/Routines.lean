import RexxEditing.Proofs.Highlight.Spelling
import RexxEditing.Proofs.Outline.Reading
import RexxEditing.Proofs.Text.Offset

/-! # Where routines come from

A routine is read off one line of the text, which is entered in code, and off the lines below it.

* `exists_declares`: the line of a routine, and what is around it.
* `Declares.text?_range`, `Declares.isAt_range`: the place of its name.
* `pairwise_line_routines`: no two routines are on one line, and they are in order.
-/

namespace RexxEditing.Outline

open Text (linesSize feed)

/-- Whether the label declares the routine. The label is on `line`, which has the lines `above` and
`below` it. -/
structure Declares (text : Text) (r : Routine) (above : List Text) (line : Text)
    (below : List Text) (label : Label) : Prop where
  lines_eq : text.lines = above ++ line :: below
  entry : State.after .normal above = .normal
  label_eq : Label.ofLine? line = some label
  name_eq : r.name = label.name
  line_eq : r.line = above.length
  range_eq : r.range = (LineTable.ofText text).range
    ⟨linesSize above + label.gap.byteSize,
      linesSize above + label.gap.byteSize + label.name.byteSize⟩
  isProcedure_eq : r.isProcedure = Indent.startsWith (follower label.rest below) "procedure"

/-- The routine of a line. -/
theorem Routine.ofLine?_eq_some {table : LineTable} {index base : Nat} {line : Text}
    {below : List Text} {r : Routine} (h : Routine.ofLine? table index base line below = some r) :
    ∃ label, Label.ofLine? line = some label ∧
      r = ⟨label.name, index, table.range ⟨base + label.gap.byteSize,
        base + label.gap.byteSize + label.name.byteSize⟩,
        Indent.startsWith (follower label.rest below) "procedure"⟩ := by
  obtain ⟨label, hLabel, hRoutine⟩ := Option.bind_eq_some_iff.1 h
  split at hRoutine
  · cases hRoutine
  · exact ⟨label, hLabel, (Option.some.inj hRoutine).symm⟩

theorem exists_of_mem_routinesFrom {table : LineTable} {entry : State} {index base : Nat}
    {lines : List Text} {r : Routine} (h : r ∈ routinesFrom table entry index base lines) :
    ∃ above line below label, lines = above ++ line :: below ∧ entry.after above = .normal ∧
      Label.ofLine? line = some label ∧
      r = ⟨label.name, index + above.length,
        table.range ⟨base + linesSize above + label.gap.byteSize,
          base + linesSize above + label.gap.byteSize + label.name.byteSize⟩,
        Indent.startsWith (follower label.rest below) "procedure"⟩ := by
  induction lines generalizing entry index base with
  | nil => cases h
  | cons line below ih =>
    rw [routinesFrom] at h
    rcases List.mem_append.1 h with h | h
    · split at h
      next hNormal =>
        obtain ⟨label, hLabel, rfl⟩ := Routine.ofLine?_eq_some (Option.mem_toList.1 h)
        refine ⟨[], line, below, label, rfl, ?_, hLabel, rfl⟩
        cases entry with
        | normal => rfl
        | inside region => cases hNormal
      next => cases h
    · obtain ⟨above, line', below', label, rfl, hEntry, hLabel, rfl⟩ := ih h
      refine ⟨line :: above, line', below', label, rfl, hEntry, hLabel, ?_⟩
      have hIndex : index + 1 + above.length = index + (line :: above).length := by
        rw [List.length_cons]
        omega
      have hBase : base + line.byteSize + 1 + linesSize above =
          base + linesSize (line :: above) := by
        rw [Text.linesSize_cons]
        omega
      rw [hIndex, hBase]

/-- **The line of a routine.** -/
theorem exists_declares {text : Text} {r : Routine} (h : r ∈ routines text) :
    ∃ above line below label, Declares text r above line below label := by
  obtain ⟨above, line, below, label, hLines, hEntry, hLabel, rfl⟩ := exists_of_mem_routinesFrom h
  refine ⟨above, line, below, label, hLines, hEntry, hLabel, rfl, ?_, ?_, rfl⟩
  · exact Nat.zero_add _
  · rw [Nat.zero_add (linesSize above)]

namespace Declares

variable {text line between : Text} {r : Routine} {above below : List Text} {label : Label}

theorem take_lines (h : Declares text r above line below label) :
    text.lines.take r.line = above := by
  rw [h.line_eq, h.lines_eq, List.take_left]

theorem getElem?_lines (h : Declares text r above line below label) :
    text.lines[r.line]? = some line := by
  rw [h.line_eq, h.lines_eq, List.getElem?_append_right (Nat.le_refl _), Nat.sub_self]
  rfl

theorem line_lt (h : Declares text r above line below label) : r.line < text.lines.length :=
  (List.getElem?_eq_some_iff.1 h.getElem?_lines).1

/-- The text around the name of a routine. -/
theorem text_eq (h : Declares text r above line below label) (hParts : label.IsOf line between) :
    text = feed above ++ label.gap ++ label.name ++
      (between ++ ':' :: (label.rest ++ Text.feedBefore below)) := by
  rw [← Text.ofLines_lines text, h.lines_eq, Text.ofLines_append above (List.cons_ne_nil _ _),
    Text.ofLines_cons_eq, hParts.line_eq]
  simp only [List.append_assoc, List.cons_append]

/-- The name is a part of its line. -/
theorem name_le (h : Declares text r above line below label) :
    label.gap.byteSize + label.name.byteSize ≤ line.byteSize := by
  obtain ⟨between, hParts⟩ := Label.exists_isOf h.label_eq
  rw [hParts.line_eq, Text.byteSize_append, Text.byteSize_append]
  omega

/-- The places on the line of a routine. -/
theorem isAt (h : Declares text r above line below label) {column : Nat}
    (hColumn : column ≤ line.byteSize) : text.IsAt (linesSize above + column) ⟨r.line, column⟩ := by
  refine ⟨line, h.getElem?_lines, ?_, hColumn⟩
  rw [h.take_lines]

/-- The positions at the ends of a name are those of its bytes, and both are on its line. -/
theorem isAt_range (h : Declares text r above line below label) :
    text.IsAt r.range.span.start r.range.start ∧ text.IsAt r.range.span.stop r.range.stop ∧
      r.range.start.line = r.line ∧ r.range.stop.line = r.line := by
  have hName := h.name_le
  have hStart := h.isAt (show label.gap.byteSize ≤ line.byteSize by omega)
  have hStop := h.isAt hName
  rw [← Nat.add_assoc] at hStop
  have hRange := h.range_eq
  rw [LineTable.range, hStart.position_eq, hStop.position_eq] at hRange
  rw [hRange]
  exact ⟨hStart, hStop, rfl, rfl⟩

/-- The name is found at its place. -/
theorem text?_range (h : Declares text r above line below label) :
    r.range.span.text? text = some r.name := by
  obtain ⟨between, hParts⟩ := Label.exists_isOf h.label_eq
  have hSlice := Text.slice?_append (feed above ++ label.gap) label.name
    (between ++ ':' :: (label.rest ++ Text.feedBefore below))
  rw [← h.text_eq hParts, Text.byteSize_append, Text.byteSize_feed, ← h.name_eq] at hSlice
  rw [h.range_eq, ← h.name_eq]
  exact hSlice

end Declares

/-! ## Order -/

theorem pairwise_line_routinesFrom (table : LineTable) (entry : State) (index base : Nat)
    (lines : List Text) :
    (routinesFrom table entry index base lines).Pairwise fun r r' => r.line < r'.line := by
  induction lines generalizing entry index base with
  | nil => exact .nil
  | cons line below ih =>
    rw [routinesFrom, List.pairwise_append]
    refine ⟨?_, ih _ _ _, ?_⟩
    · generalize (if entry.isNormal then Routine.ofLine? table index base line below else none) =
        here
      cases here with
      | none => exact .nil
      | some r => exact List.pairwise_singleton _ r
    · intro r hr r' hr'
      obtain ⟨above, -, -, -, -, -, -, rfl⟩ := exists_of_mem_routinesFrom hr'
      split at hr
      next =>
        obtain ⟨label, -, rfl⟩ := Routine.ofLine?_eq_some (Option.mem_toList.1 hr)
        show index < index + 1 + above.length
        omega
      next => cases hr

/-- **The routines of a text** are on different lines, in order. -/
theorem pairwise_line_routines (text : Text) :
    (routines text).Pairwise fun r r' => r.line < r'.line :=
  pairwise_line_routinesFrom _ _ _ _ _

end RexxEditing.Outline
