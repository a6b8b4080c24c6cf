import RexxEditing.Proofs.Indent.Column
import RexxEditing.Proofs.Text.Position

/-! # Entry states on three paths

The states in which the lines of a text are entered are computed three times: for a buffer, whose
lines have lost their carriage returns, for the list of line states, and on the way through the text
when it is classified, where every line is scanned at its place and the start of an open region is
handed on. All three give the same states, one for each line.

* `State.length_sequence`, `State.sequence_concat`: one state for each line, the last of them after
  all other lines.
* `entryStates_agree`: the three paths have the same lines and the same states.
-/

namespace RexxEditing

namespace State

theorem length_sequence (entry : State) (lines : List Text) :
    (entry.sequence lines).length = lines.length := by
  induction lines generalizing entry with
  | nil => rfl
  | cons line rest ih => rw [sequence, List.length_cons, List.length_cons, ih]

theorem sequence_concat (entry : State) (lines : List Text) (line : Text) :
    entry.sequence (lines ++ [line]) = entry.sequence lines ++ [entry.after lines] := by
  rw [sequence_append]
  rfl

end State

/-- Whoever classifies a text finds its line states on the way. -/
theorem lineStates_getElem? (text : Text) (entry : State) {i : Nat} (h : i < text.lines.length) :
    (lineStates text entry)[i]? =
      some (scanLines 0 ⟨entry, none⟩ (text.lines.take i)).2.state := by
  have hLine : text.lines[i]? = some text.lines[i] := List.getElem?_eq_getElem h
  rw [scanLines_state]
  exact State.sequence_getElem? entry hLine

/-- The line behind a final line feed is entered where the classification ends. -/
theorem getLast?_lineStates (text : Text) (entry : State) :
    (lineStates (text ++ ['\n']) entry).getLast? = some (classify text entry).exit := by
  have hLines : Text.lines (text ++ ['\n']) = text.lines ++ [[]] :=
    Text.lines_append_newline text []
  rw [lineStates, hLines, State.sequence_concat, List.getLast?_concat, classify_eq]

namespace Indent

/-- **Entry states agree.** A text with `n - 1` line feeds has `n` lines in its buffer, its line
table and its list of line states. The states of the buffer's lines are the line states, although
the buffer has no carriage returns at the ends of lines, and the classification of the lines above a
line hands on the state of that line. The state in which the classification ends is the one in which
a line after a final line feed is entered. -/
theorem entryStates_agree (text : Text) :
    let n := text.count '\n' + 1
    (Buffer.ofText text).count = n ∧ (LineTable.ofText text).count = n ∧
      (lineStates text .normal).length = n ∧
      (Buffer.ofText text).entryStates n = lineStates text .normal ∧
      (∀ i, i < n → (lineStates text .normal)[i]? =
        some (scanLines 0 ⟨.normal, none⟩ (text.lines.take i)).2.state) ∧
      (lineStates (text ++ ['\n']) .normal).getLast? = some (classify text .normal).exit := by
  intro n
  have hLength : text.lines.length = n := Text.length_lines text
  have hStates : (lineStates text .normal).length = n := by
    rw [lineStates, State.length_sequence, hLength]
  refine ⟨?_, ?_, hStates, ?_, ?_, getLast?_lineStates text .normal⟩
  · show (text.lines.map Text.dropReturn).length = n
    rw [List.length_map, hLength]
  · rw [LineTable.count_ofText, hLength]
  · rw [Buffer.entryStates_ofText text (Nat.le_of_eq hLength.symm), ← hStates, List.take_length]
  · intro i hi
    apply lineStates_getElem?
    rwa [hLength]

/-- A comment stays open behind a carriage return, and a string ends in front of one. -/
example : (Buffer.ofText "/* a\r\n*/ 'b'\r\n'c\r".toList).entryStates 3 =
    [.normal, .inside .comment, .normal] := by
  decide +kernel

end Indent

end RexxEditing
