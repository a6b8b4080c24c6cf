import RexxEditing.Diff.Hunk
import RexxEditing.Indent.Document
import RexxEditing.Text.Position

/-! # Formatting edits

Indenting a text as a list of edits, for whoever changes a text in place. The edits come from a
comparison of the lines before and after.

The comparison ends a line after a line feed, after a carriage return with a line feed, and after a
carriage return alone. Its line numbers are looked up in the line table of the text, where lines
end at line feeds only.
-/

namespace RexxEditing.Format

/-- A new text for a span of the old. -/
structure Edit where
  span : Span
  text : Text
  deriving DecidableEq, Repr

/-- The lines of a text with their terminators. -/
def terminatedLines : Text → List Text
  | [] => []
  | '\r' :: '\n' :: cs => ['\r', '\n'] :: terminatedLines cs
  | c :: cs =>
    if c = '\n' ∨ c = '\r' then [c] :: terminatedLines cs
    else
      match terminatedLines cs with
      | line :: rest => (c :: line) :: rest
      | [] => [[c]]

/-- The byte where a line starts. A line past the last starts at the end of the text. -/
def offset (table : LineTable) (line : Nat) : Nat := (table.start? line).getD table.size

/-- The edits of a hunk. A hunk with as many new lines as old ones is made line by line. -/
def editsOf (table : LineTable) (newLines : List Text) (h : Diff.Hunk) : List Edit :=
  let lines := Diff.run newLines h.new h.newLength
  if h.isEven then
    lines.mapIdx fun i line => ⟨⟨offset table (h.old + i), offset table (h.old + i + 1)⟩, line⟩
  else [⟨⟨offset table h.old, offset table (h.old + h.oldLength)⟩, lines.flatten⟩]

/-- The edits that turn one text into another. -/
def edits (before after : Text) : List Edit :=
  if before = after then []
  else
    let newLines := terminatedLines after
    (Diff.hunks (terminatedLines before) newLines).flatMap
      (editsOf (LineTable.ofText before) newLines)

/-- The edits that indent a text. -/
def document (levelWidth : Nat) (text : Text) : List Edit :=
  edits text (Indent.reindent levelWidth text)

/-- The edits that indent a text, if it can be indented in memory. -/
def document? (levelWidth : Nat) (text : Text) : Option (List Edit) :=
  (Indent.reindent? levelWidth text).map (edits text)

/-! ## Part of a text -/

/-- Lines from `start` up to, and not including, `stop`. -/
structure LineRange where
  start : Nat
  stop : Nat
  deriving DecidableEq, Repr

/-- The range inside a text of `count` lines. A range that would be empty gets one line, if the
text has a line there. -/
def LineRange.clamp (r : LineRange) (count : Nat) : LineRange :=
  let start := min r.start count
  let stop := min r.stop count
  if stop ≤ start then ⟨start, min (start + 1) (max count 1)⟩ else ⟨start, stop⟩

/-- Whether an edit stays within the lines. An insertion stands on one of them; any other edit
starts on or after the first and ends no later than the start of the line after the last. -/
def Edit.isWithin (table : LineTable) (r : LineRange) (e : Edit) : Bool :=
  let start := (table.position e.span.start).line
  if e.span.start = e.span.stop then r.start ≤ start && start < r.stop
  else r.start ≤ start && (table.position e.span.stop).line ≤ r.stop

/-- The edits that indent some lines of a text, in the places that they have when all of the text is
indented. -/
def lines (levelWidth : Nat) (text : Text) (r : LineRange) : List Edit :=
  let table := LineTable.ofText text
  (document levelWidth text).filter (Edit.isWithin table (r.clamp table.count))

/-- The edits that indent some lines of a text, if all of it can be indented in memory. -/
def lines? (levelWidth : Nat) (text : Text) (r : LineRange) : Option (List Edit) :=
  let table := LineTable.ofText text
  (document? levelWidth text).map (List.filter (Edit.isWithin table (r.clamp table.count)))

end RexxEditing.Format
