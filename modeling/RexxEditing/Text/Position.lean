import RexxEditing.Text.Basic

/-! # Positions

A position is a line and a column, both counted from zero, the column in bytes. The line table of a
text turns byte offsets into positions.
-/

namespace RexxEditing

/-- A line and a column. -/
structure Position where
  line : Nat
  column : Nat
  deriving DecidableEq, Repr

namespace Position

/-- The start of a text. -/
def zero : Position := ⟨0, 0⟩

/-- Positions in reading order: by line, then by column. -/
def le (p q : Position) : Bool := p.line < q.line || (p.line == q.line && p.column ≤ q.column)

/-- The position as `line:column`. -/
def toText (p : Position) : String := s!"{p.line}:{p.column}"

end Position

/-- A span together with the positions of its ends. -/
structure Range where
  span : Span
  start : Position
  stop : Position
  deriving DecidableEq, Repr

namespace Range

/-- The empty range at the start of a text. -/
def zero : Range := ⟨⟨0, 0⟩, .zero, .zero⟩

/-- Whether the position lies in the range, both ends included. -/
def contains (r : Range) (p : Position) : Bool := r.start.le p && p.le r.stop

/-- Whether the range starts and ends on one line. -/
def isSingleLine (r : Range) : Bool := r.start.line == r.stop.line

/-- The range as `line:column..line:column`. -/
def toText (r : Range) : String := s!"{r.start.toText}..{r.stop.toText}"

end Range

/-- Where the lines of a text start. -/
structure LineTable where
  /-- The byte offsets of the line starts, in increasing order. The first is zero. -/
  starts : List Nat
  /-- The size of the text. -/
  size : Nat
  deriving DecidableEq, Repr

namespace LineTable

/-- The starts of lines that follow each other from byte `base` on. -/
def startsFrom (base : Nat) : List Text → List Nat
  | [] => []
  | line :: rest => base :: startsFrom (base + line.byteSize + 1) rest

/-- The line table of a text. -/
def ofText (text : Text) : LineTable := ⟨startsFrom 0 text.lines, text.byteSize⟩

/-- The number of lines. -/
def count (t : LineTable) : Nat := t.starts.length

/-- The byte offset where a line starts. -/
def start? (t : LineTable) (line : Nat) : Option Nat := t.starts[line]?

/-- The span of a line without its line feed. -/
def span? (t : LineTable) (line : Nat) : Option Span := do
  let start ← t.start? line
  let stop := match t.start? (line + 1) with
    | some next => next - 1
    | none => t.size
  return ⟨start, stop⟩

/-- The last line that starts at or before the offset. -/
def lineOf (t : LineTable) (offset : Nat) : Nat :=
  (t.starts.takeWhile (· ≤ offset)).length - 1

/-- The position of a byte offset. An offset past the end has the position of the end. -/
def position (t : LineTable) (offset : Nat) : Position :=
  let offset := min offset t.size
  let line := t.lineOf offset
  ⟨line, offset - (t.start? line).getD 0⟩

/-- The range of a span. -/
def range (t : LineTable) (span : Span) : Range :=
  ⟨span, t.position span.start, t.position span.stop⟩

end LineTable

end RexxEditing
