import RexxEditing.Indent.Document

/-! # Editing sessions

The editing mode works with any editor that shows its text and its cursor, and that takes highlight
tokens and columns for its lines. A session is such an editor: it holds a text, a cursor and the
highlight tokens that it has received.
-/

namespace RexxEditing

/-! ## The editing mode -/

/-- What the editing mode asks of an editor whose states are `H`. -/
structure Host (H : Type) where
  text : H → Text
  /-- The line of the cursor. -/
  cursor : H → Nat
  /-- Takes a highlight token. -/
  highlight : H → Token → H
  /-- Moves the text of a line to a column. -/
  setIndentation : H → Nat → Nat → H

namespace Host

variable {H : Type} (host : Host H)

/-- Highlights the text. The answer is the state at its end. -/
def fontify (h : H) : State × H :=
  let c := classify (host.text h) .normal
  (c.exit, c.tokens.foldl host.highlight h)

/-- Indents the line of the cursor. The answer is its column. -/
def indentLine (offset : Nat) (h : H) : Nat × H :=
  let column := Indent.column (Indent.Buffer.ofText (host.text h)) (host.cursor h) offset
  (column, host.setIndentation h (host.cursor h) column)

/-- The column of a line when the lines of the text stand as in `current`. A line of white space
goes to column zero. -/
def regionColumn (offset : Nat) (states : List State) (current : List Text) (index : Nat)
    (line : Text) : Nat :=
  if line.isAllWhite then 0
  else Indent.columnWith (Indent.Buffer.ofLines current) index offset states

/-- Indents the lines with the given numbers, from the first to the last, when the lines of the text
stand as in `current`. Lines that are entered in a region are left alone. The answer is the number
of lines indented. -/
def indentLines (offset : Nat) (states : List State) (current : List Text) (h : H) :
    List Nat → Nat × H
  | [] => (0, h)
  | index :: rest =>
    match states[index]?, current[index]? with
    | some .normal, some line =>
      let column := regionColumn offset states current index line
      let current := current.set index (Text.spaces column ++ line.trimStart)
      let (count, h) :=
        indentLines offset states current (host.setIndentation h index column) rest
      (count + 1, h)
    | _, _ => indentLines offset states current h rest

/-- Indents the lines from `start` up to, and not including, `stop`. -/
def indentRegion (offset : Nat) (h : H) (start stop : Nat) : Nat × H :=
  let text := host.text h
  let current := text.lines.map Text.dropReturn
  let stop := min stop current.length
  host.indentLines offset (lineStates text .normal) current h (List.range' start (stop - start))

end Host

/-! ## Sessions -/

/-- The state of an editor. -/
structure Session where
  text : Text
  /-- The line of the cursor. -/
  cursor : Nat
  /-- All tokens received so far. -/
  highlights : List Token
  /-- The columns of an indentation level. -/
  offset : Nat
  deriving DecidableEq, Repr

namespace Session

/-- A session on a text, with the cursor on the first line. -/
def ofText (text : Text) (offset : Nat) : Session := ⟨text, 0, [], offset⟩

/-- The line with its spaces and tabs at the start replaced by `column` spaces. -/
def indentTo (column : Nat) (line : Text) : Text :=
  Text.spaces column ++ line.dropWhile fun c => c == ' ' || c == '\t'

/-- The session with one line moved to a column. A line past the end is none. -/
def setIndentation (s : Session) (line column : Nat) : Session :=
  { s with text := Text.ofLines (s.text.lines.modify line (indentTo column)) }

/-- The session as an editor. -/
def host : Host Session where
  text := text
  cursor := cursor
  highlight s token := { s with highlights := s.highlights ++ [token] }
  setIndentation := setIndentation

/-- Highlights the text. The answer is the state at its end. -/
def fontify (s : Session) : State × Session := host.fontify s

/-- Indents the line of the cursor. The answer is its column. -/
def indentLine (s : Session) : Nat × Session := host.indentLine s.offset s

/-- Indents the lines from `start` up to, and not including, `stop`. The answer is the number of
lines indented. -/
def indentRegion (s : Session) (start stop : Nat) : Nat × Session :=
  host.indentRegion s.offset s start stop

/-! ## Requests -/

/-- What can happen in a session. -/
inductive Request where
  | moveCursor (line : Nat)
  | fontify
  | indentLine
  | indentRegion (start stop : Nat)
  | setIndentation (line column : Nat)
  | setOffset (offset : Nat)
  deriving DecidableEq, Repr

/-- The answer to a request. -/
inductive Answer where
  | done
  | state (exit : State)
  | column (column : Nat)
  | indented (count : Nat)
  | offset (offset : Nat)
  deriving DecidableEq, Repr

/-- Carries out a request. -/
def handle (s : Session) : Request → Answer × Session
  | .moveCursor line => (.done, { s with cursor := line })
  | .fontify => let (exit, s) := s.fontify; (.state exit, s)
  | .indentLine => let (column, s) := s.indentLine; (.column column, s)
  | .indentRegion start stop => let (count, s) := s.indentRegion start stop; (.indented count, s)
  | .setIndentation line column => (.done, s.setIndentation line column)
  | .setOffset offset => (.offset offset, { s with offset })

/-- Carries out requests one after the other, with the session after each. -/
def handleAll (s : Session) : List Request → List (Answer × Session)
  | [] => []
  | r :: rest =>
    let (answer, s) := s.handle r
    (answer, s) :: handleAll s rest

end Session

end RexxEditing
