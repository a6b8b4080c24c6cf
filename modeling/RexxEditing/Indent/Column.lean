import RexxEditing.Indent.Buffer
import RexxEditing.Text.Character
import RexxEditing.Text.Word

/-! # The column of a line

A line that starts with `end`, `when` or `otherwise` steps back one level from the code above it.
Code with `do`, `loop`, `select` or `then` as a word, or with `else` at its start, puts the next
line one level deeper. No nesting is tracked.

So a line goes one level left of the code line above it, one level right of it, or to its column,
and never left of column zero. With no code above, it goes to column zero.
-/

namespace RexxEditing.Indent

/-! ## Rules -/

/-- How a line relates to the code line above it. -/
inductive LineKind where
  /-- The line starts with `end`. -/
  | close
  /-- The line starts with `when` or `otherwise`. -/
  | mid
  | plain
  deriving DecidableEq, Repr

/-- The characters of a leading word. -/
def isLeadingWordChar (c : Char) : Bool :=
  c.isAlphanum || c == '_' || c == '@' || c == '#' || c == '$' || c == '!' || c == '?'

/-- The word after the white space at the start of a line. It is empty if something else stands
there. -/
def leadingWord (line : Text) : Text := line.trimStart.takeWhile isLeadingWordChar

/-- Whether the leading word is the given one, in any case of its letters. -/
def startsWith (line : Text) (word : String) : Bool := (leadingWord line).eqIgnoreCase word.toList

/-- The kind of a line. -/
def LineKind.ofLine (line : Text) : LineKind :=
  if startsWith line "end" then .close
  else if startsWith line "when" || startsWith line "otherwise" then .mid
  else .plain

/-- A tab goes on to the next multiple of this column. -/
def tabWidth : Nat := 8

/-- The column after the spaces and tabs at the start of a line that is entered at `column`. -/
def columnFrom (column : Nat) : Text → Nat
  | ' ' :: cs => columnFrom (column + 1) cs
  | '\t' :: cs => columnFrom ((column / tabWidth + 1) * tabWidth) cs
  | _ => column

/-- The indentation of a line. -/
def columnOf (line : Text) : Nat := columnFrom 0 line

/-- The words that open a block wherever they stand. -/
def blockOpeners : List Text := ["do", "loop", "select", "then"].map String.toList

/-- Whether code puts the line after it one level deeper. -/
def opensBlock (code : Text) : Bool :=
  startsWith code "else" || code.words.any fun word => blockOpeners.contains (Text.fold word)

/-! ## Columns -/

/-- The number of columns of a level when nothing else is said. -/
def defaultOffset : Nat := 2

/-- The column of a line of the given kind below a code line. -/
def columnBelow (offset : Nat) (kind : LineKind) (above : CodeLine) : Nat :=
  let column := columnOf above.text
  match kind with
  | .close | .mid => column - offset
  | .plain => if opensBlock above.code then column + offset else column

/-- The kind of a line of the buffer. A missing line is plain. -/
def Buffer.kind (b : Buffer) (i : Nat) : LineKind :=
  match b.line? i with
  | some line => LineKind.ofLine line
  | none => .plain

/-- The column of line `i` when the states of the lines above it are known. -/
def columnWith (b : Buffer) (i offset : Nat) (states : List State) : Nat :=
  match findCodeLine? (b.linesBefore i) states with
  | none => 0
  | some above => columnBelow offset (b.kind i) above

/-- The column of line `i`. A line past the end is like an empty line after the last. -/
def column (b : Buffer) (i offset : Nat) : Nat :=
  columnWith b i offset (b.entryStates (min i b.count))

end RexxEditing.Indent
