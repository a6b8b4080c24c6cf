import RexxEditing.Highlight.Document

/-! # Line buffers and their code lines

The indenter reads a buffer line by line, upwards from the line to indent. A buffer may have no
text for some of its lines.

The indentation of a line hangs on the nearest line above it that holds code. Blank lines, lines
with nothing but comments and lines wholly inside a region are passed over. The code of a line
starts after the region that the line was entered in, and ends before the comments at its end.
-/

namespace RexxEditing.Indent

/-! ## Buffers -/

/-- A sequence of lines without their terminators. -/
structure Buffer where
  count : Nat
  line? : Nat → Option Text

namespace Buffer

/-- The buffer of a list of lines, some of which may be missing. -/
def ofPartial (lines : List (Option Text)) : Buffer := ⟨lines.length, fun i => (lines[i]?).join⟩

/-- The buffer of a list of lines. -/
def ofLines (lines : List Text) : Buffer := ⟨lines.length, fun i => lines[i]?⟩

/-- The lines of a text, without carriage returns at their ends. -/
def ofText (text : Text) : Buffer := ofLines (text.lines.map Text.dropReturn)

/-- The lines above line `i`, nearest first, with their numbers. Missing lines are left out. -/
def linesBefore (b : Buffer) (i : Nat) : List (Nat × Text) :=
  (List.range (min i b.count)).reverse.filterMap fun k => (b.line? k).map (k, ·)

/-- The states in which the first `count` lines are entered. A missing line counts as empty. -/
def entryStates (b : Buffer) (count : Nat) : List State :=
  State.normal.sequence ((List.range count).map fun i => (b.line? i).getD [])

end Buffer

/-! ## Code lines -/

/-- The tokens of a line that are its own, and where its own part starts. A line that is entered in
a region has none if the region does not end on it. -/
def ownTokens? (entry : State) (tokens : List Token) : Option (Nat × List Token) :=
  match entry, tokens with
  | .normal, _ => some (0, tokens)
  | .inside _, region :: rest => some (region.span.stop, rest)
  | .inside _, [] => none

/-- The part of a line that holds code. There is none if all of the line is white space, comments
and regions from above. -/
def codeSpan? (line : Text) (entry : State) : Option Span := do
  let scan := LineScan.ofLine line 0 entry none
  let (start, tokens) ← ownTokens? entry scan.tokens
  let stop := match scan.exit with
    | .inside .comment => scan.openFrom.getD line.byteSize
    | _ => line.byteSize
  let (comments, code) := tokens.reverse.span (·.kind == .comment)
  if code.isEmpty then none
  else
    match comments.getLast? with
    | some firstComment => some ⟨start, firstComment.span.start⟩
    | none => some ⟨start, stop⟩

/-- A line that holds code. -/
structure CodeLine where
  index : Nat
  /-- The whole line. Its indentation counts. -/
  text : Text
  /-- The part with code. Its words open blocks. -/
  code : Text
  deriving DecidableEq, Repr

/-- The line as a code line, if it holds code. -/
def CodeLine.ofLine? (index : Nat) (text : Text) (entry : State) : Option CodeLine := do
  let span ← codeSpan? text entry
  let code ← span.text? text
  return ⟨index, text, code⟩

/-- The first of the numbered lines that holds code. Line `i` is entered in `states[i]`, and in code
if the list is too short. -/
def findCodeLine? (lines : List (Nat × Text)) (states : List State) : Option CodeLine :=
  lines.findSome? fun (index, text) => CodeLine.ofLine? index text (states.getD index .normal)

end RexxEditing.Indent
