import RexxEditing.Highlight.Document
import RexxEditing.Indent.Column
import RexxEditing.Text.Position
import RexxEditing.Vocabulary

/-! # Outline

A routine of a program is a label: a name and a colon at the start of a line that is entered in
code. A keyword is no label. A routine is a procedure if the text after the colon starts with
`procedure`, and that text is the next line that is not blank if the line has nothing more.
-/

namespace RexxEditing.Outline

/-- The blanks that may stand around the name of a routine. -/
def isGap (c : Char) : Bool := c == ' ' || c == '\t'

/-- Whether the name of a routine may start with the character. -/
def isNameStart (c : Char) : Bool :=
  c.isAlpha || c == '_' || c == '@' || c == '#' || c == '$' || c == '!' || c == '?'

/-- Whether the name of a routine may go on with the character. -/
def isNameRest (c : Char) : Bool := isNameStart c || c.isDigit || c == '.'

/-- A label at the start of a line. -/
structure Label where
  /-- The blanks before the name. -/
  gap : Text
  name : Text
  /-- The line after the colon. -/
  rest : Text
  deriving DecidableEq, Repr

/-- The label at the start of a line, if there is one. -/
def Label.ofLine? (line : Text) : Option Label :=
  let (gap, declaration) := line.span isGap
  match declaration with
  | [] => none
  | c :: cs =>
    if isNameStart c then
      let (name, after) := cs.span isNameRest
      match after.dropWhile isGap with
      | ':' :: rest => some ⟨gap, c :: name, rest⟩
      | _ => none
    else none

/-- A routine of a program. -/
structure Routine where
  name : Text
  /-- The line of its label. -/
  line : Nat
  /-- The place of its name. -/
  range : Range
  isProcedure : Bool
  deriving DecidableEq, Repr

/-- The text that says what kind of routine a label starts: the rest of its line, or the first line
below with more than white space. -/
def follower (rest : Text) (below : List Text) : Text :=
  if rest.isAllWhite then ((below.map Text.trim).find? (!·.isEmpty)).getD [] else rest

/-- The routine that a line declares. The line starts at byte `base`. -/
def Routine.ofLine? (table : LineTable) (index base : Nat) (line : Text) (below : List Text) :
    Option Routine := do
  let label ← Label.ofLine? line
  if Vocabulary.keywords.contains label.name then none
  else
    let start := base + label.gap.byteSize
    return {
      name := label.name
      line := index
      range := table.range ⟨start, start + label.name.byteSize⟩
      isProcedure := Indent.startsWith (follower label.rest below) "procedure" }

/-- The routines of lines that follow each other, from line `index` at byte `base` on. -/
def routinesFrom (table : LineTable) (entry : State) (index base : Nat) :
    List Text → List Routine
  | [] => []
  | line :: below =>
    let here := if entry.isNormal then Routine.ofLine? table index base line below else none
    here.toList ++
      routinesFrom table (entry.next line) (index + 1) (base + line.byteSize + 1) below

/-- The routines of a program in the order of its text. -/
def routines (text : Text) : List Routine :=
  routinesFrom (LineTable.ofText text) .normal 0 0 text.lines

end RexxEditing.Outline
