import RexxEditing.Highlight.Piece
import RexxEditing.Highlight.Token
import RexxEditing.Vocabulary

/-! # Categories of pieces

The category of a piece of code depends on its text and on the pieces next to it, blanks aside.
Comments and strings separate: in `| /* x */ sort` the symbol does not follow the pipe.

The rules for a symbol are tried in this order: the rest of a number such as `1e10` is plain; after
a pipe stand stage names and stage labels; then come keywords, the label at the start of a line,
the built-in functions and the environment after `address`. A label may have the name of a built-in
function, but not that of a keyword.
-/

namespace RexxEditing.Piece

/-- The nearest piece on one side that is not blank. -/
structure Neighbour where
  piece : Piece
  /-- Whether blanks stand between. -/
  apart : Bool
  deriving DecidableEq, Repr

/-- The first piece of the list that is not blank. -/
def neighbour : List Piece → Option Neighbour
  | [] => none
  | blank _ :: pieces => (neighbour pieces).map fun n => { n with apart := true }
  | piece :: _ => some ⟨piece, false⟩

namespace Neighbour

/-- Whether the neighbour is a code lexeme of the given shape. -/
def hasShape (n : Neighbour) (shape : Lexeme.Shape) : Bool := n.piece.shape? == some shape

/-- Whether the neighbour is a pipe operator. -/
def isPipe (n : Neighbour) : Bool := n.piece.shape?.any Lexeme.Shape.isPipe

/-- Whether the neighbour is a lexeme of the given shape with no blank between. -/
def isGlued (n : Neighbour) (shape : Lexeme.Shape) : Bool := n.hasShape shape && !n.apart

/-- Whether the neighbour is the word `address` with a blank between. -/
def isAddress (n : Neighbour) : Bool :=
  n.hasShape .symbol && n.apart && n.piece.text.eqIgnoreCase "address".toList

end Neighbour

/-- The category of a symbol between its neighbours. -/
def symbolKind (word : Text) (before after : Option Neighbour) : Kind :=
  let afterPipe := before.any Neighbour.isPipe
  let beforeColon := after.any (·.hasShape .colon)
  if before.any (·.isGlued .number) then .plainText
  else if afterPipe && Vocabulary.stages.contains word then .pipeStageName
  else if afterPipe && beforeColon then .pipeStageLabel
  else if Vocabulary.keywords.contains word then .keyword
  else if before.isNone && beforeColon then .label
  else if Vocabulary.builtins.contains word then .builtin
  else if before.any Neighbour.isAddress then .addressTarget
  else .plainText

/-- The category of a lexeme between its neighbours. -/
def codeKind (shape : Lexeme.Shape) (text : Text) (before after : Option Neighbour) : Kind :=
  match shape with
  | .pipe | .doublePipe => .pipeOperator
  | .number => if after.any (·.isGlued .symbol) then .plainText else .number
  | .symbol => symbolKind text before after
  | _ => .plainText

/-- The category of a piece, given the pieces before it (nearest first) and after it. Blanks and
regions that do not end on the line have none. -/
def kind? (before after : List Piece) : Piece → Option Kind
  | blank _ | unclosed _ _ => none
  | closed region _ => some region.kind
  | lineComment _ => some .comment
  | unknown _ => some .plainText
  | code shape text => some (codeKind shape text (neighbour before) (neighbour after))

end RexxEditing.Piece
