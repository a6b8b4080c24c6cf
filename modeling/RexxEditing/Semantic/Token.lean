import RexxEditing.Highlight.Document
import RexxEditing.Text.Position

/-! # Semantic tokens

The highlight tokens of a text as editors take them: plain text is left out, a token over several
lines is cut at the line ends, and every token has the positions of its ends.

They are sent as numbers, five for each token: the lines since the token before, the column (since
the token before if that is on the same line), the length, the number of the category in the legend
and a zero. A number is 32 bits wide and loses what is above.
-/

namespace RexxEditing

/-- The categories that editors know. -/
inductive SemanticKind where
  | keyword
  | builtin
  | label
  | number
  | comment
  | string
  | pipeOperator
  | pipeStageName
  | pipeStageLabel
  | addressTarget
  deriving DecidableEq, Repr

namespace SemanticKind

/-- The legend: the categories in the order of their numbers. -/
def legend : List SemanticKind :=
  [keyword, builtin, label, number, comment, string, pipeOperator, pipeStageName, pipeStageLabel,
    addressTarget]

/-- The place of the category in the legend. -/
def index (k : SemanticKind) : Nat := legend.idxOf k

/-- The semantic category of a lexical one. Plain text has none. -/
def ofKind? : Kind → Option SemanticKind
  | .keyword => some keyword
  | .builtin => some builtin
  | .label => some label
  | .number => some number
  | .comment => some comment
  | .string => some string
  | .pipeOperator => some pipeOperator
  | .pipeStageName => some pipeStageName
  | .pipeStageLabel => some pipeStageLabel
  | .addressTarget => some addressTarget
  | .plainText => none

/-- The lexical category. -/
def toKind : SemanticKind → Kind
  | keyword => .keyword
  | builtin => .builtin
  | label => .label
  | number => .number
  | comment => .comment
  | string => .string
  | pipeOperator => .pipeOperator
  | pipeStageName => .pipeStageName
  | pipeStageLabel => .pipeStageLabel
  | addressTarget => .addressTarget

/-- The token type that editor themes colour. A standard type is taken where one fits: the stages
are the functions of a pipeline, a stage label names a stream and the target of `address` an
environment. -/
def typeName : SemanticKind → String
  | keyword => "keyword"
  | builtin => "function.builtin"
  | label => "label"
  | number => "number"
  | comment => "comment"
  | string => "string"
  | pipeOperator => "operator"
  | pipeStageName => "function"
  | pipeStageLabel => "type"
  | addressTarget => "namespace"

end SemanticKind

/-- A range of the text with its semantic category. -/
structure SemanticToken where
  kind : SemanticKind
  range : Range
  deriving DecidableEq, Repr

namespace SemanticToken

/-- A token, unless it is empty. -/
def ofRange? (kind : SemanticKind) (range : Range) : Option SemanticToken :=
  if range.span.start < range.span.stop then some ⟨kind, range⟩ else none

/-- The part of a span that lies on a line. -/
def onLine? (table : LineTable) (kind : SemanticKind) (span : Span) (line : Nat) :
    Option SemanticToken := do
  let lineSpan ← table.span? line
  let part : Span := ⟨max span.start lineSpan.start, min span.stop lineSpan.stop⟩
  ofRange? kind (table.range part)

/-- The tokens of a span, one for each line. -/
def ofSpan (table : LineTable) (kind : SemanticKind) (span : Span) : List SemanticToken :=
  let range := table.range span
  if range.isSingleLine then (ofRange? kind range).toList
  else
    (List.range' range.start.line (range.stop.line + 1 - range.start.line)).filterMap
      (onLine? table kind span)

/-- The tokens of a highlight token. -/
def ofToken (table : LineTable) (t : Token) : List SemanticToken :=
  match SemanticKind.ofKind? t.kind with
  | some kind => ofSpan table kind t.span
  | none => []

/-- Tokens in reading order: by their starts, then by their ends. -/
def le (a b : SemanticToken) : Bool :=
  if a.range.start = b.range.start then a.range.stop.le b.range.stop
  else a.range.start.le b.range.start

/-- The semantic tokens of a text. -/
def ofText (text : Text) : List SemanticToken :=
  let table := LineTable.ofText text
  ((classify text .normal).tokens.flatMap (ofToken table)).mergeSort le

/-! ## Numbers -/

/-- The difference of two numbers that are in order. -/
def diff? (large small : Nat) : Option Nat := if small ≤ large then some (large - small) else none

/-- The numbers of a token after a token at `previous`. They exist if the token is not before that
position and does not end before it starts. -/
def encode? (previous : Position) (t : SemanticToken) : Option (List UInt32) := do
  let lines ← diff? t.range.start.line previous.line
  let columns ← if lines = 0 then diff? t.range.start.column previous.column
    else some t.range.start.column
  let length ← diff? t.range.span.stop t.range.span.start
  return [lines.toUInt32, columns.toUInt32, length.toUInt32, t.kind.index.toUInt32, 0]

/-- The numbers of tokens that follow a token at `previous`. -/
def encodeFrom? (previous : Position) : List SemanticToken → Option (List UInt32)
  | [] => some []
  | t :: rest => do
    let first ← encode? previous t
    let others ← encodeFrom? t.range.start rest
    return first ++ others

/-- The numbers of tokens in reading order. -/
def encodeAll? (tokens : List SemanticToken) : Option (List UInt32) := encodeFrom? .zero tokens

end SemanticToken

end RexxEditing
