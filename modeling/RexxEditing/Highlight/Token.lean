import RexxEditing.Region
import RexxEditing.Text.Basic

/-! # Highlight tokens

A highlight token gives the bytes of a span a lexical category. White space outside comments and
strings is in no token.
-/

namespace RexxEditing

/-- The lexical categories. -/
inductive Kind where
  | keyword
  | builtin
  | label
  | number
  | comment
  | string
  | pipeOperator
  | pipeStageLabel
  | pipeStageName
  /-- The environment that an `address` instruction names. -/
  | addressTarget
  | plainText
  deriving DecidableEq, Repr

namespace Kind

/-- The categories in the order in which they are listed. -/
def all : List Kind :=
  [keyword, builtin, label, number, comment, string, pipeOperator, pipeStageLabel, pipeStageName,
    addressTarget, plainText]

/-- The name of the category. -/
def name : Kind → String
  | keyword => "keyword"
  | builtin => "builtin"
  | label => "label"
  | number => "number"
  | comment => "comment"
  | string => "string"
  | pipeOperator => "pipe-operator"
  | pipeStageLabel => "pipe-stage-label"
  | pipeStageName => "pipe-stage-name"
  | addressTarget => "address-target"
  | plainText => "plain-text"

end Kind

/-- The category of a region. -/
def Region.kind : Region → Kind
  | .comment => .comment
  | .string _ => .string

/-- The category of the region that a line is entered in. -/
def State.kind? : State → Option Kind
  | .normal => none
  | .inside region => some region.kind

/-- A span of the text with its category. -/
structure Token where
  kind : Kind
  span : Span
  deriving DecidableEq, Repr

namespace Token

/-- A token on a span that is in order. -/
def ofSpan? (kind : Kind) (span : Span) : Option Token :=
  if span.isOrdered then some ⟨kind, span⟩ else none

/-- The text of the token in the text that it was taken from. -/
def text? (t : Token) (source : Text) : Option Text := t.span.text? source

/-- Whether the token covers nothing. -/
def isEmpty (t : Token) : Bool := t.span.start == t.span.stop

/-- The token moved `n` bytes on. -/
def shift (t : Token) (n : Nat) : Token := ⟨t.kind, t.span.shift n⟩

end Token

end RexxEditing
