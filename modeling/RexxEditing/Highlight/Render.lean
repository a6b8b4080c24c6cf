import RexxEditing.Highlight.Document
import RexxEditing.Highlight.Token
import RexxEditing.Text.Quoted

/-! # Printed tokens

Tokens are printed in two forms: one line for each token, with its category and its text between
quotes, or a JSON document with an entry on each line, which has the state at the end of the text,
too.
-/

namespace RexxEditing

/-! ## Lines -/

namespace Token

/-- The category and the text of the token. There is no such line if the span does not fit the
text. -/
def render? (source : Text) (t : Token) : Option Text := do
  let text ← t.text? source
  return t.kind.name.toList ++ ' ' :: text.quote

/-- The lines of all tokens. -/
def renderAll? (source : Text) (tokens : List Token) : Option Text :=
  (tokens.mapM (render? source)).map Text.ofLines

end Token

/-! ## JSON -/

/-- A value in JSON. Its texts are names, which have no characters that must be escaped. -/
inductive JsonValue where
  | number (n : Nat)
  | name (s : String)
  | array (items : List JsonValue)
  | object (fields : List (String × JsonValue))

namespace JsonValue

/-- The blanks in front of a line. -/
def margin (depth : Nat) : Text := List.replicate (2 * depth) ' '

/-- Entries, each on a line of its own, between brackets. Without entries they stand together. -/
def block (opening closing : Char) (depth : Nat) : List Text → Text
  | [] => [opening, closing]
  | entries =>
    let lines := entries.map fun entry => '\n' :: margin (depth + 1) ++ entry
    opening :: (lines.intersperse [',']).flatten ++ '\n' :: margin depth ++ [closing]

/-- A name between quotes. -/
def quoted (s : String) : Text := '"' :: s.toList ++ ['"']

mutual

/-- The value as text, from a line at the given depth on. -/
def render (depth : Nat) : JsonValue → Text
  | .number n => (toString n).toList
  | .name s => quoted s
  | .array items => block '[' ']' depth (renderItems (depth + 1) items)
  | .object fields => block '\x7b' '\x7d' depth (renderFields (depth + 1) fields)

/-- The items of an array. -/
def renderItems (depth : Nat) : List JsonValue → List Text
  | [] => []
  | j :: rest => render depth j :: renderItems depth rest

/-- The fields of an object. -/
def renderFields (depth : Nat) : List (String × JsonValue) → List Text
  | [] => []
  | (field, j) :: rest =>
    (quoted field ++ ':' :: ' ' :: render depth j) :: renderFields depth rest

end

end JsonValue

/-- The state in JSON. -/
def State.toJson : State → JsonValue
  | .normal => .name "normal"
  | .inside .comment => .name "block-comment"
  | .inside (.string .single) => .object [("string", .name "single")]
  | .inside (.string .double) => .object [("string", .name "double")]

/-- The token in JSON. -/
def Token.toJson (t : Token) : JsonValue :=
  .object [("kind", .name t.kind.name),
    ("span", .object [("start", .number t.span.start), ("end", .number t.span.stop)])]

/-- The classification in JSON. -/
def Classification.toJson (c : Classification) : JsonValue :=
  .object [("tokens", .array (c.tokens.map Token.toJson)), ("exit", c.exit.toJson)]

end RexxEditing
