import RexxEditing.Toml.Reader

/-! # Blanks, comments and strings of TOML

A basic string has escapes, a literal string has none. Between three quotes a string may run over
several lines.
-/

namespace RexxEditing.Toml

open Reader

/-! ## Blanks -/

/-- Space and tab. -/
def isSpace (c : Char) : Bool := c == ' ' || c == '\t'

/-- Any run of blanks. -/
def spaces : Reader Unit := do
  let _ ← takeWhile isSpace

/-- A line feed, or a carriage return and a line feed. -/
def newline : Reader Unit := char '\n' <|> word "\r\n"

/-- The characters of a comment: all but the control characters other than tab. -/
def isPrintable (c : Char) : Bool := c == '\t' || (0x20 ≤ c.toNat && c.toNat != 0x7F)

/-- A comment up to the end of its line. -/
def comment : Reader Unit := do
  char '#'
  let _ ← takeWhile isPrintable

/-- The end of a line, with blanks and a comment before it. -/
def lineEnd : Reader Unit := do
  spaces
  let _ ← optional comment
  if ← atEnd then return
  newline

/-- Blanks, comments and line ends between the elements of an array. -/
def gap : Reader Unit := do
  let _ ← many (discard (takeWhile1 isSpace) <|> comment <|> newline)

/-! ## Strings -/

/-- The value of a hexadecimal digit. -/
def hexValue? (c : Char) : Option Nat :=
  if c.isDigit then some (c.toNat - '0'.toNat)
  else if 'a' ≤ c ∧ c ≤ 'f' then some (c.toNat - 'a'.toNat + 10)
  else if 'A' ≤ c ∧ c ≤ 'F' then some (c.toNat - 'A'.toNat + 10)
  else none

/-- The number that `count` hexadecimal digits write, after the digits of `value`. -/
def hexNumber (value : Nat) : Nat → Reader Nat
  | 0 => pure value
  | count + 1 => do
    let c ← satisfy fun c => (hexValue? c).isSome
    hexNumber (value * 16 + (hexValue? c).getD 0) count

/-- The character with a code, if it is one. -/
def charOfCode (n : Nat) : Reader Char :=
  if n.isValidChar then pure (Char.ofNat n) else failure

/-- The character that an escape stands for. -/
def escape : Reader Char := do
  char '\\'
  let c ← satisfy fun _ => true
  match c with
  | 'b' => return '\x08'
  | 't' => return '\t'
  | 'n' => return '\n'
  | 'f' => return '\x0c'
  | 'r' => return '\r'
  | '"' => return '"'
  | '\\' => return '\\'
  | 'u' => charOfCode (← hexNumber 0 4)
  | 'U' => charOfCode (← hexNumber 0 8)
  | _ => failure

/-- The characters that stand for themselves in a basic string. -/
def isBasicChar (c : Char) : Bool := isPrintable c && c != '"' && c != '\\'

/-- The characters of a literal string. -/
def isLiteralChar (c : Char) : Bool := isPrintable c && c != '\''

/-- A string between double quotes. -/
def basicString : Reader Text := do
  char '"'
  let cs ← many (satisfy isBasicChar <|> escape)
  char '"'
  return cs

/-- A string between single quotes. -/
def literalString : Reader Text := do
  char '\''
  let cs ← takeWhile isLiteralChar
  char '\''
  return cs

/-- A backslash at the end of a line stands for nothing, and so does all white space after it. -/
def lineContinuation : Reader Text := do
  char '\\'
  spaces
  newline
  let _ ← many (satisfy isSpace <|> (newline *> pure '\n'))
  return []

/-- A quote inside a string of several lines. The string ends at three quotes, and may have two
more before them. -/
def innerQuote (quote : Char) : Reader Text := do
  let run := (← get).takeWhile (· == quote)
  if run.length < 3 ∨ run.length = 4 ∨ run.length = 5 then
    char quote
    return [quote]
  else failure

/-- A line end inside a string. -/
def innerNewline : Reader Text := do
  newline
  return ['\n']

/-- A string between three double quotes. -/
def multilineBasicString : Reader Text := do
  word "\"\"\""
  let _ ← optional newline
  let parts ← many (takeWhile1 isBasicChar <|> lineContinuation <|> (List.singleton <$> escape)
    <|> innerNewline <|> innerQuote '"')
  word "\"\"\""
  return parts.flatten

/-- A string between three single quotes. -/
def multilineLiteralString : Reader Text := do
  word "\x27\x27\x27"
  let _ ← optional newline
  let parts ← many (takeWhile1 isLiteralChar <|> innerNewline <|> innerQuote '\'')
  word "\x27\x27\x27"
  return parts.flatten

/-- A string of any kind. -/
def anyString : Reader Text :=
  multilineBasicString <|> multilineLiteralString <|> basicString <|> literalString

/-! ## Keys -/

/-- The characters of a key without quotes. -/
def isKeyChar (c : Char) : Bool := c.isAlphanum || c == '_' || c == '-'

/-- One part of a key. -/
def simpleKey : Reader Text := takeWhile1 isKeyChar <|> basicString <|> literalString

/-- The number of parts that a key stays below, and of arrays and inline tables inside each
other. -/
def depthLimit : Nat := 80

/-- A key with dots between its parts: the parts in front, and the last. -/
def key : Reader (List Text × Text) := do
  let first ← simpleKey
  let rest ← many do
    spaces
    char '.'
    spaces
    simpleKey
  let parts := first :: rest
  if depthLimit ≤ parts.length then failure
  match parts.getLast? with
  | some last => return (parts.dropLast, last)
  | none => failure

end RexxEditing.Toml
