import RexxEditing.Text.Basic
import RexxEditing.Text.Character

/-! # Lexemes

Code falls into lexemes by longest match. A character that starts none of them, such as `=` or
`(`, stands alone.
-/

namespace RexxEditing

/-- The shapes that a lexeme can have. -/
inductive Lexeme.Shape where
  /-- An opening `/*`. -/
  | commentOpen
  /-- A closing `*/`. -/
  | commentClose
  /-- Two hyphens. -/
  | doubleDash
  /-- A number sign that stands outside a symbol. -/
  | hash
  | singleQuote
  | doubleQuote
  /-- Two bars, which join strings or pipelines. -/
  | doublePipe
  | pipe
  | colon
  /-- Digits with at most one decimal point. -/
  | number
  /-- A name. It has letters, digits and `_@#$!?.`, and starts with no digit, point or `#`. -/
  | symbol
  /-- White space inside a line. -/
  | blank
  | newline
  deriving DecidableEq, Repr

namespace Lexeme.Shape

/-- Whether the lexeme is one of the two pipe operators. -/
def isPipe : Shape → Bool
  | pipe | doublePipe => true
  | _ => false

/-- Whether the lexeme may open a comment or a string. -/
def opensRegion : Shape → Bool
  | commentOpen | doubleDash | hash | singleQuote | doubleQuote => true
  | _ => false

/-- Whether the lexeme only separates others. -/
def isSpace : Shape → Bool
  | blank | newline => true
  | _ => false

end Lexeme.Shape

/-- A part of code. It has no shape if it is a character that starts no lexeme. -/
structure Lexeme where
  shape? : Option Lexeme.Shape
  text : Text
  deriving DecidableEq, Repr

namespace Lexeme

/-! ## Characters -/

/-- The characters besides letters that a symbol may start with. -/
def isSymbolMark (c : Char) : Bool := c == '_' || c == '@' || c == '$' || c == '!' || c == '?'

/-- Whether a symbol may start with the character. -/
def isSymbolStart (c : Char) : Bool := c.isAlpha || isSymbolMark c

/-- Whether a symbol may go on with the character. -/
def isSymbolRest (c : Char) : Bool := c.isAlphanum || isSymbolMark c || c == '#' || c == '.'

/-! ## Longest match -/

/-- The length of the run of characters at the start that satisfy `p`. -/
def runLength (p : Char → Bool) (cs : Text) : Nat := (cs.takeWhile p).length

/-- How many characters of `cs` go on a number that has started with a digit. -/
def numberLength (cs : Text) : Nat :=
  let whole := runLength Char.isDigit cs
  match cs.drop whole with
  | '.' :: rest => whole + 1 + runLength Char.isDigit rest
  | _ => whole

/-- The shape of the longest lexeme at the start of `c :: cs`, and how many characters of `cs`
belong to it. -/
def extent (c : Char) (cs : Text) : Option Shape × Nat :=
  if c.isDigit then (some .number, numberLength cs)
  else if isSymbolStart c then (some .symbol, runLength isSymbolRest cs)
  else if Text.isBlank c then (some .blank, runLength Text.isBlank cs)
  else
    match c, cs with
    | '\n', _ => (some .newline, 0)
    | '/', '*' :: _ => (some .commentOpen, 1)
    | '*', '/' :: _ => (some .commentClose, 1)
    | '-', '-' :: _ => (some .doubleDash, 1)
    | '#', _ => (some .hash, 0)
    | '\'', _ => (some .singleQuote, 0)
    | '"', _ => (some .doubleQuote, 0)
    | '|', '|' :: _ => (some .doublePipe, 1)
    | '|', _ => (some .pipe, 0)
    | ':', _ => (some .colon, 0)
    | '.', d :: _ =>
      if d.isDigit then (some .number, runLength Char.isDigit cs) else (none, 0)
    | _, _ => (none, 0)

/-- The first lexeme of `c :: cs`. -/
def first (c : Char) (cs : Text) : Lexeme := ⟨(extent c cs).1, c :: cs.take (extent c cs).2⟩

/-- What follows the first lexeme of `c :: cs`. -/
def rest (c : Char) (cs : Text) : Text := cs.drop (extent c cs).2

theorem first_append_rest (c : Char) (cs : Text) : (first c cs).text ++ rest c cs = c :: cs := by
  simp [first, rest]

theorem length_rest_lt (c : Char) (cs : Text) : (rest c cs).length < (c :: cs).length := by
  simp only [rest, List.length_drop, List.length_cons]
  omega

/-- The lexemes of a text, blanks included. -/
def lexemes : Text → List Lexeme
  | [] => []
  | c :: cs => first c cs :: lexemes (rest c cs)
termination_by t => t.length
decreasing_by exact length_rest_lt c cs

/-! ## Places -/

/-- A lexeme and the bytes that it covers. -/
structure Located where
  lexeme : Lexeme
  span : Span
  deriving DecidableEq, Repr

/-- Lexemes that follow each other from byte `base` on. -/
def locate (base : Nat) : List Lexeme → List Located
  | [] => []
  | l :: ls =>
    let stop := base + l.text.byteSize
    ⟨l, base, stop⟩ :: locate stop ls

/-- The lexemes of a line from byte `start` on. There are none to speak of if `start` is past the
end of the line or inside a character. -/
def lexFrom? (line : Text) (start : Nat) : Option (List Located) :=
  (line.cut? start).map fun (_, code) => locate start (lexemes code)

/-- Whether the lexeme only separates others. -/
def isSpace (l : Lexeme) : Bool := l.shape?.any Shape.isSpace

/-- The lexemes of a text that are not blank. -/
def tokenize (text : Text) : List Located :=
  (locate 0 (lexemes text)).filter (!·.lexeme.isSpace)

end Lexeme

end RexxEditing
