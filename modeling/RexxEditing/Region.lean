import RexxEditing.Text.Character

/-! # Regions

Block comments and strings are regions. They may go on over line ends, so a line is entered either
in code or inside a region. A block comment ends at the first `*/`, comments do not nest. A string
ends at its quote, and a doubled quote inside it stands for one.

A line comment runs from `--` or `#` to the end of its line. The opener counts only at the end of
the line or before white space.
-/

namespace RexxEditing

/-- The quotes that a string can stand between. -/
inductive Quote where
  | single
  | double
  deriving DecidableEq, Repr

/-- The character of the quote. -/
def Quote.char : Quote → Char
  | .single => '\''
  | .double => '"'

/-- A part of the text that may run over several lines. -/
inductive Region where
  | comment
  | string (quote : Quote)
  deriving DecidableEq, Repr

/-- Where a line is entered. -/
inductive State where
  /-- In code. -/
  | normal
  /-- In a region that was opened on an earlier line. -/
  | inside (region : Region)
  deriving DecidableEq, Repr

/-- Whether a line is entered in code. -/
def State.isNormal : State → Bool
  | .normal => true
  | .inside _ => false

namespace Region

/-! ## Where regions end -/

/-- The number of characters up to and including the first `*/`. -/
def commentLength? : Text → Option Nat
  | [] => none
  | '*' :: '/' :: _ => some 2
  | _ :: cs => (commentLength? cs).map (· + 1)

/-- The number of characters up to and including the first quote that is not doubled. -/
def stringLength? (quote : Char) : Text → Option Nat
  | [] => none
  | [c] => if c = quote then some 1 else none
  | c :: d :: cs =>
    if c = quote then
      if d = quote then (stringLength? quote cs).map (· + 2) else some 1
    else (stringLength? quote (d :: cs)).map (· + 1)

/-- The number of characters of the text that belong to a region entered before it, if the region
ends in the text. -/
def length? : Region → Text → Option Nat
  | comment, text => commentLength? text
  | string quote, text => stringLength? quote.char text

/-- The byte offset just after the end of a block comment, looked for from byte `start` on. -/
def commentEnd? (line : Text) (start : Nat) : Option Nat := do
  let (_, rest) ← line.cut? start
  let n ← commentLength? rest
  return start + Text.byteSize (rest.take n)

/-- The byte offset just after the end of a string, looked for from byte `start` on. A start inside
a character means the character after it. -/
def stringEnd? (line : Text) (start : Nat) (quote : Quote) : Option Nat := do
  let (start, rest) := line.fromByte start
  let n ← stringLength? quote.char rest
  return start + Text.byteSize (rest.take n)

/-! ## Line comments -/

/-- Whether `--` or `#` opens a line comment when `rest` follows it. -/
def startsLineComment : Text → Bool
  | [] => true
  | c :: _ => Text.isWhite c

/-- Whether `--` or `#` opens a line comment when it ends at byte `stop` of the line. An offset that
is no cut of the line counts as the end of the line. -/
def opensLineComment (line : Text) (stop : Nat) : Bool :=
  ((line.cut? stop).map fun (_, rest) => startsLineComment rest).getD true

end Region

end RexxEditing
