import RexxEditing.Text.Basic

/-! # Terminal controls

Text may hold the control characters and control sequences of terminals. They do not belong to what
a reader sees, and `withoutControls` leaves them out. A sequence starts with an escape character.
What is on the way when the text ends is left out, too.
-/

namespace RexxEditing.Text

namespace Terminal

/-- What the characters at hand belong to. -/
inductive Mode where
  /-- Plain text. -/
  | plain
  /-- A sequence of which only the escape character was seen. -/
  | escape
  /-- A short sequence, after an intermediate character. -/
  | intermediate
  /-- A control sequence, which has parameters and ends with a letter. -/
  | sequence
  /-- The start of a device control string. -/
  | deviceStart
  /-- The parameters of a device control string. -/
  | deviceParameters
  /-- The intermediate characters of a device control string. -/
  | deviceIntermediate
  /-- The body of a string that ends with the string terminator. -/
  | string
  /-- A command to the operating system, which ends with a bell. -/
  | command
  deriving DecidableEq, Repr

/-- The characters that lay out a text. -/
def isLayout (c : Char) : Bool := c == '\t' || c == '\n' || c == '\x0c' || c == '\r'

/-- Whether a code lies between two others. -/
def isBetween (low high : Nat) (c : Char) : Bool := low ≤ c.toNat && c.toNat ≤ high

/-- The characters between the start of a sequence and its end. -/
def isIntermediate : Char → Bool := isBetween 0x20 0x2F

/-- The characters of numeric parameters. -/
def isNumeric : Char → Bool := isBetween 0x30 0x3B

/-- The characters of all parameters. -/
def isParameter : Char → Bool := isBetween 0x30 0x3F

/-- The characters that end a control sequence. -/
def isFinal : Char → Bool := isBetween 0x40 0x7E

/-- The byte that ends a string. -/
def stringTerminator : UInt8 := 0x9C

/-- Whether the string terminator is among the bytes of a character. -/
def endsString (c : Char) : Bool := (String.utf8EncodeChar c).contains stringTerminator

namespace Mode

/-- Whether control characters act in the mode. In the others they are part of a string. -/
def acts : Mode → Bool
  | .plain | .escape | .intermediate | .sequence => true
  | .deviceStart | .deviceParameters | .deviceIntermediate | .string | .command => false

/-- Whether a character is seen in a mode. -/
def shows (m : Mode) (c : Char) : Bool :=
  (m.acts && isLayout c) || (m == .plain && ' ' ≤ c && c != '\x7f')

/-- What a character starts after the escape character. -/
def afterEscape (c : Char) : Mode :=
  if isIntermediate c then .intermediate
  else if c == '[' then .sequence
  else if c == ']' then .command
  else if c == 'P' then .deviceStart
  else if c == 'X' || c == '^' || c == '_' then .string
  else if isParameter c || isFinal c then .plain
  else .escape

/-- The mode after a character that takes part in what is left out. -/
def continued (m : Mode) (c : Char) : Mode :=
  match m with
  | .plain => .plain
  | .escape => afterEscape c
  | .intermediate => if isParameter c || isFinal c then .plain else .intermediate
  | .sequence => if isFinal c then .plain else .sequence
  | .deviceStart =>
    if isIntermediate c then .deviceIntermediate
    else if isParameter c then .deviceParameters
    else if isFinal c then .string
    else .deviceStart
  | .deviceParameters =>
    if isIntermediate c then .deviceIntermediate
    else if isNumeric c then .deviceParameters
    else if isParameter c || isFinal c then .string
    else .deviceParameters
  | .deviceIntermediate => if isParameter c || isFinal c then .string else .deviceIntermediate
  | .string => if endsString c then .plain else .string
  | .command => if c == '\x07' then .plain else .command

/-- The mode after a character that is left out. Two characters end every sequence, and the escape
character starts a new one. -/
def next (m : Mode) (c : Char) : Mode :=
  if c == '\x18' || c == '\x1a' then .plain
  else if c == '\x1b' then .escape
  else m.continued c

end Mode

/-- The characters that are seen. A character that is seen in the midst of a sequence interrupts it:
what follows is plain text up to the next control character, and only then the sequence goes on. A
character beyond ASCII ends it for good. -/
def visible (m : Mode) (interrupted : Bool) : Text → Text
  | [] => []
  | c :: cs =>
    if (if interrupted then Mode.plain else m).shows c then
      c :: visible (if c.toNat < 0x80 then m else .plain) true cs
    else visible (m.next c) false cs

end Terminal

/-- The text without terminal controls. -/
def withoutControls (t : Text) : Text := Terminal.visible .plain false t

end RexxEditing.Text
