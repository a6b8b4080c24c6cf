import RexxEditing.Text.Basic

/-! # Characters

A Unicode property is a list of closed intervals of character codes in increasing order.

Two notions of white space meet in a source line. `isWhite` is the Unicode property `White_Space`,
which decides where text is trimmed and what may follow the opener of a line comment. `isBlank` is
the white space of the language inside a line, which separates lexemes.

Words of the language are compared without regard to the case of ASCII letters. Block openers are
compared by Unicode simple case folding, under which two characters outside ASCII are letters of
ASCII too: the long s and the Kelvin sign.
-/

namespace RexxEditing.Text

/-! ## Ranges -/

/-- The first and the last code of an interval of characters. -/
abbrev CharRange := Nat × Nat

/-- Whether the code `n` lies in one of the ranges. They are in increasing order, so the search
ends at the first range above `n`. -/
def inRanges (n : Nat) : List CharRange → Bool
  | [] => false
  | (first, last) :: ranges => first ≤ n && (n ≤ last || inRanges n ranges)

/-! ## White space -/

/-- The Unicode property `White_Space`. -/
def isWhite (c : Char) : Bool :=
  let n := c.toNat
  (0x09 ≤ n && n ≤ 0x0D) || n == 0x20 || n == 0x85 || n == 0xA0 || n == 0x1680 ||
    (0x2000 ≤ n && n ≤ 0x200A) || n == 0x2028 || n == 0x2029 || n == 0x202F || n == 0x205F ||
    n == 0x3000

/-- Space, tab, carriage return and form feed separate lexemes. -/
def isBlank (c : Char) : Bool := c == ' ' || c == '\t' || c == '\r' || c == '\x0c'

theorem isWhite_of_isBlank {c : Char} (h : isBlank c = true) : isWhite c = true := by
  simp only [isBlank, Bool.or_eq_true, beq_iff_eq] at h
  obtain ((rfl | rfl) | rfl) | rfl := h <;> decide

/-- The text from its first character that is not white space. -/
def trimStart (t : Text) : Text := t.dropWhile isWhite

/-- The text without white space at either end. -/
def trim (t : Text) : Text := (t.trimStart.reverse.dropWhile isWhite).reverse

/-- Whether the text is empty or all white space. -/
def isAllWhite (t : Text) : Bool := t.all isWhite

/-- `n` spaces. -/
def spaces (n : Nat) : Text := List.replicate n ' '

/-- The largest size of a text in memory, in bytes. -/
def maxSize : Nat := (1 <<< 63) - 1

/-- `n` spaces, unless no text holds so many. -/
def spaces? (n : Nat) : Option Text := if n ≤ maxSize then some (spaces n) else none

/-! ## Letter case -/

/-- The text with its ASCII capitals made small. -/
def lower (t : Text) : Text := t.map Char.toLower

/-- Equality of texts up to the case of ASCII letters. -/
def eqIgnoreCase (s t : Text) : Bool := s.lower == t.lower

/-- Unicode simple case folding, as far as its result is an ASCII letter. -/
def foldChar (c : Char) : Char :=
  if c = '\u017f' then 's' else if c = '\u212a' then 'k' else c.toLower

/-- The text with every character folded. -/
def fold (t : Text) : Text := t.map foldChar

end RexxEditing.Text
