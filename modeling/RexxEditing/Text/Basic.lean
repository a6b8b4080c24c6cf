/-! # Source text

Text is a list of characters. Offsets, columns and lengths count the bytes of its UTF-8 form, so
the byte size is the measure of every span. A span is a pair of byte offsets.

* `byteSize_append`: sizes add up.
* `append_of_cut?`, `byteSize_of_cut?`: a cut at a byte offset loses nothing, and the offset is the
  size of its first part.
* `ofLines_lines`: joining the lines of a text gives the text back.
-/

namespace RexxEditing

/-- Source text, character by character. -/
abbrev Text := List Char

namespace Text

/-! ## Bytes -/

/-- The number of bytes of the text in UTF-8. -/
def byteSize : Text → Nat
  | [] => 0
  | c :: cs => c.utf8Size + byteSize cs

@[simp] theorem byteSize_nil : byteSize [] = 0 := rfl

@[simp] theorem byteSize_cons (c : Char) (cs : Text) :
    byteSize (c :: cs) = c.utf8Size + byteSize cs := rfl

@[simp] theorem byteSize_append (s t : Text) : byteSize (s ++ t) = byteSize s + byteSize t := by
  induction s with
  | nil => simp
  | cons c cs ih => simp only [List.cons_append, byteSize_cons, ih]; omega

/-- The two parts of the text before and after byte `n`. There is no such cut past the end or
inside a character. -/
def cut? : Text → Nat → Option (Text × Text)
  | cs, 0 => some ([], cs)
  | [], _ + 1 => none
  | c :: cs, n + 1 =>
    if c.utf8Size ≤ n + 1 then
      (cut? cs (n + 1 - c.utf8Size)).map fun (before, after) => (c :: before, after)
    else none

theorem append_of_cut? {t before after : Text} {n : Nat} (h : cut? t n = some (before, after)) :
    before ++ after = t := by
  fun_induction cut? t n generalizing before after with
  | case1 => simp_all
  | case2 => simp at h
  | case3 c cs n _ ih =>
    obtain ⟨⟨b, a⟩, hb, heq⟩ := Option.map_eq_some_iff.1 h
    simp only [Prod.mk.injEq] at heq
    obtain ⟨rfl, rfl⟩ := heq
    simp [ih hb]
  | case4 => simp at h

theorem byteSize_of_cut? {t before after : Text} {n : Nat} (h : cut? t n = some (before, after)) :
    byteSize before = n := by
  fun_induction cut? t n generalizing before after with
  | case1 => simp_all
  | case2 => simp at h
  | case3 c cs n hc ih =>
    obtain ⟨⟨b, a⟩, hb, heq⟩ := Option.map_eq_some_iff.1 h
    simp only [Prod.mk.injEq] at heq
    obtain ⟨rfl, rfl⟩ := heq
    simp only [byteSize_cons, ih hb]
    omega
  | case4 => simp at h

/-- The text between two byte offsets, if they are in order and both are cuts. -/
def slice? (t : Text) (start stop : Nat) : Option Text :=
  if start ≤ stop then do
    let (_, rest) ← t.cut? start
    let (part, _) ← cut? rest (stop - start)
    return part
  else none

/-- The text from the first character boundary at or after byte `n`, with the offset of that
boundary. -/
def fromByte : Text → Nat → Nat × Text
  | cs, 0 => (0, cs)
  | [], _ + 1 => (0, [])
  | c :: cs, n + 1 =>
    let (skipped, rest) := fromByte cs (n + 1 - c.utf8Size)
    (c.utf8Size + skipped, rest)

/-! ## Lines -/

/-- The parts of the text between its line feeds. A text with `n` line feeds has `n + 1` lines, so
a final line feed opens one more, empty line. -/
def lines : Text → List Text
  | [] => [[]]
  | c :: cs =>
    if c = '\n' then [] :: lines cs
    else
      match lines cs with
      | line :: rest => (c :: line) :: rest
      | [] => [[c]]

/-- The lines with a line feed between every two of them. -/
def ofLines : List Text → Text
  | [] => []
  | [line] => line
  | line :: rest => line ++ '\n' :: ofLines rest

theorem lines_ne_nil (t : Text) : lines t ≠ [] := by
  cases t with
  | nil => simp [lines]
  | cons c cs =>
    simp only [lines]
    split
    · simp
    · split <;> simp

theorem ofLines_cons_cons (c : Char) (line : Text) (rest : List Text) :
    ofLines ((c :: line) :: rest) = c :: ofLines (line :: rest) := by
  cases rest <;> rfl

@[simp] theorem ofLines_lines (t : Text) : ofLines (lines t) = t := by
  induction t with
  | nil => rfl
  | cons c cs ih =>
    cases h : lines cs with
    | nil => exact absurd h (lines_ne_nil cs)
    | cons line rest =>
      rw [h] at ih
      by_cases hc : c = '\n'
      · simp [lines, hc, h, ofLines, ih]
      · simp [lines, hc, h, ofLines_cons_cons, ih]

/-- A line without the carriage return that ends it, and that carriage return, if any. -/
def splitReturn (line : Text) : Text × Text :=
  if line.getLast? = some '\r' then (line.dropLast, ['\r']) else (line, [])

/-- A line without one final carriage return. -/
def dropReturn (line : Text) : Text := line.splitReturn.1

end Text

/-! ## Spans -/

/-- The bytes from `start` up to, and not including, `stop`. -/
structure Span where
  start : Nat
  stop : Nat
  deriving DecidableEq, Repr

namespace Span

/-- The number of bytes of the span. -/
def length (s : Span) : Nat := s.stop - s.start

/-- Whether the span ends no earlier than it starts. -/
def isOrdered (s : Span) : Bool := s.start ≤ s.stop

/-- The text that the span covers, if it lies in the text and cuts no character. -/
def text? (s : Span) (source : Text) : Option Text := source.slice? s.start s.stop

/-- The span moved `n` bytes on. -/
def shift (s : Span) (n : Nat) : Span := ⟨s.start + n, s.stop + n⟩

end Span

end RexxEditing
