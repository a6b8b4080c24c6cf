import RexxEditing.Text.Basic

/-! # Reading text from the front

A reader takes something from the front of a text, or fails.
-/

namespace RexxEditing.Toml

/-- Takes an `α` from the front of a text. -/
abbrev Reader := StateT Text Option

namespace Reader

/-- The next character, if it satisfies `p`. -/
def satisfy (p : Char → Bool) : Reader Char
  | [] => none
  | c :: cs => if p c then some (c, cs) else none

/-- Skips a character. -/
def char (c : Char) : Reader Unit := do
  let _ ← satisfy (· == c)

/-- Skips the characters of a word. -/
def word (w : String) : Reader Unit := w.toList.forM char

/-- The longest run of characters that satisfy `p`. -/
def takeWhile (p : Char → Bool) : Reader Text := fun cs => some (cs.span p)

/-- The longest run of characters that satisfy `p`, with at least one of them. -/
def takeWhile1 (p : Char → Bool) : Reader Text := do
  let run ← takeWhile p
  if run.isEmpty then failure else return run

/-- Whether the next character is `c`. -/
def isNext (c : Char) : Reader Bool := do return (← get).head? == some c

/-- Whether the text is used up. -/
def atEnd : Reader Bool := do return (← get).isEmpty

/-- What the reader takes as long as it succeeds, at most `fuel` times. -/
def manyUpTo {α : Type} (r : Reader α) : Nat → Reader (List α)
  | 0 => pure []
  | fuel + 1 => do
    match ← optional r with
    | none => return []
    | some a => return a :: (← manyUpTo r fuel)

/-- What the reader takes as long as it succeeds. A reader that succeeds takes at least one
character, so the length of the text is a bound. -/
def many {α : Type} (r : Reader α) : Reader (List α) := do
  manyUpTo r (← get).length

end Reader

end RexxEditing.Toml
