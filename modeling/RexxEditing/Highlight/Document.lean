import RexxEditing.Highlight.Line

/-! # Tokens of a text

A text is classified line by line. A line hands on the state in which the next one is entered and
the start of the region that is still open. A region that is open at the end of the text becomes
its last token. Nothing fails: what no rule knows is plain text.

`lineStates` has the states alone. Whoever keeps them can classify again from any line on.
-/

namespace RexxEditing

/-- What a line hands on to the next. -/
structure Carry where
  state : State
  /-- The byte where the open region starts. -/
  openFrom : Option Nat
  deriving DecidableEq, Repr

/-- The tokens of lines that follow each other from byte `base` on, and what the last hands on. -/
def scanLines (base : Nat) (carry : Carry) : List Text → List Token × Carry
  | [] => ([], carry)
  | line :: rest =>
    let scan := LineScan.ofLine line base carry.state carry.openFrom
    let (tokens, last) := scanLines (base + line.byteSize + 1) ⟨scan.exit, scan.openFrom⟩ rest
    (scan.tokens ++ tokens, last)

/-- The token of a region that is still open at byte `stop`, unless it is empty. -/
def Carry.openToken? (carry : Carry) (stop : Nat) : Option Token := do
  let start ← carry.openFrom
  let kind ← carry.state.kind?
  if start < stop then some ⟨kind, start, stop⟩ else none

/-- The tokens of a text and the state in which a text after it is entered. -/
structure Classification where
  tokens : List Token
  exit : State
  deriving DecidableEq, Repr

/-- Classifies a text that is entered in the given state. -/
def classify (text : Text) (entry : State) : Classification :=
  let (tokens, carry) := scanLines 0 ⟨entry, none⟩ text.lines
  { tokens := tokens ++ (carry.openToken? text.byteSize).toList
    exit := carry.state }

/-- The states in which lines are entered that follow each other. -/
def State.sequence (entry : State) : List Text → List State
  | [] => []
  | line :: rest => entry :: State.sequence (entry.next line) rest

/-- The state in which each line of the text is entered. -/
def lineStates (text : Text) (entry : State) : List State := entry.sequence text.lines

end RexxEditing
