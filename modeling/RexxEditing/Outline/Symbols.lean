import RexxEditing.Outline

/-! # Document symbols

A symbol for each routine. Its range runs from the start of the line of its label to the end of the
line before the next label, or to the end of the text.
-/

namespace RexxEditing.Outline

/-- What a symbol stands for. -/
inductive SymbolKind where
  | procedure
  | label
  deriving DecidableEq, Repr

/-- The name of the kind. -/
def SymbolKind.name : SymbolKind → String
  | .procedure => "procedure"
  | .label => "label"

/-- The kind of a routine. -/
def Routine.kind (r : Routine) : SymbolKind := if r.isProcedure then .procedure else .label

/-- A symbol of a document. -/
structure Symbol where
  name : Text
  kind : SymbolKind
  /-- All that belongs to the routine. -/
  range : Range
  /-- The name in the label. -/
  selection : Range
  deriving DecidableEq, Repr

/-- The byte where a routine ends that is followed by a routine on line `nextLine?`. -/
def routineEnd (table : LineTable) (nextLine? : Option Nat) : Nat :=
  match nextLine? with
  | none | some 0 => table.size
  | some (line + 1) => ((table.span? line).map Span.stop).getD table.size

/-- The symbol of a routine that is followed by a routine on line `nextLine?`. -/
def Symbol.ofRoutine (table : LineTable) (r : Routine) (nextLine? : Option Nat) : Symbol :=
  let start := (table.start? r.line).getD table.size
  { name := r.name
    kind := r.kind
    range := table.range ⟨start, max (routineEnd table nextLine?) start⟩
    selection := r.range }

/-- The symbols of routines that follow each other. -/
def symbolsOf (table : LineTable) : List Routine → List Symbol
  | [] => []
  | r :: rest => Symbol.ofRoutine table r (rest.head?.map Routine.line) :: symbolsOf table rest

/-- The symbols of a text. -/
def symbols (text : Text) : List Symbol := symbolsOf (LineTable.ofText text) (routines text)

end RexxEditing.Outline
