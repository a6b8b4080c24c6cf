import RexxEditing.Toml.DateTable

/-! # TOML documents

A document is a sequence of statements: a header that names a table or one more of a list of tables,
or a key and its value in the table that was named last. A table is named only once, and a name that
has a value is not a table. The document as a whole does not stand for a date or a time.
-/

namespace RexxEditing.Toml

open Reader

/-! ## Values -/

/-- A key, an equals sign and a value. -/
def keyValue (element : Reader Item) : Reader ((List Text × Text) × Item) := do
  let k ← key
  spaces
  char '='
  spaces
  return (k, ← element)

/-- An element of an array, with the comma after it unless the array ends there. -/
def arrayElement (element : Reader Item) : Reader Item := do
  let i ← element
  gap
  if ← isNext ']' then return i
  char ','
  gap
  return i

/-- An array. -/
def array (element : Reader Item) : Reader Item := do
  char '['
  gap
  let items ← many (arrayElement element)
  char ']'
  return .array items

/-- A key and a value in an inline table, with the blanks after them. -/
def inlinePair (element : Reader Item) : Reader ((List Text × Text) × Item) := do
  let pair ← keyValue element
  spaces
  return pair

/-- An inline table. -/
def inlineTable (element : Reader Item) : Reader Item := do
  char '\x7b'
  spaces
  let first ← optional (inlinePair element)
  let rest ← if first.isNone then pure [] else many (char ',' *> spaces *> inlinePair element)
  char '\x7d'
  match inlineEntries? (first.toList ++ rest) with
  | some entries => return .inlineTable false false entries
  | none => failure

/-- A value that has no values inside. -/
def scalar : Reader Item :=
  (Item.text <$> anyString) <|>
  (word "true" *> pure (Item.boolean true)) <|>
  (word "false" *> pure (Item.boolean false)) <|>
  (Item.dateTime <$> Clock.plain.dateTime) <|>
  (Item.float <$> float) <|>
  (Item.integer <$> integer)

/-- A value with at most `depth` arrays and inline tables inside each other. -/
def item : Nat → Reader Item
  | 0 => scalar
  | depth + 1 => array (item depth) <|> inlineTable (item depth) <|> scalar

/-! ## Statements -/

/-- A line of a document that is not blank. -/
inductive Statement where
  | table (path : List Text) (last : Text)
  | arrayTable (path : List Text) (last : Text)
  | keyValue (path : List Text) (last : Text) (item : Item)

/-- A name between brackets. -/
def header (opening closing : String) : Reader (List Text × Text) := do
  word opening
  spaces
  let k ← key
  spaces
  word closing
  return k

/-- A statement. -/
def statement : Reader Statement :=
  (do let (path, last) ← header "[[" "]]"; return .arrayTable path last) <|>
  (do let (path, last) ← header "[" "]"; return .table path last) <|>
  (do let ((path, last), i) ← keyValue (item (depthLimit - 1)); return .keyValue path last i)

/-- A line with its end, which is not the end of the document. -/
def line : Reader (Option Statement) := do
  spaces
  if ← atEnd then failure
  let s ← if (← isNext '#') || (← isNext '\n') || (← isNext '\r') then pure none
    else some <$> statement
  lineEnd
  return s

/-- All statements of a document. -/
def statements : Reader (List Statement) := do
  let _ ← optional (char '\ufeff')
  let lines ← many line
  spaces
  if ← atEnd then return lines.filterMap id else failure

/-! ## Tables -/

/-- Works on the table at a path. The tables on the way are made if they are missing, and the last
of several tables of one name is meant. -/
def within {α : Type} (f : Entries → Option (α × Entries)) :
    List Text → Entries → Option (α × Entries)
  | [], entries => f entries
  | name :: path, entries =>
    match entries.get? name with
    | none => do
      let (a, inner) ← within f path []
      return (a, entries.put name (.table true false inner))
    | some (.table implicit dotted inner) => do
      let (a, inner) ← within f path inner
      return (a, entries.put name (.table implicit dotted inner))
    | some (.tables elements) => do
      let (a, element) ← within f path (← elements.getLast?)
      return (a, entries.put name (.tables (elements.dropLast ++ [element])))
    | some _ => none

/-- Where the entries of a header go. -/
structure Place where
  path : List Text
  last : Text
  /-- Whether the header names one more of a list of tables. -/
  isArray : Bool

/-- A document up to some statement. -/
structure Draft where
  root : Entries
  /-- The place of the table that was named last. There is none before the first header. -/
  place : Option Place
  /-- The entries of that table. -/
  current : Entries

namespace Draft

/-- Puts the entries of the table that was named last into its place. -/
def close (d : Draft) : Option Entries :=
  match d.place with
  | none => some d.current
  | some ⟨path, last, false⟩ => do
    let put (entries : Entries) := some ((), entries ++ [(last, Item.table false false d.current)])
    return (← within put path d.root).2
  | some ⟨path, last, true⟩ => do
    let put (entries : Entries) : Option (Unit × Entries) :=
      match entries.get? last with
      | none => some ((), entries ++ [(last, .tables [d.current])])
      | some (.tables elements) => some ((), entries.put last (.tables (elements ++ [d.current])))
      | some _ => none
    return (← within put path d.root).2

/-- Starts the table at a place. Entries that it has already are those of tables inside it. -/
def start (d : Draft) (place : Place) : Option Draft := do
  let root ← d.close
  let take (entries : Entries) : Option (Entries × Entries) :=
    match place.isArray, entries.get? place.last with
    | _, none => some ([], entries)
    | true, some (.tables _) => some ([], entries)
    | false, some (.table true false inner) => some (inner, entries.remove place.last)
    | _, some _ => none
  let (current, root) ← within take place.path root
  return ⟨root, some place, current⟩

/-- Adds a statement. -/
def add (d : Draft) : Statement → Option Draft
  | .table path last => d.start ⟨path, last, false⟩
  | .arrayTable path last => d.start ⟨path, last, true⟩
  | .keyValue path last i => do
    return { d with current := ← insert? false true d.current last i path }

end Draft

/-- The tables of a text as its statements make them. -/
def tables? (text : Text) : Option Entries := do
  let (ss, _) ← statements.run text
  let draft ← ss.foldlM Draft.add ⟨[], none, []⟩
  draft.close

/-- The entries of a document, if the text is one. -/
def parse? (text : Text) : Option Entries := do
  let entries ← tables? text
  if entries.standsForDateTime then none else Entries.withDateTimes? entries

end RexxEditing.Toml
