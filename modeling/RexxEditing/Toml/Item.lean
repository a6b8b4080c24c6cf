import RexxEditing.Toml.DateTime

/-! # Items of TOML

An item is a value, a table or a list of tables. A table remembers how it was made: `implicit` if
only the name of a table inside it was given, `dotted` if a key with dots made it. An inline table
is complete and takes no more entries.
-/

namespace RexxEditing.Toml

/-- A value or a table. -/
inductive Item where
  | text (value : Text)
  | integer (value : Int)
  | float (value : Float)
  | boolean (value : Bool)
  /-- A date, a time or both, in standard form. -/
  | dateTime (value : Text)
  | array (items : List Item)
  | inlineTable (implicit dotted : Bool) (entries : List (Text × Item))
  | table (implicit dotted : Bool) (entries : List (Text × Item))
  /-- The entries of each of several tables of one name. -/
  | tables (entries : List (List (Text × Item)))

/-- The entries of a table in the order in which they were made. -/
abbrev Entries := List (Text × Item)

namespace Entries

/-- The item of a name. -/
def get? (entries : Entries) (name : Text) : Option Item :=
  (entries.find? (·.1 == name)).map (·.2)

/-- The entries with a name put to an item. A new name goes to the end. -/
def put (entries : Entries) (name : Text) (item : Item) : Entries :=
  match entries with
  | [] => [(name, item)]
  | (n, i) :: rest => if n = name then (n, item) :: rest else (n, i) :: put rest name item

/-- The entries without a name. -/
def remove (entries : Entries) (name : Text) : Entries := entries.filter (·.1 != name)

end Entries

/-! ## Keys with dots -/

/-- Puts an item under a key with dots. The tables on the way are made if they are missing, and may
be there only if no header has named them. The last of them, and the key itself, must be the work of
keys with dots: `isOpen` says so of the table at hand. -/
def insert? (inline isOpen : Bool) (entries : Entries) (last : Text) (item : Item) :
    List Text → Option Entries
  | [] => if isOpen && (entries.get? last).isNone then some (entries ++ [(last, item)]) else none
  | name :: path =>
    match entries.get? name, inline with
    | none, true => do
      return entries.put name (.inlineTable true true (← insert? inline true [] last item path))
    | none, false => do
      return entries.put name (.table true true (← insert? inline true [] last item path))
    | some (.inlineTable true dotted inner), true => do
      let inner ← insert? inline dotted inner last item path
      return entries.put name (.inlineTable true dotted inner)
    | some (.table true dotted inner), false => do
      let inner ← insert? inline dotted inner last item path
      return entries.put name (.table true dotted inner)
    | some (.tables elements), false => do
      let element ← insert? inline false (← elements.getLast?) last item path
      return entries.put name (.tables (elements.dropLast ++ [element]))
    | some _, _ => none

/-- The entries of an inline table. -/
def inlineEntries? (pairs : List ((List Text × Text) × Item)) : Option Entries :=
  pairs.foldlM (fun entries ((path, last), item) => insert? true true entries last item path) []

end RexxEditing.Toml
