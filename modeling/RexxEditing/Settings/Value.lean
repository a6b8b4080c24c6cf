/-! # Configuration values

A configuration is a value. It keeps where it came from, for whoever has to be told that it is of
the wrong type. A table takes entries one by one, and a table that is put into a table is put in
entry by entry. Keys have small letters.
-/

namespace RexxEditing.Settings

/-- The types of integers. -/
inductive IntegerType where
  | signed64
  | unsigned64
  | signed128
  | unsigned128
  deriving DecidableEq, Repr

/-- The words for the type in messages. -/
def IntegerType.name : IntegerType → String
  | .signed64 => "64-bit integer"
  | .unsigned64 => "64-bit unsigned integer"
  | .signed128 => "128-bit integer"
  | .unsigned128 => "128-bit unsigned integer"

/-- An integer, and the type in which it was given. -/
structure Integer where
  type : IntegerType
  value : Int
  deriving DecidableEq, Repr

/-- The forms of values, with values of `α` inside. -/
inductive Data (α : Type) where
  | unit
  | boolean (value : Bool)
  | integer (n : Integer)
  | real (value : Float)
  | text (value : String)
  | list (items : List α)
  | table (entries : List (String × α))

/-- A value, and the file that it came from. -/
inductive Value where
  | mk (origin : Option String) (data : Data Value)

namespace Value

/-- The file that the value came from. -/
def origin : Value → Option String
  | mk origin _ => origin

/-- The form of the value. -/
def data : Value → Data Value
  | mk _ data => data

/-- A value that came from no file. -/
def ofData (data : Data Value) : Value := mk none data

/-- The value that stands where nothing was set. -/
def unit : Value := ofData .unit

instance : Inhabited Value := ⟨unit⟩

/-! ## Tables -/

/-- The entry of a key. -/
def lookup? (entries : List (String × Value)) (key : String) : Option Value :=
  (entries.find? (·.1 == key)).map (·.2)

/-- The entries with a key put to a value. A new key goes to the end. -/
def putEntry (entries : List (String × Value)) (key : String) (value : Value) :
    List (String × Value) :=
  match entries with
  | [] => [(key, value)]
  | (k, v) :: rest => if k = key then (k, value) :: rest else (k, v) :: putEntry rest key value

/-- The entry of a key in a table. -/
def get? (v : Value) (key : String) : Option Value :=
  match v.data with
  | .table entries => lookup? entries key
  | _ => none

/-- The table with a key put to a value. What is no table becomes one. -/
def put (v : Value) (key : String) (value : Value) : Value :=
  match v with
  | mk origin (.table entries) => mk origin (.table (putEntry entries key value))
  | _ => ofData (.table [(key, value)])

/-- A key as it stands in a table. -/
def normalizeKey (key : String) : String := key.map Char.toLower

mutual

/-- Sets a key. A table is put in entry by entry, and any other value replaces what was there. -/
def set (root : Value) (key : String) (value : Value) : Value :=
  match value with
  | mk _ (.table entries) =>
    let target := (root.get? (normalizeKey key)).getD (ofData (.table []))
    root.put (normalizeKey key) (setAll target entries)
  | value => root.put (normalizeKey key) value

/-- Sets several keys, from the first to the last. -/
def setAll (root : Value) (entries : List (String × Value)) : Value :=
  match entries with
  | [] => root
  | (key, value) :: rest => setAll (set root key value) rest

end

end Value

end RexxEditing.Settings
