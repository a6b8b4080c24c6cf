import RexxEditing.Files.Basic
import RexxEditing.Number.Shortest
import RexxEditing.Settings.KeyPath
import RexxEditing.Text.Quoted

/-! # The configuration of the tools

The configuration says how many columns one level of indentation has and which extensions REXX files
have. They are read from a value with a table for each of two sections.
A value of another type is taken if its meaning is clear, as in `offset = "4"`.
-/

namespace RexxEditing.Settings

/-- The configuration of the tools. -/
structure Config where
  /-- The columns of one level of indentation. -/
  offset : Nat
  /-- The extensions of REXX files. -/
  extensions : List String
  deriving DecidableEq, Repr

/-- The configuration when nothing else is said. -/
def Config.default : Config := ⟨2, FileName.defaultExtensions⟩

/-! ## Errors -/

/-- The sections of a configuration. -/
inductive Section where
  | indentation
  | files
  deriving DecidableEq, Repr

/-- The key of the section. -/
def Section.key : Section → String
  | .indentation => "indentation"
  | .files => "files"

/-- The only field of the section. -/
def Section.field : Section → String
  | .indentation => "offset"
  | .files => "extensions"

/-- The name under which messages know the section. -/
def Section.typeName : Section → String
  | .indentation => "IndentationConfig"
  | .files => "FilesConfig"

/-- What a value turned out to be. -/
inductive Found where
  | unit
  | boolean (value : Bool)
  | integer (n : Integer)
  | real (written : String)
  | text (value : String)
  | list
  | table
  deriving DecidableEq, Repr

/-- What a value is. -/
def Found.ofValue (v : Value) : Found :=
  match v.data with
  | .unit => .unit
  | .boolean b => .boolean b
  | .integer n => .integer n
  | .real x => .real (String.ofList (Number.floatText x))
  | .text s => .text s
  | .list _ => .list
  | .table _ => .table

/-- The text of a number, with a point in it if it has digits. -/
def withPoint (number : String) : String :=
  if number.any (· == '.') || !number.any Char.isDigit then number else number ++ ".0"

/-- What is told about an integer where no integer is taken. -/
def Integer.message (n : Integer) : String :=
  "integer `" ++ toString n.value ++ "`" ++
    match n.type with
    | .signed64 | .unsigned64 => ""
    | .signed128 => " as i128"
    | .unsigned128 => " as u128"

/-- The words for what was found. -/
def Found.message : Found → String
  | .unit => "unit value"
  | .boolean b => "boolean `" ++ toString b ++ "`"
  | .integer n => n.message
  | .real written => "floating point `" ++ withPoint written ++ "`"
  | .text s => "string " ++ String.ofList (Text.quote s.toList)
  | .list => "sequence"
  | .table => "map"

/-- A place in a configuration, and the file that set it. -/
structure Place where
  path : KeyPath
  origin : Option String
  deriving DecidableEq, Repr

/-- The words for a place at the end of a message. -/
def Place.message (p : Place) : String :=
  " for key `" ++ p.path.toText ++ "`" ++
    match p.origin with
    | some file => " in " ++ file
    | none => ""

/-- Why a value is no configuration. -/
inductive DecodeError where
  /-- A section is neither a table nor a list of its fields. -/
  | sectionType (found : Found) (s : Section)
  /-- A section is a list without its field. -/
  | sectionLength (s : Section)
  | missingField (s : Section)
  /-- The extensions are no list. -/
  | extensionsType (found : Found)
  | zeroOffset
  /-- The offset is negative, or has more than 64 bits. -/
  | offsetRange (n : Integer) (place : Place)
  | offsetType (found : Found) (place : Place)
  | extensionType (found : Found) (place : Place)
  deriving DecidableEq, Repr

/-- The text of the error. -/
def DecodeError.message : DecodeError → String
  | .sectionType found s =>
    "invalid type: " ++ found.message ++ ", expected struct " ++ s.typeName
  | .sectionLength s =>
    "invalid length 0, expected struct " ++ s.typeName ++ " with 1 element"
  | .missingField s => "missing field `" ++ s.field ++ "`"
  | .extensionsType found => "invalid type: " ++ found.message ++ ", expected a sequence"
  | .zeroOffset => "indentation.offset must be a positive integer"
  | .offsetRange n place =>
    "invalid type: " ++ n.type.name ++ " `" ++ toString n.value ++
      "`, expected an unsigned 64 bit or less integer" ++ place.message
  | .offsetType found place =>
    "invalid type: " ++ found.message ++ ", expected an integer" ++ place.message
  | .extensionType found place =>
    "invalid type: " ++ found.message ++ ", expected a string" ++ place.message

/-! ## Reading a configuration from a value -/

/-- A reader of a value at a path. -/
abbrev Decoder (α : Type) := KeyPath → Value → Except DecodeError α

/-- The least number that has more than 64 bits. -/
def offsetLimit : Nat := 1 <<< 64

/-- The number that a text means as an offset: a truth value, or decimal digits with or without a
plus sign, in 64 bits. -/
def offsetOfText? (s : String) : Option Nat :=
  let small := s.map Char.toLower
  if small = "true" ∨ small = "on" ∨ small = "yes" then some 1
  else if small = "false" ∨ small = "off" ∨ small = "no" then some 0
  else
    let digits := match s.toList with
      | '+' :: cs => cs
      | cs => cs
    let n := KeyPath.number digits
    if digits.isEmpty || !digits.all Char.isDigit || n ≥ offsetLimit then none else some n

/-- The columns of a level, in 64 bits. A real number is rounded, a half away from zero. -/
def decodeOffset : Decoder Nat := fun path v =>
  let mismatch := .error (.offsetType (.ofValue v) ⟨path, v.origin⟩)
  match v.data with
  | .integer n =>
    if 0 ≤ n.value ∧ n.value < offsetLimit then .ok n.value.toNat
    else .error (.offsetRange n ⟨path, v.origin⟩)
  | .boolean b => .ok b.toNat
  | .real x => .ok x.round.toUInt64.toNat
  | .text s =>
    match offsetOfText? s with
    | some n => .ok n
    | none => mismatch
  | _ => mismatch

/-- An extension. Truth values and numbers stand for their text. -/
def decodeExtension : Decoder String := fun path v =>
  match v.data with
  | .text s => .ok s
  | .boolean b => .ok (toString b)
  | .integer n => .ok (toString n.value)
  | .real x => .ok (String.ofList (Number.floatText x))
  | _ => .error (.extensionType (.ofValue v) ⟨path, v.origin⟩)

/-- The items of a list, of which the first is the one with number `i`. -/
def decodeItems {α : Type} (decode : Decoder α) (path : KeyPath) (i : Nat) :
    List Value → Except DecodeError (List α)
  | [] => .ok []
  | v :: rest => do
    let a ← decode (path ++ [.index i]) v
    return a :: (← decodeItems decode path (i + 1) rest)

/-- The extensions. -/
def decodeExtensions : Decoder (List String) := fun path v =>
  match v.data with
  | .list items => decodeItems decodeExtension path 0 items
  | _ => .error (.extensionsType (.ofValue v))

/-- The field of a section. The section may also be a list that starts with its field. -/
def decodeSection {α : Type} (decode : Decoder α) (s : Section) (root : Value) :
    Except DecodeError α :=
  let v := (root.get? s.key).getD (.ofData (.table []))
  match v.data with
  | .table entries =>
    match Value.lookup? entries s.field with
    | some field => decode [.key s.key, .key s.field] field
    | none => .error (.missingField s)
  | .list (field :: _) => decode [.key s.key, .index 0] field
  | .list [] => .error (.sectionLength s)
  | _ => .error (.sectionType (.ofValue v) s)

/-- The configuration in a value. -/
def Config.ofValue (root : Value) : Except DecodeError Config := do
  let offset ← decodeSection decodeOffset .indentation root
  let extensions ← decodeSection decodeExtensions .files root
  if offset = 0 then throw .zeroOffset
  return ⟨offset, extensions⟩

end RexxEditing.Settings
