import RexxEditing.Files.Tree
import RexxEditing.Settings.Config
import RexxEditing.Toml.Document

/-! # Loading the configuration

A configuration is made in layers. The built-in values are the lowest; then come the files, and then
the values that were set one by one. A higher layer wins key by key.
-/

namespace RexxEditing.Settings

/-! ## Files as layers -/

namespace Value

mutual

/-- The value of an item, from the given file. -/
def ofItem (origin : Option String) : Toml.Item → Value
  | .text t => mk origin (.text (String.ofList t))
  | .integer n => mk origin (.integer ⟨.signed64, n⟩)
  | .float x => mk origin (.real x)
  | .boolean b => mk origin (.boolean b)
  | .dateTime t => mk origin (.text (String.ofList t))
  | .array items => mk origin (.list (ofItems origin items))
  | .inlineTable _ _ entries => mk origin (.table (ofEntries origin entries))
  | .table _ _ entries => mk origin (.table (ofEntries origin entries))
  | .tables elements => mk origin (.list (ofTables origin elements))

/-- The values of items. -/
def ofItems (origin : Option String) : List Toml.Item → List Value
  | [] => []
  | i :: rest => ofItem origin i :: ofItems origin rest

/-- The entries with their values. -/
def ofEntries (origin : Option String) : List (Text × Toml.Item) → List (String × Value)
  | [] => []
  | (name, i) :: rest => (String.ofList name, ofItem origin i) :: ofEntries origin rest

/-- The tables of one name. -/
def ofTables (origin : Option String) : List (List (Text × Toml.Item)) → List Value
  | [] => []
  | entries :: rest => mk origin (.table (ofEntries origin entries)) :: ofTables origin rest

end

/-- The value of the built-in configuration. -/
def ofConfig (c : Config) : Value :=
  ofData (.table [
    (Section.indentation.key, ofData (.table [
      (Section.indentation.field, ofData (.integer ⟨.signed64, c.offset⟩))])),
    (Section.files.key, ofData (.table [
      (Section.files.field, ofData (.list (c.extensions.map fun e => ofData (.text e))))]))])

end Value

/-- A file of the configuration. -/
structure Layer where
  file : String
  /-- Whether the file may be missing. -/
  isOptional : Bool
  deriving DecidableEq, Repr

/-- Why there is no configuration. -/
inductive LoadError where
  /-- A key is no key path. -/
  | keyPath (key : String)
  | missingFile (name : String)
  /-- A file is not UTF-8. -/
  | notText
  /-- A file is not a TOML document. -/
  | notToml (origin : String)
  /-- An index is no place in its list. -/
  | index
  | decode (error : DecodeError)
  deriving DecidableEq, Repr

/-- The text of the error. -/
def LoadError.message : LoadError → String
  | .keyPath key => "invalid key `" ++ key ++ "`"
  | .missingFile name => "configuration file \"" ++ name ++ "\" not found"
  | .notText => Files.notTextMessage
  | .notToml origin => "TOML parse error in " ++ origin
  | .index => "index out of range"
  | .decode error => error.message

namespace Layer

/-- The extension that is tried for a file that is not found by its own name. -/
def extension : String := ".toml"

/-- The path with the extension added to the name at its end, if it has such a name. -/
def withExtension? (path : String) : Option String := do
  let _ ← FileName.fileName? path.toList
  let names := (Files.parts path).reverse.dropWhile Files.isIdle
  return Files.ofParts names.reverse ++ extension

/-- The paths at which the file is looked for. -/
def candidates (l : Layer) : List String := l.file :: (withExtension? l.file).toList

/-- The path and the content of the file, at the first place where there is one. -/
def find? (disk : Files.Disk) (l : Layer) : Option (String × Files.Content) :=
  l.candidates.findSome? fun path => (disk.file? path).map fun content => (path, content)

/-- The path and the text of the file, or why it has none. -/
def read (disk : Files.Disk) (l : Layer) : Except LoadError (String × Text) :=
  match l.find? disk with
  | none => .error (.missingFile l.file)
  | some (_, .binary) => .error .notText
  | some (path, .text t) => .ok (path, t)

/-- The entries of the file and their origin, which is its path from the working directory. A file
that may be missing and has no text has none. -/
def entries (disk : Files.Disk) (l : Layer) : Except LoadError (Option (String × Toml.Entries)) :=
  match l.read disk with
  | .error e => if l.isOptional then .ok none else .error e
  | .ok (path, text) =>
    match Toml.parse? text with
    | some entries => .ok (some (disk.relative path, entries))
    | none => .error (.notToml (disk.relative path))

end Layer

/-! ## Layers on top of each other -/

/-- Sets the place that a key of a file names. A key that is no path is a plain key. -/
def setKey? (root : Value) (key : String) (value : Value) : Option Value :=
  match KeyPath.parse? key with
  | some path => path.set? value root
  | none => some (root.set key value)

/-- Puts the entries of a document on top. -/
def addDocument? (root : Value) (origin : String) (entries : Toml.Entries) : Option Value :=
  (Value.ofEntries (some origin) entries).foldlM (fun root (key, value) => setKey? root key value)
    root

/-- Sets the places at paths, from the first to the last. -/
def setAll? (root : Value) (overrides : List (KeyPath × Value)) : Option Value :=
  overrides.foldlM (fun root (path, value) => path.set? value root) root

/-- The settings, of each path only the last. -/
def lastOfEach : List (KeyPath × Value) → List (KeyPath × Value)
  | [] => []
  | (path, value) :: rest =>
    if rest.any (·.1 == path) then lastOfEach rest else (path, value) :: lastOfEach rest

/-- The value that an option has, or an index that is no place in its list. -/
def orIndex {α : Type} : Option α → Except LoadError α
  | some a => .ok a
  | none => .error .index

/-- The settings with their paths. -/
def parseKeys : List (String × Value) → Except LoadError (List (KeyPath × Value))
  | [] => .ok []
  | (key, value) :: rest =>
    match KeyPath.parse? key with
    | some path => do return (path, value) :: (← parseKeys rest)
    | none => .error (.keyPath key)

/-- Puts files on top of a value. -/
def addLayers (disk : Files.Disk) (root : Value) : List Layer → Except LoadError Value
  | [] => .ok root
  | l :: rest => do
    match ← l.entries disk with
    | some (origin, entries) => addLayers disk (← orIndex (addDocument? root origin entries)) rest
    | none => addLayers disk root rest

/-- The configuration in a value. -/
def decode (root : Value) : Except LoadError Config :=
  match Config.ofValue root with
  | .ok c => .ok c
  | .error e => .error (.decode e)

/-- The configuration of the built-in values, the files and the values set by their keys. -/
def load (disk : Files.Disk) (layers : List Layer) (overrides : List (String × Value)) :
    Except LoadError Config := do
  let overrides ← parseKeys overrides
  let root ← addLayers disk (.ofConfig .default) layers
  decode (← orIndex (setAll? root (lastOfEach overrides)))

end RexxEditing.Settings
