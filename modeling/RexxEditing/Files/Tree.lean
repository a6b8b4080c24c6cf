import RexxEditing.Files.Basic

/-! # File trees

Files and directories below a root, and a working directory. A path that starts with a slash is
looked up from the root, and any other path from the working directory. There are no links.
-/

namespace RexxEditing.Files

/-- What has a name in a directory. -/
inductive Entry where
  | file (content : Content)
  | directory
  deriving DecidableEq, Repr

/-- A file tree. What is in it is known by its names from the root on. -/
structure Tree where
  /-- The names of the working directory. -/
  here : List String
  entries : List (List String × Entry)
  deriving DecidableEq, Repr

namespace Tree

/-- Whether the names are in front of others, or of those of the working directory. -/
def isPassed (t : Tree) (names : List String) : Bool :=
  names.isPrefixOf t.here || t.entries.any fun (others, _) => names.isPrefixOf others

/-- The entry at the given names. Names in front of others are a directory. -/
def get? (t : Tree) (names : List String) : Option Entry :=
  match t.entries.find? (·.1 == names) with
  | some (_, e) => some e
  | none => if t.isPassed names then some .directory else none

/-- The names after one more part of a path. Nothing is above the root. -/
def step (names : List String) (part : String) : List String :=
  if isIdle part then names else if part = ".." then names.dropLast else names ++ [part]

/-- Follows the parts of a path from the given names on, and gives the names at its end. -/
def follow (t : Tree) (names : List String) : List String → Except ReadError (List String)
  | [] => .ok names
  | part :: rest =>
    match t.get? names with
    | none => .error .notFound
    | some (.file _) => .error .notDirectory
    | some .directory => t.follow (step names part) rest

/-- The names from which a path is followed. -/
def start (t : Tree) (path : String) : List String := if isAbsolute path then [] else t.here

/-- The names that a path leads to. -/
def resolve (t : Tree) (path : String) : Except ReadError (List String) :=
  if path = "" then .error .notFound else t.follow (t.start path) (parts path)

/-- What is read at a path. -/
def read (t : Tree) (path : String) : Except ReadError Content := do
  match t.get? (← t.resolve path) with
  | some (.file content) => return content
  | some .directory => throw .isDirectory
  | none => throw .notFound

/-- The disk of the tree. -/
def disk (t : Tree) : Disk := ⟨t.here, t.read⟩

/-- The names after each part of a path from the given names on. -/
def places (names : List String) : List String → List (List String)
  | [] => []
  | part :: rest => step names part :: places (step names part) rest

/-- The tree with an entry at the given names, in the place of any that was there. -/
def put (t : Tree) (names : List String) (e : Entry) : Tree :=
  { t with entries := t.entries.filter (·.1 != names) ++ [(names, e)] }

/-- The tree with a directory at the given names, if nothing is there. -/
def addDirectory (t : Tree) (names : List String) : Tree :=
  if (t.get? names).isSome then t else t.put names .directory

/-- The tree with an entry at a path. The directories on the way are made. The working directory
stays what it is. -/
def insert (t : Tree) (path : String) (e : Entry) : Tree :=
  let passed := places (t.start path) (parts path)
  let tree := passed.dropLast.foldl addDirectory t
  let names := passed.getLastD t.here
  match e with
  | .directory => tree.addDirectory names
  | .file content => if names.isPrefixOf t.here then tree else tree.put names (.file content)

/-- The tree with a working directory and entries at paths, which are made from the first to the
last. -/
def ofEntries (here : List String) (rows : List (String × Entry)) : Tree :=
  rows.foldl (fun t (path, e) => t.insert path e) ⟨here, []⟩

/-- What is at some names after a text is written to the file at the given ones. -/
def overwrite (names : List String) (text : Text) (row : List String × Entry) :
    List String × Entry :=
  if row.1 = names then (row.1, .file (.text text)) else row

/-- The tree with a text written to the file at a path. -/
def write (t : Tree) (path : String) (text : Text) : Tree :=
  match t.resolve path with
  | .error _ => t
  | .ok names => { t with entries := t.entries.map (overwrite names text) }

end Tree

end RexxEditing.Files
