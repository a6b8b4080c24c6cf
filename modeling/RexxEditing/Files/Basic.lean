import RexxEditing.Text.Basic
import RexxEditing.Text.Character

/-! # Names and contents of files

A source file is known by the extension of its name. The tools see files through a `Disk`, which
says for a path what is read there. Paths are those of a system with one root and a working
directory.
-/

namespace RexxEditing

/-! ## Names -/

namespace FileName

/-- The extensions of REXX files when nothing else is said. -/
def defaultExtensions : List String := ["rex", "rexx", "cmd"]

/-- The parts of a path between its slashes. -/
def components : Text → List Text
  | [] => [[]]
  | c :: cs =>
    if c = '/' then [] :: components cs
    else
      match components cs with
      | part :: rest => (c :: part) :: rest
      | [] => [[c]]

/-- The last part of a path, slashes and dots at its end aside. The path to the parent of something
has no name. -/
def fileName? (path : Text) : Option Text :=
  let parts := (components path).reverse.dropWhile fun part => part == [] || part == ['.']
  match parts with
  | [] | ['.', '.'] :: _ => none
  | name :: _ => some name

/-- What follows the last dot of a name, unless the name starts with that dot. -/
def extension? (path : Text) : Option Text := do
  let name ← fileName? path
  let (tail, front) := name.reverse.span (· != '.')
  match front with
  | [] | ['.'] => none
  | _ => some tail.reverse

/-- Whether a path has one of the extensions, in any case of its ASCII letters. -/
def hasExtension (extensions : List String) (path : String) : Bool :=
  match extension? path.toList with
  | some extension => extensions.any fun known => Text.eqIgnoreCase known.toList extension
  | none => false

end FileName

/-! ## Contents -/

namespace Files

/-- What a file holds. -/
inductive Content where
  | text (text : Text)
  /-- Bytes that are not UTF-8. -/
  | binary
  deriving DecidableEq, Repr

/-- The content of a file with the given bytes. -/
def Content.ofBytes (bytes : ByteArray) : Content :=
  match String.fromUTF8? bytes with
  | some s => .text s.toList
  | none => .binary

/-- What is told about a file whose bytes are not UTF-8. -/
def notTextMessage : String := "stream did not contain valid UTF-8"

/-- Why nothing is read at a path. -/
inductive ReadError where
  | notFound
  | isDirectory
  | notDirectory
  deriving DecidableEq, Repr

/-- What the system tells about the error. -/
def ReadError.message : ReadError → String
  | .notFound => "No such file or directory (os error 2)"
  | .isDirectory => "Is a directory (os error 21)"
  | .notDirectory => "Not a directory (os error 20)"

/-- The parts of a path. -/
def parts (path : String) : List String := (FileName.components path.toList).map String.ofList

/-- The path of parts. -/
def ofParts (names : List String) : String := String.intercalate "/" names

/-- Whether a path starts at the root. -/
def isAbsolute (path : String) : Bool := "/".isPrefixOf path

/-- Whether a part of a path leads nowhere else. -/
def isIdle (part : String) : Bool := part == "" || part == "."

/-- The way from the directory with the names `here` to other names, both from the root on. -/
def wayFrom : List String → List String → List String
  | h :: here, name :: names =>
    if h = name then wayFrom here names else ".." :: here.map (fun _ => "..") ++ name :: names
  | here, names => here.map (fun _ => "..") ++ names

/-- The working directory, and what is read at a path. -/
structure Disk where
  /-- The names of the working directory, from the root on. -/
  here : List String
  read : String → Except ReadError Content

instance : CoeFun Disk fun _ => String → Except ReadError Content := ⟨Disk.read⟩

/-- The file at a path, if there is one. -/
def Disk.file? (disk : Disk) (path : String) : Option Content := (disk path).toOption

/-- The path from the working directory, without parts that lead nowhere else. -/
def Disk.relative (disk : Disk) (path : String) : String :=
  let names := (parts path).filter (!isIdle ·)
  ofParts (if isAbsolute path then wayFrom disk.here names else names)

end Files

end RexxEditing
