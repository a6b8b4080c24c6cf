import RexxEditing.Settings.Value
import RexxEditing.Text.Basic

/-! # Key paths

A key path names a place in a configuration: a key, and then keys after dots and list indices
between brackets, as in `files.extensions[0]`. A negative index counts from the end of the list.
-/

namespace RexxEditing.Settings

/-- One step into a value. -/
inductive Step where
  | key (name : String)
  | index (i : Int)
  deriving DecidableEq, Repr

/-- The steps to a place, the first of them a key. -/
abbrev KeyPath := List Step

namespace KeyPath

/-! ## Reading key paths -/

/-- The characters of a key. -/
def isKeyChar (c : Char) : Bool := c.isAlphanum || c == ' ' || c == '_' || c == '-'

/-- The blanks that may stand around an index. -/
def isSpace (c : Char) : Bool := c == ' ' || c == '\t'

/-- The number that decimal digits write. -/
def number (ds : Text) : Nat := ds.foldl (fun n c => n * 10 + (c.toNat - '0'.toNat)) 0

/-- The text after an index and its closing bracket, and the index. It fits into 64 bits. -/
def index? (cs : Text) : Option (Int × Text) :=
  let cs := cs.dropWhile isSpace
  let (negative, cs) := match cs with
    | '-' :: cs => (true, cs)
    | cs => (false, cs)
  let (ds, cs) := cs.span Char.isDigit
  let n := number ds
  match cs.dropWhile isSpace with
  | ']' :: rest =>
    if ds.isEmpty then none
    else if negative then if n ≤ 1 <<< 63 then some (-n, rest) else none
    else if n < 1 <<< 63 then some (n, rest) else none
  | _ => none

/-- The steps in a text, which take at most `fuel` characters. -/
def stepsUpTo : Nat → Text → Option KeyPath
  | _, [] => some []
  | 0, _ => none
  | fuel + 1, '.' :: cs => do
    let (name, rest) := cs.span isKeyChar
    if name.isEmpty then none
    else return .key (String.ofList name) :: (← stepsUpTo fuel rest)
  | fuel + 1, '[' :: cs => do
    let (i, rest) ← index? cs
    return .index i :: (← stepsUpTo fuel rest)
  | _, _ => none

/-- The path that a text writes, in small letters. -/
def parse? (text : String) : Option KeyPath :=
  let small := text.toList.map Char.toLower
  stepsUpTo (small.length + 1) ('.' :: small)

/-- The path as it is written. -/
def toText (path : KeyPath) : String :=
  path.foldl (fun written step =>
    match step with
    | .key name => if written.isEmpty then name else written ++ "." ++ name
    | .index i => written ++ "[" ++ toString i ++ "]") ""

/-! ## Setting a place -/

/-- The items of a list. What is no list has none. -/
def itemsOf (v : Value) : List Value :=
  match v.data with
  | .list items => items
  | _ => []

/-- The list with other items. -/
def withItems (v : Value) (items : List Value) : Value :=
  match v with
  | .mk origin (.list _) => .mk origin (.list items)
  | _ => .ofData (.list items)

/-- No list grows to more items. -/
def maxLength : Nat := 1 <<< 24

/-- The place of an index in a list of `length` items. There is none before the start, and none that
makes a list too long. -/
def position? (i : Int) (length : Nat) : Option Nat :=
  if 0 ≤ i then if i.toNat < maxLength then some i.toNat else none
  else if i.natAbs ≤ length then some (length - i.natAbs) else none

/-- The items with at least `n + 1` of them; the new ones are unit values. -/
def padTo (items : List Value) (n : Nat) : List Value :=
  items ++ List.replicate (n + 1 - items.length) .unit

/-- The value with the place at a path set. What is in the way is replaced by tables and lists. It
fails only at an index that is no place in a list. -/
def set? (path : KeyPath) (value root : Value) : Option Value :=
  match path with
  | [] => some value
  | [.key name] => some (root.set name value)
  | .key name :: rest => do
    let inner ← set? rest value ((root.get? name).getD .unit)
    return root.put name inner
  | .index i :: rest => do
    let n ← position? i (itemsOf root).length
    let items := padTo (itemsOf root) n
    let item ← set? rest value (items.getD n .unit)
    return withItems root (items.set n item)

end KeyPath

end RexxEditing.Settings
