import RexxEditing.Diff.Align
import RexxEditing.Diff.Slide

/-! # Hunks

A hunk is a longest run of deletions and insertions with nothing kept between them.
-/

namespace RexxEditing.Diff

/-- A change of `oldLength` elements from `old` on into `newLength` elements from `new` on. -/
structure Hunk where
  old : Nat
  oldLength : Nat
  new : Nat
  newLength : Nat
  deriving DecidableEq, Repr

namespace Hunk

/-- Whether the hunk puts one element in the place of each old one. -/
def isEven (h : Hunk) : Bool := h.oldLength == h.newLength

/-- The hunk of a run of changes. It stands where its first deletion and its first insertion
stand. -/
def ofOps? (ops : List Op) : Option Hunk :=
  let deletions := ops.filter (·.tag == .delete)
  let insertions := ops.filter (·.tag == .insert)
  let oldLength := Op.total Op.oldLength deletions
  let newLength := Op.total Op.newLength insertions
  match deletions, insertions with
  | [], [] => none
  | d :: _, [] => some ⟨d.old, oldLength, d.new, 0⟩
  | [], i :: _ => some ⟨i.old, 0, i.new, newLength⟩
  | d :: _, i :: _ => some ⟨d.old, oldLength, i.new, newLength⟩

/-- The hunks of a script whose changes since the last kept run are `pending`, in reverse. -/
def collect (pending : List Op) : List Op → List Hunk
  | [] => (ofOps? pending.reverse).toList
  | op :: ops =>
    if op.tag = .keep then (ofOps? pending.reverse).toList ++ collect [] ops
    else collect (op :: pending) ops

end Hunk

/-- The hunks that turn one list into another. -/
def hunks {α : Type} [DecidableEq α] (old new : List α) : List Hunk :=
  Hunk.collect [] (slide old new (align 0 0 old new))

end RexxEditing.Diff
