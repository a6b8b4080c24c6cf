import RexxEditing.Proofs.Checked.Indent
import RexxEditing.Proofs.Checked.Position
import RexxEditing.Proofs.Diff.Bounds
import RexxEditing.Proofs.Format.Splice

/-! # Formatting edits at checked places

The hunks of a comparison name their new lines by their numbers. The edits of a hunk look the lines
up, one by one or as a run that has to lie in the text. Edits outside a range of lines are left out,
which takes the positions of their ends.

* `editsOf?_eq`, `edits?_eq`: the lines of a hunk are there.
* `document?_eq`, `lines?_eq`: the edits of a text, and of some of its lines, are found like in
  memory.
-/

namespace RexxEditing.Checked

open Format (Edit LineRange offset)
open Diff (Hunk)

/-! ## Edits -/

/-- A run of lines, all of which have to be there. -/
def run? (lines : List Text) (start length : Nat) : Option (List Text) :=
  if start + length ≤ lines.length then some (Diff.run lines start length) else none

/-- The edits of `n` lines from line `old` on into the new lines from line `i` on. -/
def lineEdits? (table : LineTable) (newLines : List Text) (old i : Nat) :
    Nat → Option (List Edit)
  | 0 => some []
  | n + 1 => do
    let line ← newLines[i]?
    let others ← lineEdits? table newLines (old + 1) (i + 1) n
    return ⟨⟨offset table old, offset table (old + 1)⟩, line⟩ :: others

def editsOf? (table : LineTable) (newLines : List Text) (h : Hunk) : Option (List Edit) :=
  if h.isEven then lineEdits? table newLines h.old h.new h.newLength
  else (run? newLines h.new h.newLength).map fun lines =>
    [⟨⟨offset table h.old, offset table (h.old + h.oldLength)⟩, lines.flatten⟩]

def editsOfAll? (table : LineTable) (newLines : List Text) : List Hunk → Option (List Edit)
  | [] => some []
  | h :: hs => do
    let first ← editsOf? table newLines h
    let others ← editsOfAll? table newLines hs
    return first ++ others

def edits? (before after : Text) : Option (List Edit) :=
  if before = after then some []
  else
    let newLines := Format.terminatedLines after
    editsOfAll? (LineTable.ofText before) newLines
      (Diff.hunks (Format.terminatedLines before) newLines)

section Edits

variable (table : LineTable) {newLines : List Text}

theorem lineEdits?_eq {i n : Nat} (h : i + n ≤ newLines.length) (old : Nat) :
    lineEdits? table newLines old i n =
      some ((Format.linePatches old (Diff.run newLines i n)).map (Format.Patch.edit table)) := by
  induction n generalizing i old with
  | zero => rfl
  | succ n ih =>
    have hi : i < newLines.length := by omega
    have hRun : Diff.run newLines i (n + 1) = newLines[i] :: Diff.run newLines (i + 1) n := by
      rw [Diff.run, List.drop_eq_getElem_cons hi, List.take_succ_cons, Diff.run]
    rw [lineEdits?, List.getElem?_eq_getElem hi, ih (by omega), hRun]
    rfl

/-- The new lines of a hunk that fits are there. -/
theorem editsOf?_eq {h : Hunk} (hFit : h.new + h.newLength ≤ newLines.length) :
    editsOf? table newLines h = some (Format.editsOf table newLines h) := by
  rw [Format.editsOf_eq]
  unfold editsOf? Format.patchesOf
  split
  · exact lineEdits?_eq table hFit h.old
  · rw [run?, if_pos hFit]
    rfl

theorem editsOfAll?_eq {hs : List Hunk} (h : ∀ h ∈ hs, h.new + h.newLength ≤ newLines.length) :
    editsOfAll? table newLines hs = some (hs.flatMap (Format.editsOf table newLines)) := by
  induction hs with
  | nil => rfl
  | cons first rest ih =>
    obtain ⟨hFirst, hRest⟩ := List.forall_mem_cons.1 h
    rw [editsOfAll?, editsOf?_eq table hFirst, ih hRest]
    rfl

end Edits

/-- **The edits between two texts** are found. -/
theorem edits?_eq (before after : Text) :
    edits? before after = some (Format.edits before after) := by
  unfold edits? Format.edits
  split
  · rfl
  · exact editsOfAll?_eq _ (Diff.hunks_fit _ _)

/-! ## A text and a part of it -/

noncomputable def document? (limit levelWidth : Nat) (text : Text) : Option (List Edit) := do
  let after ← reindent? limit levelWidth text
  edits? text after

def isWithin? (table : LineTable) (r : LineRange) (e : Edit) : Option Bool := do
  let start ← position? table e.span.start
  if e.span.start = e.span.stop then return r.start ≤ start.line && start.line < r.stop
  else
    let stop ← position? table e.span.stop
    return r.start ≤ start.line && stop.line ≤ r.stop

def editsWithin? (table : LineTable) (r : LineRange) : List Edit → Option (List Edit)
  | [] => some []
  | e :: rest => do
    let isKept ← isWithin? table r e
    let others ← editsWithin? table r rest
    return if isKept then e :: others else others

noncomputable def lines? (limit levelWidth : Nat) (text : Text) (r : LineRange) :
    Option (List Edit) := do
  let all ← document? limit levelWidth text
  let table := LineTable.ofText text
  editsWithin? table (r.clamp table.count) all

theorem isWithin?_eq (text : Text) (r : LineRange) (e : Edit) :
    isWithin? (LineTable.ofText text) r e = some (e.isWithin (LineTable.ofText text) r) := by
  unfold isWithin? Edit.isWithin
  simp only [position?_eq, Option.bind_eq_bind, Option.bind_some]
  split <;> rfl

theorem editsWithin?_eq (text : Text) (r : LineRange) (es : List Edit) :
    editsWithin? (LineTable.ofText text) r es =
      some (es.filter (Edit.isWithin (LineTable.ofText text) r)) := by
  induction es with
  | nil => rfl
  | cons e rest ih =>
    rw [editsWithin?, isWithin?_eq, ih, List.filter_cons]
    rfl

section Document

variable {limit levelWidth : Nat} {text : Text}
  (h : ∀ line ∈ (Indent.reindent levelWidth text).lines, Indent.columnOf line < limit)

include h

/-- **The edits of a text** are found, if it can be indented. -/
theorem document?_eq : document? limit levelWidth text = Format.document? levelWidth text := by
  rw [document?, reindent?_eq h, Format.document?]
  cases Indent.reindent? levelWidth text with
  | none => rfl
  | some after => exact edits?_eq text after

/-- **The edits of some lines** are found, if the text can be indented. -/
theorem lines?_eq (r : LineRange) :
    lines? limit levelWidth text r = Format.lines? levelWidth text r := by
  rw [lines?, document?_eq h, Format.lines?]
  cases Format.document? levelWidth text with
  | none => rfl
  | some edits => exact editsWithin?_eq text _ edits

end Document

end RexxEditing.Checked
