import RexxEditing.Proofs.Format.Lines
import RexxEditing.Proofs.Format.Splice
import RexxEditing.Proofs.Indent.Preservation

/-! # Edits that indent a text

The edits of a text are those of patches in order, as far as the insertions of the comparison are in
their places. If the changed lines start where the line table says, making the edits indents the
text, so nothing but white space is lost or added. Every line starts where the line table says, if
every carriage return has a line feed after it. If a carriage return stands alone, the comparison
has a line that the line table does not have, and code is repeated.

* `applyFromLast?_edits`: making the edits between two texts.
* `document_realises`: the edits of a text indent it.
* `document_keeps_code`, `document_changes_code`: when code is kept, and when it is not.
-/

namespace RexxEditing.Format

open Diff (InPlace hunks)
open Text (ReturnsLast IsLineBoundary byteSize)

/-- The patches that turn one text into another. -/
def patches (before after : Text) : List Patch :=
  (hunks (terminatedLines before) (terminatedLines after)).flatMap
    (patchesOf (terminatedLines after))

/-- Whether the comparison of two texts has its insertions in place. -/
def ChangesInPlace (before after : Text) : Prop :=
  InPlace (hunks (terminatedLines before) (terminatedLines after))

instance (before after : Text) : Decidable (ChangesInPlace before after) :=
  inferInstanceAs (Decidable (InPlace _))

section Edits

variable {before after : Text}

theorem edits_eq (h : before ≠ after) :
    edits before after = (patches before after).map (Patch.edit (LineTable.ofText before)) := by
  simp only [edits, if_neg h, patches, List.map_flatMap]
  congr 1
  funext hunk
  exact editsOf_eq _ _ hunk

theorem mem_patches_of_mem_edits {e : Edit} (h : e ∈ edits before after) :
    ∃ p ∈ patches before after, p.edit (LineTable.ofText before) = e := by
  by_cases hEq : before = after
  · rw [edits, if_pos hEq] at h
    cases h
  · rw [edits_eq hEq] at h
    exact List.mem_map.1 h

theorem inOrder_patches (hPlace : ChangesInPlace before after) :
    InOrder 0 (terminatedLines before).length (patches before after) :=
  (Diff.hunks_tile hPlace).inOrder

theorem pairwise_edits {R : Edit → Edit → Prop}
    (h : (patches before after).Pairwise fun p q =>
      R (p.edit (LineTable.ofText before)) (q.edit (LineTable.ofText before))) :
    (edits before after).Pairwise R := by
  by_cases hEq : before = after
  · rw [edits, if_pos hEq]
    exact .nil
  · rw [edits_eq hEq]
    exact List.pairwise_map.2 h

/-- **Making edits.** Making the edits between two texts, from the last to the first, turns one into
the other. -/
theorem applyFromLast?_edits
    (hPlace : ChangesInPlace before after)
    (hLocated : ∀ p ∈ patches before after,
      Located (LineTable.ofText before) (terminatedLines before) p.start ∧
        Located (LineTable.ofText before) (terminatedLines before) p.stop) :
    applyFromLast? (edits before after) before = some after := by
  by_cases hEq : before = after
  · rw [edits, if_pos hEq, hEq]
    rfl
  · have hSplice := (Diff.hunks_tile hPlace).splice_eq
    have hApply := applyFromLast?_edit (inOrder_patches hPlace) hLocated
    rw [flatten_terminatedLines, patches, hSplice, List.drop_zero,
      flatten_terminatedLines] at hApply
    rw [edits_eq hEq]
    exact hApply

end Edits

/-! ## Paired carriage returns -/

theorem isLineBoundary_offset {text : Text} (h : ReturnsLast text.lines) (k : Nat) :
    text.IsLineBoundary (offset (LineTable.ofText text) k) := by
  have hText := flatten_terminatedLines text
  rw [← List.take_append_drop k (terminatedLines text), List.flatten_append] at hText
  refine ⟨_, _, hText.symm, (offset_eq h k).symm, ?_⟩
  by_cases hk : k < text.lines.length
  · left
    apply Text.terminated_flatten
    intro line hLine
    exact terminated_of_mem_take h hk hLine
  · right
    have hLength := (length_terminatedLines_bounds h).1
    rw [List.drop_of_length_le (by omega)]
    rfl

theorem offset_mono {text : Text} (h : ReturnsLast text.lines) {i k : Nat} (hik : i ≤ k) :
    offset (LineTable.ofText text) i ≤ offset (LineTable.ofText text) k := by
  rw [offset_eq h, offset_eq h]
  exact byteSize_take_le hik

/-- **Formatting edits realise indentation.** Every carriage return of the text has a line feed
after it, and the comparison has its insertions in place. Then the edits stand in order, one behind
the other, each from a line start or the end of the text to another. Making them from the last to
the first gives the indented text, and there are none exactly if the text is indented. -/
theorem document_realises (levelWidth : Nat) {text : Text} (hText : text.ReturnsPaired)
    (hPlace : ChangesInPlace text (Indent.reindent levelWidth text)) :
    (∀ e ∈ document levelWidth text, e.span.start ≤ e.span.stop ∧ e.span.stop ≤ text.byteSize ∧
        text.IsLineBoundary e.span.start ∧ text.IsLineBoundary e.span.stop) ∧
      (document levelWidth text).Pairwise (fun d e => d.span.stop ≤ e.span.start) ∧
      applyFromLast? (document levelWidth text) text = some (Indent.reindent levelWidth text) ∧
      (document levelWidth text = [] ↔ Indent.reindent levelWidth text = text) := by
  have hLines := hText.returnsLast
  have hOrder := inOrder_patches hPlace
  have hApply : applyFromLast? (document levelWidth text) text =
      some (Indent.reindent levelWidth text) :=
    applyFromLast?_edits hPlace fun p _ => ⟨offset_eq hLines p.start, offset_eq hLines p.stop⟩
  refine ⟨?_, ?_, hApply, ?_, ?_⟩
  · intro e he
    obtain ⟨p, hp, rfl⟩ := mem_patches_of_mem_edits he
    exact ⟨offset_mono hLines (hOrder.bounds hp).2.1, offset_le text p.stop,
      isLineBoundary_offset hLines p.start, isLineBoundary_offset hLines p.stop⟩
  · apply pairwise_edits
    exact hOrder.pairwise.imp fun hpq => offset_mono hLines hpq
  · intro hNil
    rw [hNil] at hApply
    exact (Option.some.inj hApply).symm
  · intro hEq
    rw [document, edits, if_pos hEq.symm]

/-- An indented line, and white space at the end that goes without a line in its place. -/
theorem document_realises_with_returns :
    let text : Text := "do\r\n say 1\r\n\r\nend\r\n ".toList
    text.ReturnsPaired ∧
      ChangesInPlace text (Indent.reindent 2 text) ∧
      document 2 text ≠ [] ∧
      applyFromLast? (document 2 text) text = some "do\r\n  say 1\r\n\r\nend\r\n".toList := by
  intro text
  have hText : text.ReturnsPaired := by decide
  have hPlace : ChangesInPlace text (Indent.reindent 2 text) := by decide +kernel
  have hResult : Indent.reindent 2 text = "do\r\n  say 1\r\n\r\nend\r\n".toList := by
    decide +kernel
  obtain ⟨-, -, hApply, -⟩ := document_realises 2 hText hPlace
  exact ⟨hText, hPlace, by decide +kernel, hResult ▸ hApply⟩

/-! ## Any text -/

/-- Whether the lines that are changed between two texts start where the line table says. -/
def ChangesLocated (before after : Text) : Prop :=
  ∀ h ∈ hunks (terminatedLines before) (terminatedLines after), ∀ k ≤ h.oldLength,
    Located (LineTable.ofText before) (terminatedLines before) (h.old + k)

instance (before after : Text) : Decidable (ChangesLocated before after) :=
  inferInstanceAs (Decidable (∀ h ∈ hunks _ _, ∀ k ≤ h.oldLength, Located _ _ (h.old + k)))

theorem ChangesLocated.of_mem {before after : Text} (h : ChangesLocated before after) {p : Patch}
    (hp : p ∈ patches before after) :
    Located (LineTable.ofText before) (terminatedLines before) p.start ∧
      Located (LineTable.ofText before) (terminatedLines before) p.stop := by
  obtain ⟨hunk, hHunk, hp⟩ := List.mem_flatMap.1 hp
  obtain ⟨⟨k, hk, hStart⟩, ⟨m, hm, hStop⟩, -⟩ := exists_of_mem_patchesOf hp
  rw [hStart, hStop]
  exact ⟨h hunk hHunk k hk, h hunk hHunk m hm⟩

/-- **The formatter keeps code.** If the comparison has its insertions in place, and the lines that
are changed start where the line table says, making the edits, those further down first, gives the
indented text, which has the characters of the text in their order, white space aside. -/
theorem document_keeps_code (levelWidth : Nat) (text : Text)
    (hPlace : ChangesInPlace text (Indent.reindent levelWidth text))
    (hLocated : ChangesLocated text (Indent.reindent levelWidth text)) :
    ∃ result, applySorted? (document levelWidth text) text = some result ∧
      result = Indent.reindent levelWidth text ∧ result.nonWhite = text.nonWhite := by
  have hOrder := inOrder_patches hPlace
  have hSorted : (document levelWidth text).Pairwise fun d e => d.span.start ≤ e.span.start := by
    apply pairwise_edits
    refine hOrder.pairwise.imp_of_mem ?_
    intro p q hp hq hpq
    have hStart : p.start ≤ q.start := Nat.le_trans (hOrder.bounds hp).2.1 hpq
    show offset _ p.start ≤ offset _ q.start
    rw [(hLocated.of_mem hp).1, (hLocated.of_mem hq).1]
    exact byteSize_take_le hStart
  refine ⟨_, ?_, rfl, Indent.nonWhite_reindent levelWidth text⟩
  rw [applySorted?, List.mergeSort_of_pairwise]
  · exact applyFromLast?_edits hPlace fun p hp => hLocated.of_mem hp
  · exact hSorted.imp fun hde => decide_eq_true hde

/-- A carriage return alone does no harm below the lines that are changed. -/
theorem document_keeps_code_above_return :
    let text : Text := "do\nsay 1\nend\ny\rz".toList
    ChangesInPlace text (Indent.reindent 2 text) ∧
      ChangesLocated text (Indent.reindent 2 text) ∧ ¬ text.ReturnsPaired ∧
      ∃ result, applySorted? (document 2 text) text = some result ∧
        result = "do\n  say 1\nend\ny\rz".toList ∧ result.nonWhite = text.nonWhite := by
  intro text
  have hPlace : ChangesInPlace text (Indent.reindent 2 text) := by decide +kernel
  have hLocated : ChangesLocated text (Indent.reindent 2 text) := by decide +kernel
  have hResult : Indent.reindent 2 text = "do\n  say 1\nend\ny\rz".toList := by decide +kernel
  refine ⟨hPlace, hLocated, by decide, ?_⟩
  rw [← hResult]
  exact document_keeps_code 2 text hPlace hLocated

/-- **The formatter changes code.** Below a carriage return that stands alone, a line is repeated.
An insertion that is out of its place goes into lines that are deleted, and one of these stays. -/
theorem document_changes_code :
    let text : Text := "do\rsay 1\nsay 2\n".toList
    let other : Text := " x\n \nx\n".toList
    (∃ result, applySorted? (document 2 text) text = some result ∧
        result.nonWhite = "dosay1say2say2".toList ∧ result.nonWhite ≠ text.nonWhite) ∧
      ∃ result, applySorted? (document 2 other) other = some result ∧
        result.nonWhite = "x".toList ∧ result.nonWhite ≠ other.nonWhite := by
  intro text other
  have hText : document 2 text = [⟨⟨15, 15⟩, "  say 2\n".toList⟩] := by decide +kernel
  have hOther : document 2 other = [⟨⟨0, 5⟩, []⟩, ⟨⟨3, 3⟩, "\nx\n".toList⟩] := by decide +kernel
  refine ⟨⟨"do\rsay 1\nsay 2\n  say 2\n".toList, ?_, by decide, by decide⟩,
    "\n \nx\n".toList, ?_, by decide, by decide⟩
  · rw [applySorted?, hText, List.mergeSort_of_pairwise (by decide)]
    decide
  · rw [applySorted?, hOther, List.mergeSort_of_pairwise (by decide)]
    decide

end RexxEditing.Format
