import RexxEditing.Format
import RexxEditing.Proofs.Indent.Column
import RexxEditing.Proofs.Indent.Placement

/-! # Room for indented lines

The spaces in front of a line are a text of their own, and no text in memory is longer than
`Text.maxSize`. So a text cannot be indented if one of its lines would have to stand further right.
A line that is entered in a region keeps its white space, however much that is.

* `place?_eq`, `placeAll?_eq`: one line, and lines that follow each other.
* `reindent?_eq`: a text is indented in memory exactly if there is room for its lines.
* `reindent?_of_reindent?`: an indented text can be indented again.
* `Format.document?_eq`, `Format.lines?_eq`: the edits of a text are found exactly if it can be
  indented.
-/

namespace RexxEditing

namespace Indent

/-- Whether there is room for the white space in front of a line. A line that is entered in a region
is not moved, so there always is. -/
def Fits (entry : State) (line : Text) : Prop := entry = .normal → columnOf line ≤ Text.maxSize

instance (entry : State) (line : Text) : Decidable (Fits entry line) :=
  inferInstanceAs (Decidable (_ → _))

/-- Whether there is room for all lines of an indented text. -/
def HasRoom (offset : Nat) (text : Text) : Prop :=
  ∀ placed ∈ (lineStates text .normal).zip (reindent offset text).lines, Fits placed.1 placed.2

instance (offset : Nat) (text : Text) : Decidable (HasRoom offset text) :=
  inferInstanceAs (Decidable (∀ placed ∈ _, _))

theorem fits_append_ending {entry : State} {l : Text} (line : Text) :
    Fits entry (l ++ line.ending) ↔ Fits entry l := by
  rw [Fits, Fits, columnOf, columnFrom_append_ending, ← columnOf]

section Place

variable (offset : Nat) (states : List State) (above : List Text)

theorem columnOf_place {line : Text} (h : line.trimStart ≠ []) :
    columnOf (place offset states above .normal line) =
      columnWith (.ofLines (above ++ [line.trimStart])) above.length offset states := by
  rw [place_body _ _ _ h, columnOf, columnFrom_spaces_append fun _ => isWhite_head?_trimStart,
    Nat.zero_add]

theorem place?_white {line : Text} (h : line.trimStart = []) :
    place? offset states above .normal line = some [] := by
  simp [place?, h]

theorem place?_body {line : Text} (h : line.trimStart ≠ []) :
    place? offset states above .normal line =
      (Text.spaces? (columnWith (.ofLines (above ++ [line.trimStart])) above.length offset
        states)).map (· ++ line.trimStart) := by
  obtain ⟨c, rest, hTrim⟩ := List.exists_cons_of_ne_nil h
  simp [place?, hTrim]

/-- **One line** is put in its place exactly if there is room. -/
theorem place?_eq (entry : State) (line : Text) :
    place? offset states above entry line =
      if Fits entry (place offset states above entry line) then
        some (place offset states above entry line)
      else none := by
  cases entry with
  | inside region => exact (if_pos fun h => nomatch h).symm
  | normal =>
    by_cases hTrim : line.trimStart = []
    · have hFits : Fits .normal [] := fun _ => Nat.zero_le _
      rw [place?_white _ _ _ hTrim, place_white _ _ _ hTrim, if_pos hFits]
    · have hFits : Fits .normal (place offset states above .normal line) ↔
          columnWith (.ofLines (above ++ [line.trimStart])) above.length offset states ≤
            Text.maxSize := by
        rw [Fits, forall_prop_of_true rfl, columnOf_place _ _ _ hTrim]
      rw [place?_body _ _ _ hTrim, if_congr hFits rfl rfl, place_body _ _ _ hTrim, Text.spaces?]
      split <;> rfl

/-- **All lines** are put in their places exactly if there is room for each. -/
theorem placeAll?_eq (entry : State) (lines : List Text) :
    placeAll? offset states above ((entry.sequence lines).zip (lines.map Text.dropReturn)) =
      if ∀ placed ∈ (entry.sequence lines).zip (indented offset states above entry lines),
          Fits placed.1 placed.2 then
        some (placeAll offset states above
          ((entry.sequence lines).zip (lines.map Text.dropReturn)))
      else none := by
  induction lines generalizing above entry with
  | nil => simp [State.sequence, placeAll?, placeAll]
  | cons line rest ih =>
    simp only [State.sequence, List.map_cons, List.zip_cons_cons, placeAll?, place?_eq, indented,
      List.forall_mem_cons, fits_append_ending, placeAll]
    by_cases hFits : Fits entry (place offset states above entry line.dropReturn)
    · rw [if_pos hFits, Option.bind_eq_bind, Option.bind_some, ih]
      simp only [hFits, true_and]
    · rw [if_neg hFits, if_neg fun h => hFits h.1]
      rfl

end Place

section Reindent

variable {offset : Nat} {text : Text}

/-- **Indenting in memory.** A text is indented exactly if there is room for its lines. -/
theorem reindent?_eq (offset : Nat) (text : Text) :
    reindent? offset text =
      if HasRoom offset text then some (reindent offset text) else none := by
  have hLines : (text.lines.map Text.splitReturn).map Prod.fst = text.lines.map Text.dropReturn :=
    List.map_map ..
  have hPlaced := placeAll?_eq offset (lineStates text .normal) [] .normal text.lines
  rw [← lines_reindent, ← hLines, ← lineStates] at hPlaced
  change _ = if HasRoom offset text then _ else _ at hPlaced
  rw [reindent?, hPlaced]
  split <;> rfl

theorem reindent?_eq_some_iff {result : Text} :
    reindent? offset text = some result ↔ HasRoom offset text ∧ reindent offset text = result := by
  rw [reindent?_eq, Option.ite_none_right_eq_some, Option.some.injEq]

theorem hasRoom_reindent : HasRoom offset (reindent offset text) ↔ HasRoom offset text := by
  rw [HasRoom, HasRoom, lineStates_reindent, reindent_reindent]

/-- A text that was indented in memory can be indented again, and stays as it is. -/
theorem reindent?_of_reindent? {result : Text} (h : reindent? offset text = some result) :
    reindent? offset result = some result := by
  obtain ⟨hRoom, rfl⟩ := reindent?_eq_some_iff.1 h
  exact reindent?_eq_some_iff.2 ⟨hasRoom_reindent.2 hRoom, reindent_reindent offset text⟩

end Reindent

end Indent

namespace Format

variable (levelWidth : Nat) (text : Text)

theorem document?_eq :
    document? levelWidth text =
      if Indent.HasRoom levelWidth text then some (document levelWidth text) else none := by
  rw [document?, Indent.reindent?_eq]
  split <;> rfl

theorem lines?_eq (r : LineRange) :
    lines? levelWidth text r =
      if Indent.HasRoom levelWidth text then some (lines levelWidth text r) else none := by
  rw [lines?, document?_eq]
  split <;> rfl

end Format

end RexxEditing
