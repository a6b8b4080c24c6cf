import RexxEditing.Indent.Document
import RexxEditing.Proofs.Highlight.WhiteSpace
import RexxEditing.Proofs.Text.Blank

/-! # Lines in their places

A line is put in its place by a change of the white space in front of it alone. So the lines below
are entered in the same states as before, and a line that is in its place stays there.

* `next_place`, `place_place`: what this means for one line.
* `reindent_eq`: the indented text, line by line.
* `reindent_stable`: indenting a text keeps the states of its lines, and indenting it again has no
  effect.
-/

namespace RexxEditing.Indent

open Text (spaces)

/-! ## One line -/

section Place

variable (offset : Nat) (states : List State) (above : List Text)

theorem place_white {line : Text} (h : line.trimStart = []) :
    place offset states above .normal line = [] := by
  simp [place, h]

theorem place_body {line : Text} (h : line.trimStart ≠ []) :
    place offset states above .normal line =
      spaces (columnWith (.ofLines (above ++ [line.trimStart])) above.length offset states) ++
        line.trimStart := by
  obtain ⟨c, rest, hTrim⟩ := List.exists_cons_of_ne_nil h
  simp [place, hTrim]

/-- The state after a line is the same when the line is in its place. -/
theorem next_place (entry : State) (line : Text) :
    entry.next (place offset states above entry line) = entry.next line := by
  cases entry with
  | inside region => rfl
  | normal =>
    obtain ⟨front, hFront, hLine⟩ := line.white_append_trimStart
    have hNext := State.next_white_append hFront line.trimStart
    rw [← hLine] at hNext
    rw [hNext]
    by_cases h : line.trimStart = []
    · rw [place_white _ _ _ h, h]
    · rw [place_body _ _ _ h]
      exact State.next_white_append (fun _ => Text.isWhite_of_mem_spaces) _

theorem place_place (entry : State) (line : Text) :
    place offset states above entry (place offset states above entry line) =
      place offset states above entry line := by
  cases entry with
  | inside region => rfl
  | normal =>
    by_cases h : line.trimStart = []
    · rw [place_white _ _ _ h, place_white _ _ _ Text.trimStart_nil]
    · have hTrim : (place offset states above .normal line).trimStart = line.trimStart := by
        rw [place_body _ _ _ h, Text.trimStart_white_append fun _ => Text.isWhite_of_mem_spaces,
          Text.trimStart_trimStart]
      have hPlace := place_body offset states above (hTrim ▸ h)
      rwa [hTrim, ← place_body _ _ _ h] at hPlace

/-- Nothing but spaces comes into a line. -/
theorem mem_of_mem_place {entry : State} {line : Text} {c : Char}
    (h : c ∈ place offset states above entry line) : c = ' ' ∨ c ∈ line := by
  cases entry with
  | inside region => exact Or.inr h
  | normal =>
    by_cases hTrim : line.trimStart = []
    · rw [place_white _ _ _ hTrim] at h
      cases h
    · rw [place_body _ _ _ hTrim] at h
      rcases List.mem_append.1 h with h | h
      · exact Or.inl (List.eq_of_mem_replicate h)
      · exact Or.inr ((List.dropWhile_sublist _).mem h)

/-- A line in its place ends like the line, unless nothing is left of it. -/
theorem getLast?_place (entry : State) (line : Text) :
    place offset states above entry line = [] ∨
      (place offset states above entry line).getLast? = line.getLast? := by
  cases entry with
  | inside region => exact Or.inr rfl
  | normal =>
    by_cases h : line.trimStart = []
    · exact Or.inl (place_white _ _ _ h)
    · obtain ⟨front, -, hLine⟩ := line.white_append_trimStart
      have hLast (front : Text) : (front ++ line.trimStart).getLast? = line.trimStart.getLast? := by
        rw [List.getLast?_append, List.getLast?_eq_some_getLast h, Option.some_or]
      right
      rw [place_body _ _ _ h, hLast, ← hLast front, ← hLine]

/-- A carriage return is put back behind the line that it was taken from. -/
theorem splitReturn_place (entry : State) (line : Text) :
    Text.splitReturn (place offset states above entry line.dropReturn ++ line.ending) =
      (place offset states above entry line.dropReturn, line.ending) := by
  rcases line.ending_cases with hEnding | hEnding
  · rw [hEnding]
    exact Text.splitReturn_append_return _
  · have hLast := Text.getLast?_ne_return_of_ending_eq_nil hEnding
    have hLine := line.dropReturn_append_ending
    rw [hEnding, List.append_nil] at hLine
    rw [hEnding, List.append_nil, hLine]
    refine Text.splitReturn_of_getLast?_ne ?_
    rcases getLast?_place offset states above entry line with hNil | hSame
    · rw [hNil]
      simp
    · rwa [hSame]

theorem dropReturn_place (entry : State) (line : Text) :
    Text.dropReturn (place offset states above entry line.dropReturn ++ line.ending) =
      place offset states above entry line.dropReturn := by
  rw [Text.dropReturn, splitReturn_place]

theorem ending_place (entry : State) (line : Text) :
    Text.ending (place offset states above entry line.dropReturn ++ line.ending) =
      line.ending := by
  rw [Text.ending, splitReturn_place]

end Place

/-! ## All lines -/

/-- The lines of an indented text, with the carriage returns at their ends, below the lines `above`.
The first of them is entered in `entry`. -/
def indented (offset : Nat) (states : List State) (above : List Text) (entry : State) :
    List Text → List Text
  | [] => []
  | line :: rest =>
    let placed := place offset states above entry line.dropReturn
    (placed ++ line.ending) ::
      indented offset states (above ++ [placed]) (entry.next line) rest

section Indented

variable (offset : Nat) (states : List State)

/-- Placing all lines and putting the line ends back is one pass over the lines. -/
theorem zipWith_placeAll {above ends : List Text} (h : above.length = ends.length) (entry : State)
    (lines : List Text) :
    List.zipWith (· ++ ·)
        (placeAll offset states above ((entry.sequence lines).zip (lines.map Text.dropReturn)))
        (ends ++ lines.map Text.ending) =
      List.zipWith (· ++ ·) above ends ++ indented offset states above entry lines := by
  induction lines generalizing above ends entry with
  | nil => simp [placeAll, indented, State.sequence]
  | cons line rest ih =>
    have hLengths : (above ++ [place offset states above entry line.dropReturn]).length =
        (ends ++ [line.ending]).length := by
      simp [h]
    -- the placed line moves from the lines below to the lines above
    have hBelow := ih hLengths (entry.next line)
    rw [List.zipWith_append h, List.append_assoc, List.append_assoc] at hBelow
    exact hBelow

/-- **The indented text, line by line.** -/
theorem reindent_eq (text : Text) :
    reindent offset text =
      Text.ofLines (indented offset (lineStates text .normal) [] .normal text.lines) := by
  have hLengths : ([] : List Text).length = ([] : List Text).length := rfl
  have hLines := zipWith_placeAll offset (lineStates text .normal) hLengths .normal text.lines
  simp only [reindent, List.map_map]
  exact congrArg Text.ofLines hLines

theorem newline_notMem_indented {above : List Text} {entry : State} {lines : List Text}
    (h : ∀ line ∈ lines, '\n' ∉ line) :
    ∀ line ∈ indented offset states above entry lines, '\n' ∉ line := by
  induction lines generalizing above entry with
  | nil => simp [indented]
  | cons line rest ih =>
    obtain ⟨hLine, hRest⟩ := List.forall_mem_cons.1 h
    refine List.forall_mem_cons.2 ⟨fun hFeed => hLine ?_, ih hRest⟩
    rw [← line.dropReturn_append_ending]
    rcases List.mem_append.1 hFeed with hPlaced | hEnding
    · rcases mem_of_mem_place offset states above hPlaced with hSpace | hMem
      · cases hSpace
      · exact List.mem_append_left _ hMem
    · exact List.mem_append_right _ hEnding

theorem lines_reindent (text : Text) :
    (reindent offset text).lines =
      indented offset (lineStates text .normal) [] .normal text.lines := by
  rw [reindent_eq]
  refine Text.lines_ofLines ?_ ?_
  · obtain ⟨line, rest, hLines⟩ := text.exists_lines_eq_cons
    simp [hLines, indented]
  · exact newline_notMem_indented offset _ fun line => Text.newline_notMem_of_mem_lines

theorem next_placed_append_ending (above : List Text) (entry : State) (line : Text) :
    entry.next (place offset states above entry line.dropReturn ++ line.ending) =
      entry.next line := by
  rw [← State.next_dropReturn, dropReturn_place, next_place, State.next_dropReturn]

theorem sequence_indented (above : List Text) (entry : State) (lines : List Text) :
    entry.sequence (indented offset states above entry lines) = entry.sequence lines := by
  induction lines generalizing above entry with
  | nil => rfl
  | cons line rest ih =>
    simp only [indented, State.sequence, next_placed_append_ending, ih]

theorem indented_indented (above : List Text) (entry : State) (lines : List Text) :
    indented offset states above entry (indented offset states above entry lines) =
      indented offset states above entry lines := by
  induction lines generalizing above entry with
  | nil => rfl
  | cons line rest ih =>
    simp only [indented, dropReturn_place, ending_place, place_place, next_placed_append_ending, ih]

theorem lineStates_reindent (text : Text) :
    lineStates (reindent offset text) .normal = lineStates text .normal := by
  rw [lineStates, lines_reindent, sequence_indented, ← lineStates]

theorem reindent_reindent (text : Text) :
    reindent offset (reindent offset text) = reindent offset text := by
  rw [reindent_eq offset (reindent offset text), lineStates_reindent, lines_reindent,
    indented_indented, ← reindent_eq]

end Indented

/-- **Indentation is stable.** Indenting a text keeps the state in which each of its lines is
entered, and indenting it again has no effect. -/
theorem reindent_stable (offset : Nat) (text : Text) :
    lineStates (reindent offset text) .normal = lineStates text .normal ∧
      reindent offset (reindent offset text) = reindent offset text :=
  ⟨lineStates_reindent offset text, reindent_reindent offset text⟩

end RexxEditing.Indent
