import RexxEditing.Command.Run
import RexxEditing.Proofs.Indent.Column
import RexxEditing.Proofs.Indent.Placement

/-! # Indented texts and columns

Indenting a whole text and asking for the column of one line are two ways to the same columns. The
whole text is indented from the top down, and each line is placed below lines that are in place
already. The column of one line is read off the text as it is. A text that indenting leaves alone is
one whose lines all stand at their columns.

* `place_eq_self_iff`: which lines are in their place.
* `indented_eq_self_iff`: lines stay as they are if each is in its place below the lines above it.
* `reindent_agrees`: the indented texts, by the columns of their lines.
-/

namespace RexxEditing.Indent

open Text (isWhite spaces)

/-- A line in code is in its place if it is empty, or if it stands at its column. -/
theorem place_eq_self_iff {offset : Nat} {states : List State} {above : List Text} {line : Text} :
    place offset states above .normal line = line ↔
      line = [] ∨ ∃ c rest, isWhite c = false ∧
        line = spaces (columnWith (.ofLines (above ++ [line.trimStart])) above.length offset
          states) ++ c :: rest := by
  constructor
  · intro h
    by_cases hTrim : line.trimStart = []
    · rw [place_white _ _ _ hTrim] at h
      exact Or.inl h.symm
    · obtain ⟨c, rest, hBody⟩ := List.exists_cons_of_ne_nil hTrim
      have hLine := place_body offset states above hTrim
      rw [h] at hLine
      exact Or.inr ⟨c, rest, Text.isWhite_of_trimStart hBody, hLine.trans (congrArg _ hBody)⟩
  · rintro (rfl | ⟨c, rest, hc, hLine⟩)
    · exact place_white _ _ _ Text.trimStart_nil
    · have hBody : line.trimStart = c :: rest := by
        rw [hLine, Text.trimStart_white_append fun _ => Text.isWhite_of_mem_spaces,
          Text.trimStart_cons_of_not hc]
      have hPlace := place_body offset states above (hBody ▸ List.cons_ne_nil c rest)
      exact hPlace.trans ((congrArg _ hBody).trans hLine.symm)

/-- **Lines in their places.** Lines stay as they are if each is in its place below the lines above
it, as they are. -/
theorem indented_eq_self_iff {offset : Nat} {states : List State} {above : List Text}
    {entry : State} {lines : List Text} :
    indented offset states above entry lines = lines ↔
      ∀ i line, lines[i]? = some line →
        place offset states (above ++ (lines.take i).map Text.dropReturn)
          (entry.after (lines.take i)) line.dropReturn = line.dropReturn := by
  induction lines generalizing above entry with
  | nil => simp [indented]
  | cons line rest ih =>
    constructor
    · intro h
      obtain ⟨hLine, hRest⟩ := List.cons.inj h
      -- the line is in its place, so the lines below it are placed below the line as it is
      have hPlace := dropReturn_place offset states above entry line
      rw [hLine] at hPlace
      rw [← hPlace] at hRest
      intro i line' hi
      cases i with
      | zero =>
        obtain rfl : line = line' := by simpa using hi
        simpa [State.after] using hPlace.symm
      | succ i =>
        have hBelow := ih.1 hRest i line' hi
        simpa [State.after] using hBelow
    · intro h
      have hPlace : place offset states above entry line.dropReturn = line.dropReturn := by
        simpa [State.after] using h 0 line rfl
      have hRest : indented offset states (above ++ [line.dropReturn]) (entry.next line) rest =
          rest := by
        refine ih.2 fun i line' hi => ?_
        simpa [State.after] using h (i + 1) line' hi
      simp only [indented, hPlace, Text.dropReturn_append_ending, hRest]

/-- Whether every line of the text that is entered in code is empty or stands at its column: so many
spaces and then a character that is not white. A carriage return at its end does not count. -/
def AtColumns (offset : Nat) (text : Text) : Prop :=
  ∀ i line, text.lines[i]? = some line → (lineStates text .normal)[i]? = some .normal →
    line.dropReturn = [] ∨ ∃ c rest, isWhite c = false ∧
      line.dropReturn = spaces (column (.ofText text) i offset) ++ c :: rest

theorem reindent_eq_self_iff_indented {offset : Nat} {text : Text} :
    reindent offset text = text ↔
      indented offset (lineStates text .normal) [] .normal text.lines = text.lines := by
  constructor
  · intro h
    rw [← lines_reindent, h]
  · intro h
    rw [reindent_eq, h, Text.ofLines_lines]

/-- Indenting leaves a text alone if its lines stand at their columns. -/
theorem reindent_eq_self_iff {offset : Nat} {text : Text} :
    reindent offset text = text ↔ AtColumns offset text := by
  rw [reindent_eq_self_iff_indented, indented_eq_self_iff]
  refine forall_congr' fun i => forall_congr' fun line => forall_congr' fun hLine => ?_
  have hState : (lineStates text .normal)[i]? = some (State.after .normal (text.lines.take i)) :=
    State.sequence_getElem? .normal hLine
  rw [hState, Option.some.injEq, List.nil_append, column_ofText hLine]
  cases State.after .normal (text.lines.take i) with
  | inside region =>
    -- a line that is entered in a region stays where it is
    exact iff_of_true rfl fun h => nomatch h
  | normal =>
    rw [place_eq_self_iff, forall_prop_of_true rfl]

/-- **Agreement.** Indenting leaves a text alone exactly if every line of it that is entered in code
is empty or stands at the column that is computed for it alone. So the check of a file succeeds
exactly if every such line stands at the column that is printed for it. -/
theorem reindent_agrees (offset : Nat) (text : Text) :
    (reindent offset text = text ↔ AtColumns offset text) ∧
      ∀ path, ((Command.indent path text offset .check).code = 0 ↔ AtColumns offset text) ∧
        ∀ i, (Command.indent path text offset (.column (i + 1))).printed =
          (toString (column (.ofText text) i offset)).toList ++ ['\n'] := by
  refine ⟨reindent_eq_self_iff, fun path => ⟨?_, fun i => ?_⟩⟩
  · rw [← reindent_eq_self_iff, Command.indent]
    split
    · rename_i h
      exact iff_of_true rfl h
    · rename_i h
      exact iff_of_false (fun hCode => nomatch hCode) h
  · simp [Command.indent, Command.Outcome.success, Command.printLines]

end RexxEditing.Indent
