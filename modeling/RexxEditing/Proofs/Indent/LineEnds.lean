import RexxEditing.Proofs.Highlight.LineEnds

/-! # Line feeds and carriage returns

A text may end its lines with a line feed, or with a carriage return and a line feed. Such texts are
classified and indented alike: the carriage returns stay where they are, and nothing else depends on
them.

* `Text.lines_crlf`: the lines of a text with carriage returns.
* `indented_withReturns`: lines keep their carriage returns in their places.
* `crlf_treated_alike`: indentation, line states and tokens with both kinds of line ends.
-/

namespace RexxEditing

/-! ## Carriage returns -/

namespace Text

/-- The text with a carriage return in front of every line feed. -/
def crlf (t : Text) : Text := t.flatMap fun c => if c = '\n' then ['\r', '\n'] else [c]

/-- The lines with a carriage return at the end of each but the last. -/
def withReturns : List Text → List Text
  | [] => []
  | [line] => [line]
  | line :: rest => (line ++ ['\r']) :: withReturns rest

theorem withReturns_cons {line : Text} {rest : List Text} (h : rest ≠ []) :
    withReturns (line :: rest) = (line ++ ['\r']) :: withReturns rest := by
  obtain ⟨next, more, rfl⟩ := List.exists_cons_of_ne_nil h
  rfl

theorem crlf_cons_of_ne {c : Char} (h : c ≠ '\n') (cs : Text) : crlf (c :: cs) = c :: crlf cs := by
  rw [crlf, List.flatMap_cons, if_neg h]
  rfl

/-- **Lines with carriage returns.** -/
theorem lines_crlf (t : Text) : t.crlf.lines = withReturns t.lines := by
  induction t with
  | nil => rfl
  | cons c cs ih =>
    by_cases hc : c = '\n'
    · have hFeed : crlf (c :: cs) = ['\r'] ++ '\n' :: crlf cs := by
        rw [crlf, List.flatMap_cons, if_pos hc]
        rfl
      rw [hFeed, hc, lines_append_newline, lines_newline_cons, withReturns_cons (lines_ne_nil cs),
        ih]
      rfl
    · obtain ⟨line, rest, hLines⟩ := exists_lines_eq_cons cs
      rw [hLines] at ih
      rw [crlf_cons_of_ne hc, lines_cons_of_ne hc hLines]
      by_cases hRest : rest = []
      · subst hRest
        exact lines_cons_of_ne hc ih
      · rw [withReturns_cons hRest] at ih ⊢
        exact lines_cons_of_ne hc ih

theorem crlf_eq_ofLines (t : Text) : t.crlf = ofLines (withReturns t.lines) := by
  rw [← lines_crlf, ofLines_lines]

theorem crlf_ne_nil {t : Text} (h : t ≠ []) : t.crlf ≠ [] := by
  obtain ⟨c, cs, rfl⟩ := List.exists_cons_of_ne_nil h
  by_cases hc : c = '\n'
  · rw [crlf, List.flatMap_cons, if_pos hc]
    exact List.cons_ne_nil _ _
  · rw [crlf_cons_of_ne hc]
    exact List.cons_ne_nil _ _

theorem mem_of_mem_lines {t line : Text} (hLine : line ∈ t.lines) {c : Char} (hc : c ∈ line) :
    c ∈ t := by
  induction t generalizing line with
  | nil =>
    obtain rfl : line = [] := by simpa [lines] using hLine
    cases hc
  | cons d ds ih =>
    obtain ⟨first, rest, hLines⟩ := exists_lines_eq_cons ds
    rw [hLines] at ih
    by_cases hd : d = '\n'
    · rw [hd, lines_newline_cons, hLines] at hLine
      rcases List.mem_cons.1 hLine with rfl | hLine
      · cases hc
      · exact List.mem_cons_of_mem d (ih hLine hc)
    · rw [lines_cons_of_ne hd hLines] at hLine
      rcases List.mem_cons.1 hLine with rfl | hLine
      · rcases List.mem_cons.1 hc with rfl | hc
        · exact List.mem_cons_self
        · exact List.mem_cons_of_mem d (ih List.mem_cons_self hc)
      · exact List.mem_cons_of_mem d (ih (List.mem_cons_of_mem first hLine) hc)

theorem splitReturn_of_notMem {line : Text} (h : '\r' ∉ line) : splitReturn line = (line, []) :=
  splitReturn_of_getLast?_ne fun hLast => h (List.mem_of_getLast? hLast)

theorem map_dropReturn_withReturns {lines' : List Text} (h : ∀ line ∈ lines', '\r' ∉ line) :
    (withReturns lines').map dropReturn = lines'.map dropReturn := by
  induction lines' with
  | nil => rfl
  | cons line rest ih =>
    obtain ⟨hLine, hRest⟩ := List.forall_mem_cons.1 h
    by_cases hNil : rest = []
    · subst hNil
      rfl
    · have hDrop : dropReturn (line ++ ['\r']) = dropReturn line := by
        rw [dropReturn, splitReturn_append_return, dropReturn, splitReturn_of_notMem hLine]
      rw [withReturns_cons hNil, List.map_cons, List.map_cons, hDrop, ih hRest]

end Text

/-! ## Both kinds of line ends -/

open Text (crlf withReturns)

theorem sameButReturns_crlf {text : Text} (h : '\r' ∉ text) : SameButReturns text.crlf text := by
  unfold SameButReturns
  rw [Text.lines_crlf]
  apply Text.map_dropReturn_withReturns
  intro line hLine hReturn
  exact h (Text.mem_of_mem_lines hLine hReturn)

theorem sketch_crlf {text : Text} (h : '\r' ∉ text) (entry : State) :
    (classify text.crlf entry).tokens.map (Token.sketch text.crlf) =
      (classify text entry).tokens.map (Token.sketch text) := by
  by_cases hNil : text = []
  · rw [hNil]
    rfl
  · exact (sameButReturns_crlf h).sketch_eq (Or.inl (Text.crlf_ne_nil hNil)) (Or.inl hNil)

namespace Indent

/-- Lines keep their carriage returns in their places. -/
theorem indented_withReturns (offset : Nat) (states : List State) (above : List Text)
    (entry : State) {lines : List Text} (h : ∀ line ∈ lines, '\r' ∉ line) :
    indented offset states above entry (withReturns lines) =
      withReturns (indented offset states above entry lines) := by
  induction lines generalizing above entry with
  | nil => rfl
  | cons line rest ih =>
    obtain ⟨hLine, hRest⟩ := List.forall_mem_cons.1 h
    by_cases hNil : rest = []
    · subst hNil
      rfl
    · have hBelow := ih (above ++ [place offset states above entry line]) (entry.next line) hRest
      have hNext : entry.next (line ++ ['\r']) = entry.next line :=
        State.next_append_blank rfl entry line
      have hSplit := Text.splitReturn_of_notMem hLine
      have hReturn := Text.splitReturn_append_return line
      have hIndented : indented offset states
          (above ++ [place offset states above entry line]) (entry.next line) rest ≠ [] := by
        intro hEmpty
        have hLength := length_indented offset states
          (above ++ [place offset states above entry line]) (entry.next line) rest
        rw [hEmpty] at hLength
        exact hNil (List.eq_nil_of_length_eq_zero hLength.symm)
      rw [Text.withReturns_cons hNil]
      simp only [indented, Text.dropReturn, Text.ending, hSplit, hReturn, hNext, List.append_nil]
      rw [hBelow, Text.withReturns_cons hIndented]

theorem reindent_crlf (offset : Nat) {text : Text} (h : '\r' ∉ text) :
    reindent offset text.crlf = crlf (reindent offset text) := by
  have hStates : lineStates text.crlf .normal = lineStates text .normal :=
    (sameButReturns_crlf h).lineStates_eq .normal
  have hIndented := indented_withReturns offset (lineStates text .normal) [] .normal
    fun line hLine hReturn => h (Text.mem_of_mem_lines hLine hReturn)
  rw [reindent_eq, hStates, Text.lines_crlf, hIndented, ← lines_reindent, ← Text.crlf_eq_ofLines]

/-- **Both kinds of line ends are treated alike.** Let a text have no carriage return, and put one
in front of each of its line feeds. The text is indented as before, with the carriage returns in
their places. In whatever state it is entered, its lines are entered in the same states as before,
its tokens have the same categories, the tokens that are neither comments nor strings cover the same
words, and the exit state is the same. -/
theorem crlf_treated_alike {text : Text} (h : '\r' ∉ text) :
    (∀ offset, reindent offset text.crlf = crlf (reindent offset text)) ∧
      ∀ entry,
        lineStates text.crlf entry = lineStates text entry ∧
        (classify text.crlf entry).tokens.map Token.kind =
          (classify text entry).tokens.map Token.kind ∧
        (∃ words : List Text,
          ((classify text.crlf entry).tokens.filter (!·.kind.isRegion)).map (·.text? text.crlf) =
            words.map some ∧
          ((classify text entry).tokens.filter (!·.kind.isRegion)).map (·.text? text) =
            words.map some) ∧
        (classify text.crlf entry).exit = (classify text entry).exit := by
  refine ⟨fun offset => reindent_crlf offset h, ?_⟩
  intro entry
  have hSame := sameButReturns_crlf h
  have hSketch := sketch_crlf h entry
  refine ⟨hSame.lineStates_eq entry, ?_, ?_, hSame.exit_eq entry⟩
  · rw [map_kind_eq_sketch text.crlf, map_kind_eq_sketch text, hSketch]
  · obtain ⟨words, hWords⟩ := exists_words text entry
    refine ⟨words, ?_, hWords⟩
    rw [map_text?_eq_sketch, hSketch, ← map_text?_eq_sketch, hWords]

/-- A line comment, an open string and a word at the ends of lines, entered inside a comment. -/
theorem crlf_treated_alike_behind_comment :
    let text : Text := "a */ do # b\nsay 'c\n'\nend\n".toList
    '\r' ∉ text ∧ reindent 2 text.crlf = crlf (reindent 2 text) ∧
      (classify text.crlf (.inside .comment)).tokens.map Token.kind =
        (classify text (.inside .comment)).tokens.map Token.kind := by
  intro text
  have hText : '\r' ∉ text := by decide
  obtain ⟨hIndented, hClassified⟩ := crlf_treated_alike hText
  exact ⟨hText, hIndented 2, (hClassified (.inside .comment)).2.1⟩

end Indent

end RexxEditing
