import RexxEditing.Proofs.Highlight.Spelling
import RexxEditing.Proofs.Highlight.Tiling
import RexxEditing.Proofs.Indent.Column
import RexxEditing.Proofs.Indent.Placement

/-! # What indenting keeps

Indenting changes nothing but the white space in front of lines that are entered in code. Such white
space has no part in the comments and strings of the text. Blanks have no part in any token, while
white space that is no blank is a token of its own, and gets lost.

* `Piece.ofCode_white_append`: white space in front of code, for whatever is read off the pieces.
* `filter_spellLines_indented`: the spelling of indented lines, as far as it is kept for each line.
* `reindent_preserves`: lines, line ends, comments, strings and, between blanks, all tokens.
* `nonWhite_reindent`: the characters that are not white.
-/

namespace RexxEditing

open Text (isWhite isBlank spaces)

/-! ## White space in front of code -/

namespace Piece

theorem ofCode_cons_blank {c : Char} (hc : Text.isBlank c = true) (cs : Text) :
    ofCode (c :: cs) =
      blank (c :: cs.takeWhile Text.isBlank) :: ofCode (cs.dropWhile Text.isBlank) := by
  rw [ofCode]
  simp only [Lexeme.first, Lexeme.rest, Lexeme.extent_of_isBlank hc, Lexeme.take_runLength,
    Lexeme.drop_runLength]
  rfl

theorem ofCode_cons_newline (cs : Text) : ofCode ('\n' :: cs) = blank ['\n'] :: ofCode cs := by
  rw [ofCode]
  rfl

theorem ofCode_cons_white {c : Char} (hc : isWhite c = true) (hSep : Text.isSeparator c = false)
    (cs : Text) : ofCode (c :: cs) = unknown [c] :: ofCode cs := by
  rw [ofCode]
  simp only [Lexeme.first, Lexeme.rest, Lexeme.extent_of_isWhite hc hSep]
  rfl

section Reading

variable {β : Type} (read : List Piece → β)

theorem ofCode_dropWhile_blank (hBlank : ∀ t pieces, read (blank t :: pieces) = read pieces)
    (code : Text) : read (ofCode (code.dropWhile Text.isBlank)) = read (ofCode code) := by
  cases code with
  | nil => rfl
  | cons c cs =>
    by_cases hc : Text.isBlank c = true
    · rw [ofCode_cons_blank hc, hBlank, List.dropWhile_cons_of_pos hc]
    · rw [List.dropWhile_cons_of_neg hc]

/-- **White space in front of code.** What is read off the pieces does not hang on it, if blank
pieces do not count and, where there are others, single unknown characters do not either. -/
theorem ofCode_white_append (hBlank : ∀ t pieces, read (blank t :: pieces) = read pieces)
    {front : Text} (hFront : ∀ c ∈ front, isWhite c = true)
    (hUnknown : (∀ c ∈ front, Text.isBlank c = true) ∨
      ∀ t pieces, read (unknown t :: pieces) = read pieces)
    (code : Text) : read (ofCode (front ++ code)) = read (ofCode code) := by
  induction front with
  | nil => rfl
  | cons c cs ih =>
    obtain ⟨hc, hcs⟩ := List.forall_mem_cons.1 hFront
    have hRest : (∀ c ∈ cs, Text.isBlank c = true) ∨
        ∀ t pieces, read (unknown t :: pieces) = read pieces :=
      hUnknown.imp_left fun h => (List.forall_mem_cons.1 h).2
    rw [List.cons_append]
    by_cases hcBlank : Text.isBlank c = true
    · rw [ofCode_cons_blank hcBlank, hBlank, ofCode_dropWhile_blank read hBlank, ih hcs hRest]
    · by_cases hFeed : c = '\n'
      · rw [hFeed, ofCode_cons_newline, hBlank, ih hcs hRest]
      · have hSep : Text.isSeparator c = false := by simp [Text.isSeparator, hcBlank, hFeed]
        rcases hUnknown with hAll | hUnknown
        · exact absurd (hAll c List.mem_cons_self) hcBlank
        · rw [ofCode_cons_white hc hSep, hUnknown, ih hcs hRest]

end Reading

/-! ### What is read off the pieces -/

theorem neighbour_append_blank (before : List Piece) (t : Text) :
    neighbour (before ++ [blank t]) = neighbour before := by
  induction before with
  | nil => rfl
  | cons piece rest ih =>
    cases piece with
    | blank text => simp only [List.cons_append, neighbour, ih]
    | _ => rfl

theorem spell_append_blank (before : List Piece) (t : Text) (pieces : List Piece) :
    spell (before ++ [blank t]) pieces = spell before pieces := by
  induction pieces generalizing before with
  | nil => rfl
  | cons piece rest ih =>
    have hKind : piece.kind? (before ++ [blank t]) rest = piece.kind? before rest := by
      cases piece with
      | code shape text => simp only [kind?, neighbour_append_blank]
      | _ => rfl
    have hRest := ih (piece :: before)
    rw [List.cons_append] at hRest
    rw [spell, spell, hKind, hRest]

/-- Blanks at the start of a line have no effect on its tokens: a piece is looked at from its
neighbours, blanks aside. -/
theorem spell_blank_cons (t : Text) (pieces : List Piece) :
    spell [] (blank t :: pieces) = spell [] pieces :=
  spell_append_blank [] t pieces

theorem isRegion_codeKind (shape : Lexeme.Shape) (text : Text) (before after : Option Neighbour) :
    (codeKind shape text before after).isRegion = false := by
  unfold codeKind
  split
  · rfl
  · rfl
  · split <;> rfl
  · simp only [symbolKind]
    repeat' split
    all_goals rfl
  · rfl

/-- Comments and strings are known without the pieces around them. -/
theorem filter_isRegion_spell (before before' pieces : List Piece) :
    (spell before pieces).filter (·.1.isRegion) = (spell before' pieces).filter (·.1.isRegion) := by
  induction pieces generalizing before before' with
  | nil => rfl
  | cons piece rest ih =>
    rw [spell, spell, List.filter_append, List.filter_append, ih (piece :: before)
      (piece :: before')]
    congr 1
    cases piece with
    | code shape text => simp [kind?, isRegion_codeKind]
    | _ => rfl

theorem opened_cons {piece : Piece} (h : piece.isComplete = true) (pieces : List Piece) :
    opened (piece :: pieces) = opened pieces := by
  cases pieces with
  | nil => cases piece <;> first | rfl | cases h
  | cons next rest => simp [opened, List.getLast?_cons_cons]

theorem state_opened (pieces : List Piece) : (opened pieces).state = exitState pieces := by
  unfold opened exitState
  cases pieces.getLast? with
  | none => rfl
  | some piece => cases piece <;> rfl

end Piece

/-! ## One line -/

namespace Indent

section Place

variable (offset : Nat) (states : List State) (above : List Text)

theorem place_inside {entry : State} (h : entry ≠ .normal) (line : Text) :
    place offset states above entry line = line := by
  cases entry with
  | normal => exact absurd rfl h
  | inside region => rfl

/-- A line and the line in its place have different white space in front of the same text. -/
theorem exists_place_front (line : Text) :
    ∃ column body, line = line.dropReturn.takeWhile isWhite ++ body ∧
      place offset states above .normal line.dropReturn ++ line.ending = spaces column ++ body := by
  have hParts : line.dropReturn.takeWhile isWhite ++ line.dropReturn.trimStart = line.dropReturn :=
    List.takeWhile_append_dropWhile
  have hLine : line = line.dropReturn.takeWhile isWhite ++
      (line.dropReturn.trimStart ++ line.ending) := by
    rw [← List.append_assoc, hParts, Text.dropReturn_append_ending]
  by_cases hBody : line.dropReturn.trimStart = []
  · refine ⟨0, _, hLine, ?_⟩
    rw [place_white _ _ _ hBody, hBody]
    rfl
  · rw [place_body _ _ _ hBody]
    exact ⟨_, _, hLine, List.append_assoc _ _ _⟩

variable {β : Type} (read : List Piece → β)

/-- What is read off the pieces of a line stays when the line is put in its place. -/
theorem read_place (hBlank : ∀ t pieces, read (.blank t :: pieces) = read pieces) {line : Text}
    (hUnknown : (∀ c ∈ line.dropReturn.takeWhile isWhite, isBlank c = true) ∨
      ∀ t pieces, read (.unknown t :: pieces) = read pieces) :
    read (Piece.ofCode (place offset states above .normal line.dropReturn ++ line.ending)) =
      read (Piece.ofCode line) := by
  obtain ⟨column, body, hLine, hPlaced⟩ := exists_place_front offset states above line
  have hFront : ∀ c ∈ line.dropReturn.takeWhile isWhite, isWhite c = true :=
    List.all_eq_true.1 List.all_takeWhile
  have hSpaces : ∀ c ∈ spaces column, isBlank c = true := by
    intro c hc
    rw [List.eq_of_mem_replicate hc]
    rfl
  have hBefore := Piece.ofCode_white_append read hBlank hFront hUnknown body
  have hAfter := Piece.ofCode_white_append read hBlank
    (fun c hc => Text.isWhite_of_isBlank (hSpaces c hc)) (Or.inl hSpaces) body
  rw [← hLine] at hBefore
  rw [hPlaced, hAfter, hBefore]

theorem opened_place (line : Text) :
    Piece.opened (Piece.ofCode (place offset states above .normal line.dropReturn ++ line.ending)) =
      Piece.opened (Piece.ofCode line) := by
  apply read_place offset states above Piece.opened
  · intro t pieces
    exact Piece.opened_cons rfl pieces
  · right
    intro t pieces
    exact Piece.opened_cons rfl pieces

theorem filter_isRegion_spell_place (line : Text) :
    (Piece.spell [] (Piece.ofCode
        (place offset states above .normal line.dropReturn ++ line.ending))).filter
        (·.1.isRegion) =
      (Piece.spell [] (Piece.ofCode line)).filter (·.1.isRegion) := by
  apply read_place offset states above fun pieces =>
    (Piece.spell [] pieces).filter (·.1.isRegion)
  · intro t pieces
    exact Piece.filter_isRegion_spell [.blank t] [] pieces
  · right
    intro t pieces
    exact Piece.filter_isRegion_spell [.unknown t] [] pieces

theorem spell_place {line : Text}
    (h : ∀ c ∈ line.dropReturn.takeWhile isWhite, isBlank c = true) :
    Piece.spell [] (Piece.ofCode
        (place offset states above .normal line.dropReturn ++ line.ending)) =
      Piece.spell [] (Piece.ofCode line) :=
  read_place offset states above (Piece.spell []) Piece.spell_blank_cons (Or.inl h)

end Place

/-! ## All lines -/

section Indented

variable (offset : Nat) (states : List State)

theorem length_indented (above : List Text) (entry : State) (lines : List Text) :
    (indented offset states above entry lines).length = lines.length := by
  induction lines generalizing above entry with
  | nil => rfl
  | cons line rest ih => simp only [indented, List.length_cons, ih]

theorem getElem?_indented (above : List Text) (entry : State) {lines : List Text} {i : Nat}
    {line : Text} (h : lines[i]? = some line) :
    ∃ above', (indented offset states above entry lines)[i]? =
      some (place offset states above' (entry.after (lines.take i)) line.dropReturn ++
        line.ending) := by
  induction lines generalizing above entry i with
  | nil => simp at h
  | cons first rest ih =>
    cases i with
    | zero =>
      obtain rfl : first = line := by simpa using h
      exact ⟨above, rfl⟩
    | succ i => exact ih _ (entry.next first) h

theorem after_indented (above : List Text) (entry : State) (lines : List Text) :
    entry.after (indented offset states above entry lines) = entry.after lines := by
  induction lines generalizing above entry with
  | nil => rfl
  | cons line rest ih =>
    have hNext := next_placed_append_ending offset states above entry line
    simp only [State.after, indented, List.foldl_cons, hNext] at ih ⊢
    exact ih _ _

theorem returnsLast_indented (above : List Text) (entry : State) {lines : List Text}
    (h : Text.ReturnsLast lines) :
    Text.ReturnsLast (indented offset states above entry lines) := by
  induction lines generalizing above entry with
  | nil => trivial
  | cons line rest ih =>
    have hPlaced (hLine : '\r' ∉ line.dropReturn) :
        '\r' ∉ place offset states above entry line.dropReturn := by
      intro hMem
      rcases mem_of_mem_place offset states above hMem with hSpace | hMem
      · cases hSpace
      · exact hLine hMem
    by_cases hRest : rest = []
    · subst hRest
      have hLine : '\r' ∉ line := h
      rw [← line.dropReturn_append_ending, List.mem_append, not_or] at hLine
      rw [indented, indented, Text.ReturnsLast, List.mem_append, not_or]
      exact ⟨hPlaced hLine.1, hLine.2⟩
    · obtain ⟨hLine, hRests⟩ := (Text.returnsLast_cons hRest).1 h
      have hBelow := ih (above ++ [place offset states above entry line.dropReturn])
        (entry.next line) hRests
      rw [indented, Text.returnsLast_cons, dropReturn_place]
      · exact ⟨hPlaced hLine, hBelow⟩
      · obtain ⟨next, more, rfl⟩ := List.exists_cons_of_ne_nil hRest
        exact List.cons_ne_nil _ _

theorem getLast?_indented (above : List Text) (entry : State) {lines : List Text}
    (h : lines.getLast? = some []) :
    (indented offset states above entry lines).getLast? = some [] := by
  rw [List.getLast?_eq_getElem?] at h
  obtain ⟨above', hPlaced⟩ := getElem?_indented offset states above entry h
  rw [List.getLast?_eq_getElem?, length_indented, hPlaced]
  congr 1
  generalize entry.after _ = entry'
  cases entry' with
  | normal => exact congrArg (· ++ []) (place_white _ _ _ Text.trimStart_nil)
  | inside region => rfl

/-- A line that is entered in a region stays as it is. -/
theorem indented_inside (above : List Text) (region : Region) (line : Text) (rest : List Text) :
    indented offset states above (.inside region) (line :: rest) =
      line :: indented offset states (above ++ [line.dropReturn]) (State.next (.inside region) line)
        rest := by
  simp only [indented, place, Text.dropReturn_append_ending]

/-- **Spelling of indented lines.** Words of some kind that stay on each line that is entered in
code stay in all of the spelling. -/
theorem filter_spellLines_indented (keep : Kind × Text → Bool) (above : List Text) (opened : Opened)
    {lines : List Text}
    (hCode : ∀ (i : Nat) line, lines[i]? = some line →
      (opened.state.sequence lines)[i]? = some .normal → ∀ above,
      (Piece.spell [] (Piece.ofCode
          (place offset states above .normal line.dropReturn ++ line.ending))).filter keep =
        (Piece.spell [] (Piece.ofCode line)).filter keep) :
    (spellLines opened (indented offset states above opened.state lines)).filter keep =
      (spellLines opened lines).filter keep := by
  induction lines generalizing above opened with
  | nil => rfl
  | cons line rest ih =>
    have hBelow : ∀ above (opened' : Opened), opened.state.next line = opened'.state →
        (spellLines opened' (indented offset states above (opened.state.next line) rest)).filter
            keep = (spellLines opened' rest).filter keep := by
      intro above opened' hState
      rw [hState]
      apply ih above opened'
      intro i line' hLine hNormal
      rw [← hState] at hNormal
      exact hCode (i + 1) line' hLine hNormal
    cases opened with
    | none =>
      have hLine := hCode 0 line rfl rfl above
      have hState : State.next .normal line = (Piece.opened (Piece.ofCode line)).state :=
        (Piece.state_opened _).symm
      simp only [Opened.state, indented, spellLines, List.filter_append]
      rw [opened_place, hLine]
      exact congrArg _ (hBelow _ _ hState)
    | some open' =>
      obtain ⟨region, waiting⟩ := open'
      simp only [Opened.state] at hBelow
      simp only [Opened.state, indented_inside, spellLines]
      cases hLength : region.length? line with
      | none =>
        apply hBelow
        rw [State.next_inside, hLength]
      | some n =>
        have hState : State.next (.inside region) line =
            (Piece.opened (Piece.ofCode (line.drop n))).state := by
          rw [State.next_inside, hLength]
          exact (Piece.state_opened _).symm
        simp only [List.filter_cons, List.filter_append]
        rw [hBelow _ _ hState]

end Indented

/-! ## The text -/

/-- The categories of the tokens of a text, and what they cover in it. -/
def readings (text : Text) : List (Kind × Option Text) :=
  (classify text .normal).tokens.map (Token.reading text)

/-- Words that stay on each line that is entered in code stay in the tokens of the text. -/
theorem filter_readings_reindent (keep : Kind → Bool) (offset : Nat) {text : Text}
    (hCode : ∀ (i : Nat) line, text.lines[i]? = some line →
      (lineStates text .normal)[i]? = some .normal → ∀ above,
      (Piece.spell [] (Piece.ofCode (place offset (lineStates text .normal) above .normal
          line.dropReturn ++ line.ending))).filter (fun word => keep word.1) =
        (Piece.spell [] (Piece.ofCode line)).filter fun word => keep word.1) :
    (readings (reindent offset text)).filter (fun word => keep word.1) =
      (readings text).filter fun word => keep word.1 := by
  obtain ⟨line, rest, hLines⟩ := text.exists_lines_eq_cons
  have hIndented := lines_reindent offset text
  have hSpelled := filter_spellLines_indented offset (lineStates text .normal)
    (fun word => keep word.1) [] none hCode
  rw [hLines] at hIndented hSpelled
  rw [readings, readings, map_reading_classify hLines, map_reading_classify hIndented,
    List.filter_map, List.filter_map]
  exact congrArg _ hSpelled

/-- **Indenting preserves the program.** An indented text has as many lines as before. A line that
is entered in a region stays as it is. Any other line keeps its text from the first character on
that is not white, and its line end; if there is no such character, nothing but the line end is
left. The exit state stays, and so do the comments and strings. If nothing but blanks stands in
front of the lines that are entered in code, all tokens stay. -/
theorem reindent_preserves (offset : Nat) (text : Text) :
    let result := reindent offset text
    result.lines.length = text.lines.length ∧
      (∀ (i : Nat) (line : Text) (entry : State), text.lines[i]? = some line →
        (lineStates text .normal)[i]? = some entry →
        ∃ line', result.lines[i]? = some line' ∧
          (entry ≠ .normal → line' = line) ∧
          (entry = .normal → line.dropReturn.isAllWhite = true → line' = line.ending) ∧
          (entry = .normal → line.dropReturn.isAllWhite = false →
            ∃ column, line' = spaces column ++ line.dropReturn.trimStart ++ line.ending)) ∧
      (classify result .normal).exit = (classify text .normal).exit ∧
      (readings result).filter (·.1.isRegion) = (readings text).filter (·.1.isRegion) ∧
      ((∀ (i : Nat) (line : Text), text.lines[i]? = some line →
          (lineStates text .normal)[i]? = some .normal →
          ∀ c ∈ line.takeWhile isWhite, isBlank c = true) →
        readings result = readings text) := by
  intro result
  have hLines : result.lines = indented offset (lineStates text .normal) [] .normal text.lines :=
    lines_reindent offset text
  refine ⟨?_, ?_, ?_, ?_, ?_⟩
  · rw [hLines, length_indented]
  · intro i line entry hLine hEntry
    obtain ⟨above, hPlaced⟩ := getElem?_indented offset (lineStates text .normal) [] .normal hLine
    have hState : (lineStates text .normal)[i]? = some (State.after .normal (text.lines.take i)) :=
      State.sequence_getElem? .normal hLine
    obtain rfl : State.after .normal (text.lines.take i) = entry := by
      rw [hState] at hEntry
      exact Option.some.inj hEntry
    refine ⟨_, hLines ▸ hPlaced, ?_, ?_, ?_⟩
    · intro hInside
      rw [place_inside _ _ _ hInside, Text.dropReturn_append_ending]
    · intro hNormal hWhite
      rw [hNormal, place_white _ _ _ (Text.trimStart_eq_nil_iff.2 hWhite), List.nil_append]
    · intro hNormal hBody
      have hTrim : line.dropReturn.trimStart ≠ [] := by
        intro hNil
        rw [Text.trimStart_eq_nil_iff.1 hNil] at hBody
        cases hBody
      rw [hNormal, place_body _ _ _ hTrim]
      exact ⟨_, rfl⟩
  · rw [classify_eq, classify_eq, hLines]
    exact after_indented offset _ [] .normal text.lines
  · apply filter_readings_reindent Kind.isRegion
    intro i line _ _ above
    exact filter_isRegion_spell_place offset _ above line
  · intro hBlank
    have hAll : (readings result).filter (fun _ => true) =
        (readings text).filter fun _ => true := by
      apply filter_readings_reindent fun _ => true
      intro i line hLine hNormal above
      rw [spell_place]
      intro c hc
      apply hBlank i line hLine hNormal c
      rw [← line.dropReturn_append_ending]
      exact (Text.takeWhile_isWhite_prefix_append _ _).mem hc
    rwa [List.filter_true, List.filter_true] at hAll

/-! ## Characters -/

theorem nonWhite_ofLines (lines : List Text) :
    Text.nonWhite (Text.ofLines lines) = lines.flatMap Text.nonWhite := by
  induction lines with
  | nil => rfl
  | cons line rest ih =>
    by_cases hRest : rest = []
    · subst hRest
      simp [Text.ofLines]
    · have hFeed : Text.nonWhite ('\n' :: Text.ofLines rest) = Text.nonWhite (Text.ofLines rest) :=
        rfl
      rw [Text.ofLines_cons hRest, Text.nonWhite_append, hFeed, ih, List.flatMap_cons]

theorem nonWhite_place (offset : Nat) (states : List State) (above : List Text) (entry : State)
    (line : Text) : Text.nonWhite (place offset states above entry line) = line.nonWhite := by
  cases entry with
  | inside region => rfl
  | normal =>
    by_cases hTrim : line.trimStart = []
    · rw [place_white _ _ _ hTrim, ← Text.nonWhite_trimStart line, hTrim]
    · rw [place_body _ _ _ hTrim, Text.nonWhite_append,
        Text.nonWhite_of_white fun _ => Text.isWhite_of_mem_spaces, List.nil_append,
        Text.nonWhite_trimStart]

theorem flatMap_nonWhite_indented (offset : Nat) (states : List State) (above : List Text)
    (entry : State) (lines : List Text) :
    (indented offset states above entry lines).flatMap Text.nonWhite =
      lines.flatMap Text.nonWhite := by
  induction lines generalizing above entry with
  | nil => rfl
  | cons line rest ih =>
    rw [indented, List.flatMap_cons, List.flatMap_cons, ih, Text.nonWhite_append, nonWhite_place,
      ← Text.nonWhite_append, Text.dropReturn_append_ending]

/-- Indenting neither loses nor adds a character that is not white. -/
theorem nonWhite_reindent (offset : Nat) (text : Text) :
    Text.nonWhite (reindent offset text) = text.nonWhite := by
  have hLines := nonWhite_ofLines text.lines
  rw [Text.ofLines_lines] at hLines
  rw [reindent_eq, nonWhite_ofLines, flatMap_nonWhite_indented, hLines]

end Indent

end RexxEditing
