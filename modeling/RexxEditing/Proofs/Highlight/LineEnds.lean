import RexxEditing.Proofs.Highlight.Restart
import RexxEditing.Proofs.Session.Body

/-! # Carriage returns at the ends of lines

A carriage return at the end of a line is a blank there. It is a piece of its own, or it goes on a
piece that has no end on its line: a run of blanks, a line comment or an open region. So two texts
whose lines differ only in such carriage returns have tokens of the same categories, and only
comments and strings may cover more in one of them.

* `Piece.blankAdded_ofCode`: what a blank at the end does to the pieces of code.
* `map_sketch_spellLines_dropReturn`: the spelling of lines, comments and strings left open.
* `map_sketch_classify`: the tokens of a text that is entered in any state, by its spelling.
* `SameButReturns`: what two texts with the same lines have in common, whatever their line ends.
-/

namespace RexxEditing

open Text (isBlank dropReturn)

/-! ## Pieces -/

namespace Piece

/-- The pieces of a line, and those of the line with one more blank at its end. -/
inductive BlankAdded (b : Char) : List Piece → List Piece → Prop where
  | alone : BlankAdded b [] [blank [b]]
  | blank (t : Text) : BlankAdded b [blank t] [blank (t ++ [b])]
  | lineComment (t : Text) : BlankAdded b [lineComment t] [lineComment (t ++ [b])]
  | unclosed (region : Region) (t : Text) :
      BlankAdded b [unclosed region t] [unclosed region (t ++ [b])]
  | cons (piece : Piece) {pieces pieces' : List Piece} (h : BlankAdded b pieces pieces') :
      BlankAdded b (piece :: pieces) (piece :: pieces')

theorem ofCode_of_extent {c : Char} {cs : Text}
    (h : Lexeme.extent c cs = (some .blank, cs.length)) : ofCode (c :: cs) = [blank (c :: cs)] := by
  rw [ofCode]
  simp only [Lexeme.first, Lexeme.rest, h, List.take_length, List.drop_length]
  rw [ofCode]
  rfl

/-- **A blank at the end of code.** -/
theorem blankAdded_ofCode {b : Char} (hb : Text.isBlank b = true) (code : Text) :
    BlankAdded b (ofCode code) (ofCode (code ++ [b])) := by
  induction hLength : code.length using Nat.strongRecOn generalizing code with
  | ind length ih =>
    subst hLength
    cases code with
    | nil =>
      rw [List.nil_append, ofCode_cons_blank hb, ofCode, List.dropWhile_nil, ofCode]
      exact .alone
    | cons c cs =>
      rw [List.cons_append]
      rcases Lexeme.extent_append_blank hb c cs with hSame | ⟨hBefore, hAfter⟩
      · -- the first lexeme stays, and the blank goes to the end of the rest
        obtain ⟨hFirst, hRest⟩ := Lexeme.first_append_of_extent hSame
        have hLess := Lexeme.length_rest_lt c cs
        rw [ofCode, ofCode, hFirst, hRest]
        generalize Lexeme.rest c cs = rest at hLess ⊢
        generalize Lexeme.first c cs = lexeme
        cases lexeme.shape? with
        | none => exact .cons _ (ih _ hLess rest rfl)
        | some shape =>
          simp only [Region.startsLineComment_append_blank hb]
          cases shape.region? with
          | none =>
            simp only
            split
            · rw [← List.append_assoc]
              exact .lineComment _
            · split <;> exact .cons _ (ih _ hLess rest rfl)
          | some region =>
            simp only [Region.length?_append_blank hb]
            cases hEnd : region.length? rest with
            | none =>
              simp only
              rw [← List.append_assoc]
              exact .unclosed region _
            | some n =>
              have hLe := (Region.length?_bounds hEnd).2
              simp only [List.take_append_of_le_length hLe, List.drop_append_of_le_length hLe]
              refine .cons _ (ih _ ?_ (rest.drop n) rfl)
              rw [List.length_drop]
              omega
      · -- all of the code is blank
        have hLonger : Lexeme.extent c (cs ++ [b]) = (some .blank, (cs ++ [b]).length) := by
          rw [hAfter, List.length_append, List.length_singleton]
        rw [ofCode_of_extent hBefore, ofCode_of_extent hLonger]
        exact .blank (c :: cs)

/-- What a neighbour on the right has to do with a category. -/
def Neighbour.look (n : Neighbour) : Option Lexeme.Shape × Bool := (n.piece.shape?, n.apart)

theorem codeKind_congr (shape : Lexeme.Shape) (word : Text) (before : Option Neighbour)
    {after after' : Option Neighbour} (h : after.map Neighbour.look = after'.map Neighbour.look) :
    codeKind shape word before after = codeKind shape word before after' := by
  have hAny (p : Option Lexeme.Shape × Bool → Bool) :
      after.any (p ·.look) = after'.any (p ·.look) := by
    have hMapped := congrArg (Option.any p) h
    rwa [Option.any_map, Option.any_map] at hMapped
  have hGlued := hAny fun look => look.1 == some .symbol && !look.2
  have hColon := hAny fun look => look.1 == some .colon
  cases shape with
  | number => exact congrArg (fun glued : Bool => if glued then Kind.plainText else .number) hGlued
  | symbol =>
    have hColon' : after.any (·.hasShape .colon) = after'.any (·.hasShape .colon) := hColon
    simp only [codeKind, symbolKind, hColon']
  | _ => rfl

namespace BlankAdded

variable {b : Char} {pieces pieces' : List Piece}

theorem look_neighbour (h : BlankAdded b pieces pieces') :
    (neighbour pieces').map Neighbour.look = (neighbour pieces).map Neighbour.look := by
  induction h with
  | alone => rfl
  | blank t => rfl
  | lineComment t => rfl
  | unclosed region t => rfl
  | @cons piece pieces pieces' _ ih =>
    cases piece with
    | blank t =>
      have hApart :=
        congrArg (Option.map fun look : Option Lexeme.Shape × Bool => (look.1, true)) ih
      rw [Option.map_map, Option.map_map] at hApart
      rw [neighbour, neighbour, Option.map_map, Option.map_map]
      exact hApart
    | _ => rfl

theorem kind?_eq (h : BlankAdded b pieces pieces') (piece : Piece) (before : List Piece) :
    piece.kind? before pieces' = piece.kind? before pieces := by
  cases piece with
  | code shape word => exact congrArg some (codeKind_congr shape word _ h.look_neighbour)
  | _ => rfl

theorem map_sketch_spell (h : BlankAdded b pieces pieces') (before : List Piece) :
    (spell before pieces').map sketch = (spell before pieces).map sketch := by
  induction h generalizing before with
  | alone => rfl
  | blank t => rfl
  | lineComment t => rfl
  | unclosed region t => rfl
  | cons piece h ih =>
    rw [spell, spell, h.kind?_eq, List.map_append, List.map_append, ih]

end BlankAdded

/-! ### Line ends -/

section Ending

variable {ending : Text} (hEnding : ending = ['\r'] ∨ ending = [])
include hEnding

theorem map_sketch_spell_append_ending (before : List Piece) (code : Text) :
    (spell before (ofCode (code ++ ending))).map sketch =
      (spell before (ofCode code)).map sketch := by
  rcases hEnding with rfl | rfl
  · exact (blankAdded_ofCode rfl code).map_sketch_spell before
  · rw [List.append_nil]

theorem state_opened_append_ending (code : Text) :
    (opened (ofCode (code ++ ending))).state = (opened (ofCode code)).state := by
  rcases hEnding with rfl | rfl
  · have hNext : State.next .normal (code ++ ['\r']) = State.next .normal code :=
      State.next_append_blank rfl .normal code
    rw [state_opened, state_opened]
    exact hNext
  · rw [List.append_nil]

end Ending

end Piece

/-! ## Lines -/

/-- A region goes on after a line with or without its carriage return, or ends at the same place of
it. -/
theorem Region.length?_dropReturn (region : Region) (line : Text) :
    region.length? line.dropReturn = region.length? line := by
  have hLine := line.dropReturn_append_ending
  rcases line.ending_cases with hEnding | hEnding
  · have hBlank := region.length?_append_blank (rfl : isBlank '\r' = true) line.dropReturn
    rw [← hEnding, hLine] at hBlank
    exact hBlank.symm
  · rw [hEnding, List.append_nil] at hLine
    rw [hLine]

/-- **Spelling without carriage returns.** The regions that are open in front of the lines may have
different texts. -/
theorem map_sketch_spellLines_dropReturn {opened opened' : Opened}
    (h : opened.state = opened'.state) (lines : List Text) :
    (spellLines opened (lines.map dropReturn)).map sketch =
      (spellLines opened' lines).map sketch := by
  induction lines generalizing opened opened' with
  | nil =>
    obtain ⟨rfl, rfl⟩ | ⟨region, text, text', rfl, rfl⟩ := Opened.cases_of_state_eq h
    · rfl
    · show [sketch (region.kind, text)] = [sketch (region.kind, text')]
      rw [sketch_region, sketch_region]
  | cons line rest ih =>
    have hEnding := line.ending_cases
    have hLine := line.dropReturn_append_ending
    rw [List.map_cons]
    obtain ⟨rfl, rfl⟩ | ⟨region, text, text', rfl, rfl⟩ := Opened.cases_of_state_eq h
    · have hSpell := Piece.map_sketch_spell_append_ending hEnding [] line.dropReturn
      have hState := Piece.state_opened_append_ending hEnding line.dropReturn
      rw [hLine] at hSpell hState
      rw [spellLines, spellLines, List.map_append, List.map_append, hSpell, ih hState.symm]
    · have hLength := region.length?_dropReturn line
      cases hEnd : region.length? line with
      | none =>
        rw [hEnd] at hLength
        simp only [spellLines, hEnd, hLength]
        exact ih rfl
      | some n =>
        -- the end of the region is in front of the carriage return
        rw [hEnd] at hLength
        have hLe := (Region.length?_bounds hLength).2
        have hTake : (line.dropReturn ++ line.ending).take n = line.dropReturn.take n :=
          List.take_append_of_le_length hLe
        have hDrop : (line.dropReturn ++ line.ending).drop n =
            line.dropReturn.drop n ++ line.ending :=
          List.drop_append_of_le_length hLe
        rw [hLine] at hTake hDrop
        have hSpell := Piece.map_sketch_spell_append_ending hEnding
          [.closed region (line.dropReturn.take n)] (line.dropReturn.drop n)
        have hState := Piece.state_opened_append_ending hEnding (line.dropReturn.drop n)
        simp only [spellLines, hEnd, hLength, hTake, hDrop, List.map_cons, List.map_append,
          sketch_region, hSpell, ih hState.symm]

/-! ## Texts that are entered in any state -/

/-- The category of a token, and what it covers unless it is a comment or a string. -/
def Token.sketch (source : Text) (t : Token) : Kind × Option Text :=
  (t.kind, if t.kind.isRegion then none else t.text? source)

/-- The region in which a text is entered. None of it is in front of the text. -/
def State.opened : State → Opened
  | .normal => none
  | .inside region => some (region, [])

theorem Token.map_sketch_of_reading {source : Text} {tokens : List Token}
    {words : List (Kind × Text)}
    (h : tokens.map (Token.reading source) = words.map fun (kind, word) => (kind, some word)) :
    tokens.map (Token.sketch source) = words.map RexxEditing.sketch := by
  have hMapped := congrArg (List.map fun read : Kind × Option Text =>
    (read.1, if read.1.isRegion then none else read.2)) h
  rwa [List.map_map, List.map_map] at hMapped

theorem Token.sketch_shift (t : Token) (source : Text) :
    Token.sketch ('\n' :: source) (t.shift 1) = Token.sketch source t := by
  have hCut (n : Nat) : Text.cut? ('\n' :: source) (n + 1) =
      (source.cut? n).map fun cut => ('\n' :: cut.1, cut.2) :=
    if_pos (Nat.le_add_left 1 n)
  have hText : (t.shift 1).text? ('\n' :: source) = t.text? source := by
    simp only [text?, Span.text?, Token.shift, Span.shift, Text.slice?, hCut,
      Nat.add_le_add_iff_right, Nat.add_sub_add_right]
    cases source.cut? t.span.start <;> rfl
  rw [sketch, sketch, hText]
  rfl

/-- A text inside a region has the tokens that it has behind a line feed in that region. -/
theorem map_sketch_classify_inside {text : Text} (hne : text ≠ []) (region : Region) :
    (classify text (.inside region)).tokens.map (Token.sketch text) =
      (spellLines (some (region, [])) text.lines).map sketch := by
  obtain ⟨stop, rest, hText, hBelow⟩ := tokensFrom_lines_inside hne Nat.zero_lt_one region
  obtain ⟨line, below, hLines⟩ := text.exists_lines_eq_cons
  have hSource : '\n' :: text = [] ++ [] ++ Text.feedBefore (line :: below) := by
    rw [← Text.ofLines_lines text, hLines, Text.ofLines_cons_eq]
    rfl
  have hSize : Text.byteSize ('\n' :: text) = 1 + text.byteSize := rfl
  have hRead : (tokensFrom 1 ⟨.inside region, some 0⟩ text.lines (1 + text.byteSize)).map
        (Token.reading ('\n' :: text)) =
      (spellLines (some (region, [])) text.lines).map fun (kind, word) => (kind, some word) := by
    rw [hLines, ← hSize]
    cases hLength : region.length? line with
    | none => exact (spelledFrom _ below).cons_unclosed hLength hSource
    | some n => exact (spelledFrom _ below).cons_closed hLength hSource
  have hKind : region.kind.isRegion = true := by cases region <;> rfl
  have hFirst : Token.sketch ('\n' :: text) ⟨region.kind, 0, 1 + stop⟩ =
      Token.sketch text ⟨region.kind, 0, stop⟩ := by
    simp only [Token.sketch, hKind, if_true]
  rw [← Token.map_sketch_of_reading hRead, hBelow, hText, List.map_cons, List.map_cons, hFirst,
    List.map_map]
  congr 1
  apply List.map_congr_left
  intro t _
  exact (t.sketch_shift text).symm

/-- **Tokens of a text in any state**, comments and strings left open. -/
theorem map_sketch_classify {text : Text} {entry : State} (h : text ≠ [] ∨ entry = .normal) :
    (classify text entry).tokens.map (Token.sketch text) =
      (spellLines entry.opened text.lines).map sketch := by
  cases entry with
  | normal => exact Token.map_sketch_of_reading (Indent.readings_eq_spellLines text)
  | inside region => exact map_sketch_classify_inside (h.resolve_right (by simp)) region

theorem map_kind_eq_sketch (source : Text) (tokens : List Token) :
    tokens.map Token.kind = (tokens.map (Token.sketch source)).map Prod.fst := by
  rw [List.map_map]
  rfl

theorem map_text?_eq_sketch (source : Text) (tokens : List Token) :
    (tokens.filter (!·.kind.isRegion)).map (·.text? source) =
      ((tokens.map (Token.sketch source)).filter (!·.1.isRegion)).map Prod.snd := by
  rw [List.filter_map, List.map_map]
  apply List.map_congr_left
  intro t ht
  have hKind : t.kind.isRegion = false := by simpa using (List.mem_filter.1 ht).2
  simp only [Function.comp_apply, Token.sketch, hKind]
  rfl

/-- Every token that is neither a comment nor a string covers a word of the text. -/
theorem exists_words (text : Text) (entry : State) :
    ∃ words : List Text, ((classify text entry).tokens.filter (!·.kind.isRegion)).map
      (·.text? text) = words.map some := by
  by_cases h : text ≠ [] ∨ entry = .normal
  · refine ⟨((spellLines entry.opened text.lines).filter (!·.1.isRegion)).map Prod.snd, ?_⟩
    rw [map_text?_eq_sketch, map_sketch_classify h, List.filter_map, List.map_map, List.map_map]
    apply List.map_congr_left
    intro word hWord
    have hKind : word.1.isRegion = false := by simpa [sketch] using (List.mem_filter.1 hWord).2
    simp only [Function.comp_apply, sketch, hKind]
    rfl
  · obtain ⟨hNil, -⟩ := not_or.1 h
    rw [not_not.1 hNil, classify_nil]
    exact ⟨[], rfl⟩

/-! ## Texts with the same lines -/

/-- Whether two texts have the same lines up to carriage returns at their ends. -/
def SameButReturns (text text' : Text) : Prop :=
  text.lines.map dropReturn = text'.lines.map dropReturn

namespace SameButReturns

variable {text text' : Text} (h : SameButReturns text text')
include h

theorem lineStates_eq (entry : State) : lineStates text entry = lineStates text' entry := by
  rw [lineStates, lineStates, ← State.sequence_map_dropReturn,
    ← State.sequence_map_dropReturn entry text'.lines]
  exact congrArg _ h

theorem exit_eq (entry : State) : (classify text entry).exit = (classify text' entry).exit := by
  have hDrop (lines : List Text) : entry.after (lines.map dropReturn) = entry.after lines := by
    unfold State.after
    rw [List.foldl_map]
    congr 1
    funext state line
    exact state.next_dropReturn line
  rw [classify_eq, classify_eq]
  show entry.after text.lines = entry.after text'.lines
  rw [← hDrop, ← hDrop text'.lines]
  exact congrArg _ h

/-- The tokens of both texts are read alike, unless one of them is empty and in a region. -/
theorem sketch_eq {entry : State} (hText : text ≠ [] ∨ entry = .normal)
    (hText' : text' ≠ [] ∨ entry = .normal) :
    (classify text entry).tokens.map (Token.sketch text) =
      (classify text' entry).tokens.map (Token.sketch text') := by
  have hSpelled := map_sketch_spellLines_dropReturn (rfl : entry.opened.state = _) text.lines
  have hSpelled' := map_sketch_spellLines_dropReturn (rfl : entry.opened.state = _) text'.lines
  rw [map_sketch_classify hText, map_sketch_classify hText', ← hSpelled, ← hSpelled']
  exact congrArg _ (congrArg _ h)

end SameButReturns

end RexxEditing
