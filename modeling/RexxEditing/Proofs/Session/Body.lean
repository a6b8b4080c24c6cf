import Mathlib.Data.List.DropRight
import RexxEditing.Proofs.Indent.Preservation

/-! # Lines up to their indentation

The body of a line is what stands behind the spaces and tabs at its start. The lines of two texts
with the same bodies are entered in the same states, and their tokens have the same categories in
the same order. What comments and strings cover may differ, since a line that is entered in a region
gives all of its spaces and tabs to it.

* `Region.length?_body`: a region ends at the same place of a line and of its body.
* `State.next_body`: a line and its body have the same effect on the lines below.
* `map_sketch_spellLines_body`: the spelling of lines, comments and strings left open.
* `SameBodies`: what two texts with the same bodies have in common.
-/

namespace RexxEditing

open Text (isBlank)

/-! ## Bodies -/

/-- The line from its first character on that is neither a space nor a tab. -/
def Text.body (line : Text) : Text := line.dropWhile fun c => c == ' ' || c == '\t'

theorem Text.exists_front_body (line : Text) :
    ∃ front, (∀ c ∈ front, isBlank c = true) ∧ line = front ++ line.body := by
  refine ⟨line.takeWhile fun c => c == ' ' || c == '\t', ?_,
    List.takeWhile_append_dropWhile.symm⟩
  intro c hc
  have hGap := List.all_eq_true.1 List.all_takeWhile c hc
  simp only [Bool.or_eq_true, beq_iff_eq] at hGap
  rcases hGap with rfl | rfl <;> rfl

theorem Text.body_spaces_append (n : Nat) (t : Text) : body (spaces n ++ t) = body t := by
  apply List.dropWhile_append_of_pos
  intro c hc
  rw [List.eq_of_mem_replicate hc]
  rfl

theorem Text.body_body (line : Text) : line.body.body = line.body :=
  List.dropWhile_idempotent _ line

/-! ## One line -/

theorem Region.length?_blank_cons {c : Char} (hc : isBlank c = true) (region : Region) (t : Text) :
    region.length? (c :: t) = (region.length? t).map (· + 1) := by
  cases region with
  | comment =>
    apply commentLength?_cons
    rintro rest rfl
    cases hc
  | string quote =>
    have hQuote : c ≠ quote.char := by
      rintro rfl
      cases quote <;> cases hc
    cases t <;> simp [length?, stringLength?, hQuote]

theorem Region.length?_blank_append {front : Text} (h : ∀ c ∈ front, isBlank c = true)
    (region : Region) (t : Text) :
    region.length? (front ++ t) = (region.length? t).map (· + front.length) := by
  induction front with
  | nil => simp
  | cons c cs ih =>
    obtain ⟨hc, hcs⟩ := List.forall_mem_cons.1 h
    rw [List.cons_append, length?_blank_cons hc, ih hcs, Option.map_map]
    rfl

/-- A region goes on after both a line and its body, or leaves the same code of them. -/
theorem Region.length?_body (region : Region) (line : Text) :
    (region.length? line = none ∧ region.length? line.body = none) ∨
      ∃ n m, region.length? line = some n ∧ region.length? line.body = some m ∧
        line.drop n = line.body.drop m := by
  obtain ⟨front, hFront, hLine⟩ := line.exists_front_body
  have hLength := region.length?_blank_append hFront line.body
  rw [← hLine] at hLength
  cases hBody : region.length? line.body with
  | none =>
    rw [hBody] at hLength
    exact Or.inl ⟨hLength, rfl⟩
  | some m =>
    rw [hBody] at hLength
    refine Or.inr ⟨m + front.length, m, hLength, rfl, ?_⟩
    conv => lhs; rw [hLine]
    rw [Nat.add_comm, ← List.drop_drop, List.drop_left]

/-- **A line and its body** hand on the same state. -/
theorem State.next_body (entry : State) (line : Text) : entry.next line.body = entry.next line := by
  cases entry with
  | normal =>
    obtain ⟨front, hFront, hLine⟩ := line.exists_front_body
    have hNext := State.next_white_append
      (fun c hc => Text.isWhite_of_isBlank (hFront c hc)) line.body
    rw [← hLine] at hNext
    exact hNext.symm
  | inside region =>
    rw [next_inside, next_inside]
    rcases region.length?_body line with ⟨hLine, hBody⟩ | ⟨n, m, hLine, hBody, hCode⟩
    · rw [hLine, hBody]
    · rw [hLine, hBody]
      exact congrArg (State.next .normal) hCode.symm

theorem State.sequence_map_body (entry : State) (lines : List Text) :
    entry.sequence (lines.map Text.body) = entry.sequence lines := by
  induction lines generalizing entry with
  | nil => rfl
  | cons line rest ih => rw [List.map_cons, sequence, sequence, next_body, ih]

theorem State.after_map_body (entry : State) (lines : List Text) :
    entry.after (lines.map Text.body) = entry.after lines := by
  induction lines generalizing entry with
  | nil => rfl
  | cons line rest ih =>
    show (entry.next line.body).after (rest.map Text.body) = (entry.next line).after rest
    rw [next_body, ih]

namespace Piece

theorem read_ofCode_body {β : Type} (read : List Piece → β)
    (hBlank : ∀ t pieces, read (blank t :: pieces) = read pieces) (line : Text) :
    read (ofCode line.body) = read (ofCode line) := by
  obtain ⟨front, hFront, hLine⟩ := line.exists_front_body
  have hRead := ofCode_white_append read hBlank
    (fun c hc => Text.isWhite_of_isBlank (hFront c hc)) (Or.inl hFront) line.body
  rw [← hLine] at hRead
  exact hRead.symm

/-! ## The region in front of code

Code may follow the end of a region. The text of the region has no part in the categories of the
code behind it. -/

theorem neighbour_append_closed (before : List Piece) :
    (∃ n, ∀ region text, neighbour (before ++ [closed region text]) = some n) ∨
      ∃ apart, ∀ region text,
        neighbour (before ++ [closed region text]) = some ⟨closed region text, apart⟩ := by
  induction before with
  | nil => exact Or.inr ⟨false, fun _ _ => rfl⟩
  | cons piece rest ih =>
    cases piece with
    | blank text =>
      rcases ih with ⟨n, hn⟩ | ⟨apart, hApart⟩
      · refine Or.inl ⟨{ n with apart := true }, ?_⟩
        intro region text
        rw [List.cons_append, neighbour, hn, Option.map_some]
      · refine Or.inr ⟨true, ?_⟩
        intro region text
        rw [List.cons_append, neighbour, hApart, Option.map_some]
    | _ => exact Or.inl ⟨⟨_, false⟩, fun _ _ => rfl⟩

theorem codeKind_closed (shape : Lexeme.Shape) (word : Text) (region region' : Region)
    (text text' : Text) (apart : Bool) (after : Option Neighbour) :
    codeKind shape word (some ⟨closed region text, apart⟩) after =
      codeKind shape word (some ⟨closed region' text', apart⟩) after := by
  cases shape <;> rfl

theorem spell_append_closed (before : List Piece) (region : Region) (text text' : Text)
    (pieces : List Piece) :
    spell (before ++ [closed region text]) pieces =
      spell (before ++ [closed region text']) pieces := by
  induction pieces generalizing before with
  | nil => rfl
  | cons piece rest ih =>
    have hKind : piece.kind? (before ++ [closed region text]) rest =
        piece.kind? (before ++ [closed region text']) rest := by
      cases piece with
      | code shape word =>
        rcases neighbour_append_closed before with ⟨n, hn⟩ | ⟨apart, hApart⟩
        · rw [kind?, kind?, hn, hn]
        · rw [kind?, kind?, hApart, hApart]
          exact congrArg some (codeKind_closed shape word region region text text' apart _)
      | _ => rfl
    have hRest := ih (piece :: before)
    rw [List.cons_append, List.cons_append] at hRest
    rw [spell, spell, hKind, hRest]

end Piece

/-! ## Many lines -/

/-- The category of a word, and the word itself unless it is a comment or a string. -/
def sketch (word : Kind × Text) : Kind × Option Text :=
  (word.1, if word.1.isRegion then none else some word.2)

theorem sketch_region (region : Region) (text : Text) :
    sketch (region.kind, text) = (region.kind, none) := by
  cases region <;> rfl

/-- Regions that are open in the same state differ in their texts at most. -/
theorem Opened.cases_of_state_eq {opened opened' : Opened} (h : opened.state = opened'.state) :
    (opened = none ∧ opened' = none) ∨
      ∃ region text text', opened = some (region, text) ∧ opened' = some (region, text') := by
  cases opened with
  | none =>
    cases opened' with
    | none => exact Or.inl ⟨rfl, rfl⟩
    | some other => cases h
  | some first =>
    cases opened' with
    | none => cases h
    | some other =>
      obtain ⟨region, text⟩ := first
      obtain ⟨region', text'⟩ := other
      cases h
      exact Or.inr ⟨region, text, text', rfl, rfl⟩

/-- **Spelling of bodies.** The regions that are open in front of the lines may have different
texts. -/
theorem map_sketch_spellLines_body {opened opened' : Opened} (h : opened.state = opened'.state)
    (lines : List Text) :
    (spellLines opened (lines.map Text.body)).map sketch =
      (spellLines opened' lines).map sketch := by
  induction lines generalizing opened opened' with
  | nil =>
    obtain ⟨rfl, rfl⟩ | ⟨region, text, text', rfl, rfl⟩ := Opened.cases_of_state_eq h
    · rfl
    · show [sketch (region.kind, text)] = [sketch (region.kind, text')]
      rw [sketch_region, sketch_region]
  | cons line rest ih =>
    rw [List.map_cons]
    obtain ⟨rfl, rfl⟩ | ⟨region, text, text', rfl, rfl⟩ := Opened.cases_of_state_eq h
    · have hOpened : Piece.opened (Piece.ofCode line.body) = Piece.opened (Piece.ofCode line) :=
        Piece.read_ofCode_body Piece.opened (fun _ => Piece.opened_cons rfl) line
      have hSpell : Piece.spell [] (Piece.ofCode line.body) = Piece.spell [] (Piece.ofCode line) :=
        Piece.read_ofCode_body (Piece.spell []) Piece.spell_blank_cons line
      rw [spellLines, spellLines, List.map_append, List.map_append, hSpell, hOpened, ih rfl]
    · rcases region.length?_body line with ⟨hLine, hBody⟩ | ⟨n, m, hLine, hBody, hCode⟩
      · simp only [spellLines, hLine, hBody]
        exact ih rfl
      · have hSpell := Piece.spell_append_closed [] region (line.body.take m) (line.take n)
          (Piece.ofCode (line.drop n))
        simp only [spellLines, hLine, hBody, ← hCode, List.map_cons, List.map_append,
          sketch_region, ih rfl]
        rw [List.nil_append, List.nil_append] at hSpell
        rw [hSpell]

/-! ## Texts -/

namespace Indent

theorem readings_eq_spellLines (text : Text) :
    readings text = (spellLines none text.lines).map fun (kind, word) => (kind, some word) := by
  obtain ⟨line, rest, hLines⟩ := text.exists_lines_eq_cons
  rw [readings, map_reading_classify hLines, hLines]
  rfl

theorem map_kind_classify (text : Text) :
    (classify text .normal).tokens.map Token.kind =
      ((spellLines none text.lines).map sketch).map Prod.fst := by
  have hKinds := congrArg (List.map Prod.fst) (readings_eq_spellLines text)
  rw [readings, List.map_map, List.map_map] at hKinds
  rw [List.map_map]
  exact hKinds

theorem filter_readings (text : Text) :
    (readings text).filter (fun word => !word.1.isRegion) =
      ((spellLines none text.lines).map sketch).filter fun word => !word.1.isRegion := by
  rw [readings_eq_spellLines, List.filter_map, List.filter_map]
  apply List.map_congr_left
  intro word hWord
  have hKind : word.1.isRegion = false := by
    have := (List.mem_filter.1 hWord).2
    simpa using this
  simp only [sketch, hKind]
  rfl

end Indent

/-- Whether two texts have the same lines up to the spaces and tabs in front of them. -/
def SameBodies (text text' : Text) : Prop :=
  text.lines.map Text.body = text'.lines.map Text.body

namespace SameBodies

variable {text text' : Text}

theorem spelling (h : SameBodies text text') :
    (spellLines none text.lines).map sketch = (spellLines none text'.lines).map sketch := by
  have hText := map_sketch_spellLines_body (rfl : Opened.state none = Opened.state none) text.lines
  have hText' := map_sketch_spellLines_body (rfl : Opened.state none = Opened.state none)
    text'.lines
  rw [← hText, ← hText']
  exact congrArg _ (congrArg _ h)

theorem length_lines (h : SameBodies text text') : text.lines.length = text'.lines.length := by
  have hLength := congrArg List.length h
  rwa [List.length_map, List.length_map] at hLength

theorem body_eq (h : SameBodies text text') {i : Nat} {line line' : Text}
    (hLine : text.lines[i]? = some line) (hLine' : text'.lines[i]? = some line') :
    line.body = line'.body := by
  have hBodies := congrArg (fun bodies => bodies[i]?) h
  simp only [List.getElem?_map, hLine, hLine', Option.map_some] at hBodies
  exact Option.some.inj hBodies

theorem lineStates_eq (h : SameBodies text text') (entry : State) :
    lineStates text entry = lineStates text' entry := by
  rw [lineStates, lineStates, ← State.sequence_map_body,
    ← State.sequence_map_body entry text'.lines]
  exact congrArg _ h

theorem exit_eq (h : SameBodies text text') (entry : State) :
    (classify text entry).exit = (classify text' entry).exit := by
  rw [classify_eq, classify_eq]
  show entry.after text.lines = entry.after text'.lines
  rw [← State.after_map_body, ← State.after_map_body entry text'.lines]
  exact congrArg _ h

theorem kinds_eq (h : SameBodies text text') :
    (classify text .normal).tokens.map Token.kind =
      (classify text' .normal).tokens.map Token.kind := by
  rw [Indent.map_kind_classify, Indent.map_kind_classify, h.spelling]

/-- All tokens but comments and strings cover the same words. -/
theorem words_eq (h : SameBodies text text') :
    (Indent.readings text).filter (fun word => !word.1.isRegion) =
      (Indent.readings text').filter fun word => !word.1.isRegion := by
  rw [Indent.filter_readings, Indent.filter_readings, h.spelling]

end SameBodies

end RexxEditing
