import RexxEditing.Proofs.Highlight.Scan
import RexxEditing.Proofs.Lexeme.Lookahead
import RexxEditing.Proofs.Region.Extent

/-! # White space and the state of a line

The state after a line does not hang on the white space in front of its code, nor on a blank at its
end. So a line may be moved to another column, and its carriage return may be left out, without any
effect on the lines below.

* `State.next_white_append`: white space in front of code has no effect.
* `State.next_dropReturn`: a carriage return at the end of a line has no effect.
-/

namespace RexxEditing

open Text (isWhite isBlank)

/-! ## One lexeme -/

/-- The state at the end of a line from a lexeme on, when `rest` follows it. -/
def State.afterLexeme (shape? : Option Lexeme.Shape) (rest : Text) : State :=
  match shape?.bind Lexeme.Shape.region? with
  | some region => State.next (.inside region) rest
  | none =>
    if shape?.any Lexeme.Shape.isLineCommentOpener && Region.startsLineComment rest then .normal
    else State.next .normal rest

/-- A region that ends on the line leaves the rest of it to code. -/
theorem State.next_inside (region : Region) (line : Text) :
    State.next (.inside region) line =
      match region.length? line with
      | some n => State.next .normal (line.drop n)
      | none => .inside region := by
  simp only [next, Piece.ofLine]
  cases region.length? line with
  | none => rfl
  | some n => exact Piece.exitState_cons rfl _

/-- **Code is read lexeme by lexeme.** -/
theorem State.next_normal_cons (c : Char) (cs : Text) :
    State.next .normal (c :: cs) = afterLexeme (Lexeme.extent c cs).1 (Lexeme.rest c cs) := by
  have hFirst : (Lexeme.first c cs).shape? = (Lexeme.extent c cs).1 := rfl
  have hOfCode := Piece.ofCode.eq_2 c cs
  simp only [hFirst] at hOfCode
  rw [next, Piece.ofLine, hOfCode]
  generalize Lexeme.rest c cs = rest
  generalize (Lexeme.first c cs).text = text
  generalize (Lexeme.extent c cs).1 = shape?
  cases shape? with
  | none => exact Piece.exitState_cons rfl _
  | some shape =>
    simp only [afterLexeme, Option.bind_some, Option.any_some]
    cases shape.region? with
    | none =>
      simp only
      split
      · rfl
      · split <;> exact Piece.exitState_cons rfl _
    | some region =>
      simp only [next_inside]
      cases region.length? rest with
      | none => rfl
      | some n => exact Piece.exitState_cons rfl _

/-! ## White space in front -/

theorem State.next_dropWhile_isBlank (line : Text) :
    State.next .normal (line.dropWhile isBlank) = State.next .normal line := by
  cases line with
  | nil => rfl
  | cons c cs =>
    by_cases hc : isBlank c = true
    · rw [next_normal_cons, Lexeme.rest, Lexeme.extent_of_isBlank hc, Lexeme.drop_runLength,
        List.dropWhile_cons_of_pos hc]
      rfl
    · rw [List.dropWhile_cons_of_neg hc]

theorem State.next_white_cons {c : Char} (h : isWhite c = true) (line : Text) :
    State.next .normal (c :: line) = State.next .normal line := by
  rw [next_normal_cons, Lexeme.rest]
  by_cases hBlank : isBlank c = true
  · -- a run of blanks is one lexeme
    rw [Lexeme.extent_of_isBlank hBlank, Lexeme.drop_runLength]
    exact next_dropWhile_isBlank line
  · by_cases hFeed : c = '\n'
    · subst hFeed
      rfl
    · rw [Lexeme.extent_of_isWhite h (by simp [Text.isSeparator, hBlank, hFeed])]
      rfl

/-- **White space in front of code** has no effect on the state after the line. -/
theorem State.next_white_append {front : Text} (h : ∀ c ∈ front, isWhite c = true) (line : Text) :
    State.next .normal (front ++ line) = State.next .normal line := by
  induction front with
  | nil => rfl
  | cons c cs ih =>
    obtain ⟨hc, hcs⟩ := List.forall_mem_cons.1 h
    rw [List.cons_append, next_white_cons hc, ih hcs]

/-! ## A blank at the end -/

/-- **A blank at the end** of a line has no effect on the state after it. -/
theorem State.next_append_blank {b : Char} (hb : isBlank b = true) (entry : State) (line : Text) :
    entry.next (line ++ [b]) = entry.next line := by
  induction hLength : line.length using Nat.strongRecOn generalizing entry line with
  | ind length ih =>
    subst hLength
    cases entry with
    | inside region =>
      rw [next_inside, next_inside, Region.length?_append_blank hb]
      cases hEnd : region.length? line with
      | none => rfl
      | some n =>
        obtain ⟨hPos, hLe⟩ := Region.length?_bounds hEnd
        simp only [List.drop_append_of_le_length hLe]
        refine ih _ ?_ .normal (line.drop n) rfl
        rw [List.length_drop]
        omega
    | normal =>
      cases line with
      | nil => exact next_white_cons (Text.isWhite_of_isBlank hb) []
      | cons c cs =>
        obtain ⟨hShape, hRest | hRest⟩ := Lexeme.rest_append_blank hb c cs
        · -- the blank stays behind the first lexeme
          have hShorter := fun entry =>
            ih (Lexeme.rest c cs).length (Lexeme.length_rest_lt c cs) entry (Lexeme.rest c cs) rfl
          rw [List.cons_append, next_normal_cons, next_normal_cons, hShape, hRest]
          simp only [afterLexeme, hShorter, Region.startsLineComment_append_blank hb]
        · rw [List.cons_append, next_normal_cons, next_normal_cons, hShape, hRest]

/-- **A carriage return at the end** of a line has no effect on the state after it. -/
theorem State.next_dropReturn (entry : State) (line : Text) :
    entry.next line.dropReturn = entry.next line := by
  have hLine := line.dropReturn_append_ending
  rcases line.ending_cases with hEnding | hEnding
  · rw [hEnding] at hLine
    rw [← next_append_blank (rfl : isBlank '\r' = true), hLine]
  · rw [hEnding, List.append_nil] at hLine
    rw [hLine]

end RexxEditing
