import RexxEditing.Proofs.Indent.Case
import RexxEditing.Proofs.Outline.Reading

/-! # Routines in any case

A label is read by classes of characters, a keyword and `procedure` are known in any case, and
places are counted in bytes. So a program has its routines in the same places in any case, and with
that nothing that is said about a text hangs on the case of its letters.

* `routines_lower`: the routines of a program in small letters.
* `letterCase_ignored`: tokens, columns, indented texts and routines of two texts that are equal but
  for case.
-/

namespace RexxEditing

namespace Outline

open Text (lower)

/-! ## Labels -/

theorem afterColon?_lower (t : Text) : afterColon? t.lower = (afterColon? t).map lower := by
  cases t with
  | nil => rfl
  | cons c cs =>
    by_cases hc : c = ':'
    · subst hc
      rfl
    · have hLower : c.toLower ≠ ':' := mt (toLower_eq_iff rfl).1 hc
      rw [Text.lower_cons, afterColon?_eq_none hLower, afterColon?_eq_none hc, Option.map_none]

namespace Label

/-- The label in small letters. -/
def lower (label : Label) : Label := ⟨label.gap.lower, label.name.lower, label.rest.lower⟩

theorem read?_lower {gap start rest : Char → Bool} (hGap : CaseBlind gap) (hStart : CaseBlind start)
    (hRest : CaseBlind rest) (line : Text) :
    read? gap start rest line.lower = (read? gap start rest line).map lower := by
  unfold read?
  rw [Text.dropWhile_lower hGap, Text.takeWhile_lower hGap]
  cases line.dropWhile gap with
  | nil => rfl
  | cons c cs =>
    simp only [Text.lower_cons, hStart c, Text.takeWhile_lower hRest, Text.dropWhile_lower hRest,
      Text.dropWhile_lower hGap, afterColon?_lower, Option.map_map]
    split
    · rw [Option.map_map]
      rfl
    · rfl

theorem ofLine?_lower (line : Text) : ofLine? line.lower = (ofLine? line).map lower := by
  rw [ofLine?_eq_read?, ofLine?_eq_read?]
  exact read?_lower (caseBlind_of_capitals (by decide)) (caseBlind_of_capitals (by decide))
    Lexeme.caseBlind_isSymbolRest line

end Label

/-! ## Routines -/

theorem follower_lower (rest : Text) (below : List Text) :
    follower rest.lower (below.map lower) = lower (follower rest below) := by
  have hTrim : Text.trim ∘ lower = lower ∘ Text.trim := funext Text.trim_lower
  have hEmpty : (fun t : Text => !t.isEmpty) ∘ lower = fun t => !t.isEmpty := by
    funext t
    cases t <;> rfl
  unfold follower
  rw [Text.isAllWhite_lower, List.map_map, hTrim, ← List.map_map, List.find?_map, hEmpty]
  split
  · cases (below.map Text.trim).find? (fun t => !t.isEmpty) <;> rfl
  · rfl

/-- The routine with its name in small letters. -/
def Routine.lower (r : Routine) : Routine := { r with name := r.name.lower }

theorem Routine.ofLine?_lower (table : LineTable) (index base : Nat) (line : Text)
    (below : List Text) :
    ofLine? table index base line.lower (below.map Text.lower) =
      (ofLine? table index base line below).map lower := by
  unfold ofLine?
  rw [Label.ofLine?_lower]
  cases Label.ofLine? line with
  | none => rfl
  | some label =>
    simp only [Option.map_some, Option.bind_eq_bind, Option.bind_some, Label.lower,
      Vocabulary.contains_lower, Text.byteSize_lower, follower_lower, Indent.startsWith_lower]
    split <;> rfl

theorem routinesFrom_map_lower (table : LineTable) (entry : State) (index base : Nat)
    (lines : List Text) :
    routinesFrom table entry index base (lines.map lower) =
      (routinesFrom table entry index base lines).map Routine.lower := by
  induction lines generalizing entry index base with
  | nil => rfl
  | cons line below ih =>
    simp only [List.map_cons, routinesFrom, Routine.ofLine?_lower, State.next_lower,
      Text.byteSize_lower, ih, List.map_append]
    split
    · cases Routine.ofLine? table index base line below <;> rfl
    · rfl

/-- **A program in small letters** has the routines of the program. -/
theorem routines_lower (text : Text) :
    routines text.lower = (routines text).map Routine.lower := by
  rw [routines, LineTable.ofText_lower, Text.lines_lower, routinesFrom_map_lower]
  rfl

end Outline

open Indent Outline in
/-- **Case never matters.** Two texts that are equal but for the case of ASCII letters have the same
tokens and exit from every state, and the same columns. Once indented, they differ in those letters
alone. Their routines have the same names but for case, the same places and the same kinds. -/
theorem letterCase_ignored {s t : Text} (h : s.eqIgnoreCase t = true) :
    (∀ entry, classify s entry = classify t entry) ∧
      (∀ i offset, column (.ofText s) i offset = column (.ofText t) i offset) ∧
      (∀ offset, (reindent offset s).eqIgnoreCase (reindent offset t) = true ∧
        Text.differences (reindent offset s) (reindent offset t) = Text.differences s t) ∧
      (routines s).map (fun r => (r.name.lower, r.line, r.range, r.isProcedure)) =
        (routines t).map (fun r => (r.name.lower, r.line, r.range, r.isProcedure)) := by
  have hLower : s.lower = t.lower := eq_of_beq h
  refine ⟨?_, ?_, ?_, ?_⟩
  · intro entry
    rw [← classify_lower, hLower, classify_lower]
  · intro i offset
    rw [← column_lower, ← Buffer.ofText_lower, hLower, Buffer.ofText_lower, column_lower]
  · intro offset
    refine ⟨?_, differences_reindent hLower offset⟩
    rw [Text.eqIgnoreCase, ← reindent_lower, ← reindent_lower, hLower, beq_self_eq_true]
  · have hRoutines : (routines s).map Routine.lower = (routines t).map Routine.lower := by
      rw [← routines_lower, hLower, routines_lower]
    have hFields := congrArg (List.map fun r => (r.name, r.line, r.range, r.isProcedure)) hRoutines
    rw [List.map_map, List.map_map] at hFields
    exact hFields

open Indent Outline in
theorem letterCase_ignored_in_a_loop :
    let s : Text := "Main: Procedure\nDo i = 1\n  Say 'é' /* x".toList
    let t : Text := "mAIN: PROCEDURE\ndO I = 1\n  say 'é' /* X".toList
    s ≠ t ∧ s.eqIgnoreCase t = true ∧
      classify s .normal = classify t .normal ∧
      column (.ofText s) 2 4 = column (.ofText t) 2 4 ∧
      Text.differences (reindent 4 s) (reindent 4 t) = Text.differences s t ∧
      (routines s).map (fun r => (r.name.lower, r.line, r.range, r.isProcedure)) =
        (routines t).map (fun r => (r.name.lower, r.line, r.range, r.isProcedure)) := by
  intro s t
  have h : s.eqIgnoreCase t = true := by decide
  obtain ⟨hTokens, hColumns, hReindent, hRoutines⟩ := letterCase_ignored h
  exact ⟨by decide, h, hTokens _, hColumns 2 4, (hReindent 4).2, hRoutines⟩

end RexxEditing
