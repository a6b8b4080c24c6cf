import RexxEditing.Text.Character

/-! # White space in front of a text

A text is white space and then nothing, or a character that is not white.

* `white_append_trimStart`: what is trimmed is white space, and nothing is lost.
* `trimStart_white_append`: white space in front has no effect on what is left.
* `nonWhite_trimStart`: what is trimmed has no characters that are not white.
-/

namespace RexxEditing.Text

theorem isWhite_of_mem_spaces {n : Nat} {c : Char} (h : c ∈ spaces n) : isWhite c = true := by
  rw [List.eq_of_mem_replicate h]
  rfl

/-- What is trimmed is white space. -/
theorem white_append_trimStart (t : Text) :
    ∃ front, (∀ c ∈ front, isWhite c = true) ∧ t = front ++ t.trimStart :=
  ⟨t.takeWhile isWhite, List.all_eq_true.1 List.all_takeWhile,
    List.takeWhile_append_dropWhile.symm⟩

@[simp] theorem trimStart_nil : trimStart [] = [] := rfl

theorem trimStart_cons_of_not {c : Char} (h : isWhite c = false) (rest : Text) :
    trimStart (c :: rest) = c :: rest :=
  List.dropWhile_cons_of_neg (by simp [h])

theorem trimStart_white_append {front : Text} (h : ∀ c ∈ front, isWhite c = true) (t : Text) :
    trimStart (front ++ t) = t.trimStart :=
  List.dropWhile_append_of_pos h

theorem isWhite_of_trimStart {t : Text} {c : Char} {rest : Text} (h : t.trimStart = c :: rest) :
    isWhite c = false := by
  have hHead := List.head?_dropWhile_not isWhite t
  rw [show t.dropWhile isWhite = c :: rest from h] at hHead
  simpa using hHead

theorem trimStart_trimStart (t : Text) : t.trimStart.trimStart = t.trimStart := by
  cases h : t.trimStart with
  | nil => rfl
  | cons c rest => exact trimStart_cons_of_not (isWhite_of_trimStart h) rest

theorem trimStart_eq_nil_iff {t : Text} : t.trimStart = [] ↔ t.isAllWhite = true := by
  induction t with
  | nil => exact iff_of_true rfl rfl
  | cons c cs ih =>
    by_cases hc : isWhite c = true
    · rw [trimStart, List.dropWhile_cons_of_pos hc, ← trimStart, ih, isAllWhite, isAllWhite,
        List.all_cons, hc, Bool.true_and]
    · simp [trimStart, isAllWhite, hc]

/-- The white space in front of a text is in front of every longer text. -/
theorem takeWhile_isWhite_prefix_append (s t : Text) :
    s.takeWhile isWhite <+: (s ++ t).takeWhile isWhite := by
  induction s with
  | nil => exact List.nil_prefix
  | cons c cs ih =>
    by_cases hc : isWhite c = true
    · rw [List.cons_append, List.takeWhile_cons_of_pos hc, List.takeWhile_cons_of_pos hc]
      exact (List.prefix_cons_inj c).2 ih
    · rw [List.takeWhile_cons_of_neg hc]
      exact List.nil_prefix

/-! ## Characters that are not white -/

/-- The characters of the text that are not white. -/
def nonWhite (t : Text) : Text := t.filter fun c => !isWhite c

theorem nonWhite_append (s t : Text) : nonWhite (s ++ t) = nonWhite s ++ nonWhite t :=
  List.filter_append s t

theorem nonWhite_of_white {t : Text} (h : ∀ c ∈ t, isWhite c = true) : nonWhite t = [] := by
  rw [nonWhite, List.filter_eq_nil_iff]
  intro c hc
  simp [h c hc]

theorem nonWhite_trimStart (t : Text) : nonWhite t.trimStart = nonWhite t := by
  obtain ⟨front, hFront, hText⟩ := white_append_trimStart t
  have hParts := congrArg nonWhite hText
  rw [nonWhite_append, nonWhite_of_white hFront, List.nil_append] at hParts
  exact hParts.symm

end RexxEditing.Text
