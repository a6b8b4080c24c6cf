import RexxEditing.Text.Character
import RexxEditing.Text.Word

/-! # Words and what separates them

A character that is no word character ends the word in front of it and belongs to none. Everything
about the words of a text that is put together follows from that.

* `words_append_break`: the words on both sides of such a character.
-/

namespace RexxEditing.Text

theorem words_cons_of_not {c : Char} (h : isWordChar c = false) (t : Text) :
    words (c :: t) = words t := by
  simp [words, h]

theorem words_cons_cons {c d : Char} (hc : isWordChar c = true) (t : Text) :
    words (c :: d :: t) =
      if isWordChar d then
        match words (d :: t) with
        | word :: rest => (c :: word) :: rest
        | [] => [[c]]
      else [c] :: words (d :: t) := by
  rw [words.eq_def]
  exact if_pos hc

theorem words_cons_ne_nil {c : Char} (h : isWordChar c = true) (t : Text) :
    words (c :: t) ≠ [] := by
  cases t with
  | nil => simp [words, h]
  | cons d ds =>
    rw [words_cons_cons h]
    split
    · split <;> simp
    · simp

/-- **Words on both sides of a break.** -/
theorem words_append_break {c : Char} (hc : isWordChar c = false) (s t : Text) :
    words (s ++ c :: t) = words s ++ words t := by
  induction s with
  | nil => exact words_cons_of_not hc t
  | cons d ds ih =>
    by_cases hd : isWordChar d = true
    · cases ds with
      | nil => simp [words, hd, hc]
      | cons e es =>
        rw [List.cons_append] at ih
        rw [List.cons_append, List.cons_append, words_cons_cons hd, words_cons_cons hd, ih]
        by_cases he : isWordChar e = true
        · -- the word goes on in the first word of the rest
          obtain ⟨word, more, hWords⟩ := List.exists_cons_of_ne_nil (words_cons_ne_nil he es)
          simp only [if_pos he, hWords, List.cons_append]
        · simp only [if_neg he, List.cons_append]
    · have hNot : isWordChar d = false := by simpa using hd
      rw [List.cons_append, words_cons_of_not hNot, words_cons_of_not hNot, ih]

theorem isWordChar_of_isBlank {c : Char} (h : isBlank c = true) : isWordChar c = false := by
  simp only [isBlank, Bool.or_eq_true, beq_iff_eq] at h
  obtain ((rfl | rfl) | rfl) | rfl := h <;> decide

theorem words_blank_append {front : Text} (h : ∀ c ∈ front, isBlank c = true) (t : Text) :
    words (front ++ t) = words t := by
  induction front with
  | nil => rfl
  | cons c cs ih =>
    obtain ⟨hc, hcs⟩ := List.forall_mem_cons.1 h
    rw [List.cons_append, words_cons_of_not (isWordChar_of_isBlank hc), ih hcs]

end RexxEditing.Text
