import RexxEditing.Lexeme
import RexxEditing.Proofs.Text.Bytes

/-! # Characters of lexemes

What the first lexeme of a text is made of, and what does not change it.

* `isSeparator_eq_isSpace`: a lexeme is all separators, or has none.
* `extent_le`, `first_append_of_extent`: a lexeme lies in its text, and what is behind it stays
  there.
* `extent_of_isWhite`: white space that is no separator stands alone, like any unknown character.
* `extent_of_isSymbolStart`, `isSymbolStart_of_extent`: which lexemes are symbols.
-/

namespace RexxEditing.Lexeme

open Text (isBlank isSeparator isWhite)

/-! ## Runs -/

theorem take_runLength (p : Char → Bool) (cs : Text) : cs.take (runLength p cs) = cs.takeWhile p :=
  (List.prefix_iff_eq_take.1 (List.takeWhile_prefix p)).symm

theorem drop_runLength (p : Char → Bool) (cs : Text) :
    cs.drop (runLength p cs) = cs.dropWhile p := by
  have h : (cs.takeWhile p ++ cs.dropWhile p).drop (cs.takeWhile p).length = cs.dropWhile p :=
    List.drop_left
  rwa [List.takeWhile_append_dropWhile] at h

theorem runLength_le (p : Char → Bool) (cs : Text) : runLength p cs ≤ cs.length :=
  (List.takeWhile_prefix p).length_le

theorem of_mem_take_runLength {p : Char → Bool} {cs : Text} {d : Char}
    (h : d ∈ cs.take (runLength p cs)) : p d = true := by
  rw [take_runLength] at h
  exact List.all_eq_true.1 List.all_takeWhile d h

theorem runLength_append_of_not {p : Char → Bool} {b : Char} (hb : p b = false) (cs rest : Text) :
    runLength p (cs ++ b :: rest) = runLength p cs := by
  induction cs with
  | nil => simp [runLength, hb]
  | cons c cs ih =>
    by_cases hc : p c = true
    · simpa [runLength, hc] using ih
    · simp [runLength, hc]

/-- A run that may go on with the new last character either ends before it or takes it in. -/
theorem runLength_append_cases {p : Char → Bool} {b : Char} (hb : p b = true) (cs : Text) :
    runLength p (cs ++ [b]) = runLength p cs ∨
      runLength p cs = cs.length ∧ runLength p (cs ++ [b]) = cs.length + 1 := by
  induction cs with
  | nil => exact Or.inr (by simp [runLength, hb])
  | cons c cs ih =>
    by_cases hc : p c = true
    · simpa [runLength, hc] using ih
    · exact Or.inl (by simp [runLength, hc])

/-! ## What lexemes are made of -/

/-- A number is a run of digits, with or without a point and one more run. -/
theorem numberLength_cases (cs : Text) :
    (numberLength cs = runLength Char.isDigit cs ∧
        ∀ rest, cs.drop (runLength Char.isDigit cs) ≠ '.' :: rest) ∨
      ∃ rest, cs.drop (runLength Char.isDigit cs) = '.' :: rest ∧
        numberLength cs = runLength Char.isDigit cs + 1 + runLength Char.isDigit rest := by
  simp only [numberLength]
  split
  · rename_i rest hRest
    exact Or.inr ⟨rest, hRest, rfl⟩
  · rename_i hRest
    exact Or.inl ⟨rfl, hRest⟩

theorem of_mem_take_numberLength {cs : Text} {d : Char} (h : d ∈ cs.take (numberLength cs)) :
    d.isDigit = true ∨ d = '.' := by
  rcases numberLength_cases cs with ⟨hLength, -⟩ | ⟨rest, hRest, hLength⟩
  · rw [hLength] at h
    exact Or.inl (of_mem_take_runLength h)
  · rw [hLength, Nat.add_assoc, List.take_add, hRest, Nat.add_comm 1, List.take_succ_cons] at h
    rcases List.mem_append.1 h with h | h
    · exact Or.inl (of_mem_take_runLength h)
    · rcases List.mem_cons.1 h with h | h
      · exact Or.inr h
      · exact Or.inl (of_mem_take_runLength h)

/-- Characters of a class without separators are no separators. -/
theorem isSeparator_eq_false {p : Char → Bool}
    (hp : [' ', '\t', '\r', '\x0c', '\n'].any p = false) {c : Char} (hc : p c = true) :
    isSeparator c = false := by
  rw [Bool.eq_false_iff]
  intro hSep
  exact List.any_eq_false.1 hp c (by simpa using Text.isSeparator_iff.1 hSep) hc

theorem isSeparator_of_isBlank {c : Char} (h : isBlank c = true) : isSeparator c = true := by
  simp [isSeparator, h]

/-- **Separators and lexemes.** A lexeme that only separates is all separators, any other has
none. -/
theorem isSeparator_eq_isSpace {c d : Char} {cs : Text} (h : d ∈ (first c cs).text) :
    isSeparator d = (first c cs).isSpace := by
  have hDigit {e : Char} (he : e.isDigit = true) : isSeparator e = false :=
    isSeparator_eq_false (by decide) he
  have hRest {e : Char} (he : isSymbolRest e = true) : isSeparator e = false :=
    isSeparator_eq_false (by decide) he
  have hStart {e : Char} (he : isSymbolStart e = true) : isSeparator e = false :=
    isSeparator_eq_false (by decide) he
  revert h
  simp only [first, isSpace, List.mem_cons, extent]
  split
  · rename_i hc
    rintro (rfl | h)
    · exact hDigit hc
    · rcases of_mem_take_numberLength h with hd | rfl
      · exact hDigit hd
      · rfl
  · split
    · rename_i hc
      rintro (rfl | h)
      · exact hStart hc
      · exact hRest (of_mem_take_runLength h)
    · split
      · rename_i hc
        rintro (rfl | h)
        · exact isSeparator_of_isBlank hc
        · exact isSeparator_of_isBlank (of_mem_take_runLength h)
      · rename_i hBlank
        split
        -- the marks of two characters
        case h_2 | h_3 | h_4 | h_8 =>
          rintro (rfl | h)
          · rfl
          · obtain rfl := List.mem_singleton.1 h
            rfl
        -- a point, alone or in front of digits
        case h_11 =>
          split
          · rintro (rfl | h)
            · rfl
            · exact hDigit (of_mem_take_runLength h)
          · rintro (rfl | h)
            · rfl
            · cases h
        case h_12 =>
          rintro (rfl | h)
          · simp_all [isSeparator]
          · cases h
        all_goals
          rintro (rfl | h)
          · rfl
          · cases h

/-! ## The first lexeme -/

theorem extent_le (c : Char) (cs : Text) : (extent c cs).2 ≤ cs.length := by
  have hNumber : numberLength cs ≤ cs.length := by
    rcases numberLength_cases cs with ⟨hLength, -⟩ | ⟨rest, hRest, hLength⟩
    · rw [hLength]
      exact runLength_le _ cs
    · have hTail := congrArg List.length hRest
      rw [List.length_drop, List.length_cons] at hTail
      have := runLength_le Char.isDigit rest
      omega
  unfold extent
  repeat' split
  all_goals
    first
    | exact hNumber
    | exact runLength_le _ _
    | simp

theorem first_append_of_extent {c : Char} {cs more : Text}
    (h : extent c (cs ++ more) = extent c cs) :
    first c (cs ++ more) = first c cs ∧ rest c (cs ++ more) = rest c cs ++ more := by
  have hLe := extent_le c cs
  constructor
  · rw [first, first, h, List.take_append_of_le_length hLe]
  · rw [rest, rest, h, List.drop_append_of_le_length hLe]

/-! ## White space in front -/

theorem extent_of_isBlank {c : Char} (h : isBlank c = true) (cs : Text) :
    extent c cs = (some .blank, runLength isBlank cs) := by
  simp only [isBlank, Bool.or_eq_true, beq_iff_eq] at h
  obtain ((rfl | rfl) | rfl) | rfl := h <;> rfl

theorem isWhite_eq_false_of_isAlphanum {c : Char} (h : c.isAlphanum = true) :
    isWhite c = false := by
  change ((decide (65 ≤ c.val ∧ c.val ≤ 90) || (97 ≤ c.val && c.val ≤ 122)) ||
    (48 ≤ c.val && c.val ≤ 57)) = true at h
  simp only [Bool.or_eq_true, Bool.and_eq_true, decide_eq_true_eq, UInt32.le_iff_toNat_le] at h
  change ((65 ≤ c.toNat ∧ c.toNat ≤ 90) ∨ (97 ≤ c.toNat ∧ c.toNat ≤ 122)) ∨
    (48 ≤ c.toNat ∧ c.toNat ≤ 57) at h
  simp only [isWhite, Bool.or_eq_false_iff, Bool.and_eq_false_iff, decide_eq_false_iff_not,
    beq_eq_false_iff_ne]
  omega

theorem isWhite_eq_false_of_isSymbolMark {c : Char} (h : isSymbolMark c = true) :
    isWhite c = false := by
  simp only [isSymbolMark, Bool.or_eq_true, beq_iff_eq] at h
  rcases h with (((rfl | rfl) | rfl) | rfl) | rfl <;> rfl

/-- White space that is no separator is a character that starts no lexeme. -/
theorem extent_of_isWhite {c : Char} (h : isWhite c = true) (hSep : isSeparator c = false)
    (cs : Text) : extent c cs = (none, 0) := by
  have hAlphanum : ¬ c.isAlphanum = true := by
    intro hAlphanum
    rw [isWhite_eq_false_of_isAlphanum hAlphanum] at h
    cases h
  have hMark : ¬ isSymbolMark c = true := by
    intro hMark
    rw [isWhite_eq_false_of_isSymbolMark hMark] at h
    cases h
  have hBlank : ¬ isBlank c = true := by
    intro hBlank
    rw [isSeparator_of_isBlank hBlank] at hSep
    cases hSep
  simp only [Char.isAlphanum, Bool.or_eq_true, not_or] at hAlphanum
  have hStart : ¬ isSymbolStart c = true := by
    simp only [isSymbolStart, Bool.or_eq_true, not_or]
    exact ⟨hAlphanum.1, hMark⟩
  unfold extent
  rw [if_neg hAlphanum.2, if_neg hStart, if_neg hBlank]
  split
  case h_12 => rfl
  case h_1 => cases hSep
  all_goals cases h

/-! ## Symbols and colons -/

theorem extent_of_isSymbolStart {c : Char} (h : isSymbolStart c = true) (cs : Text) :
    extent c cs = (some .symbol, runLength isSymbolRest cs) := by
  have hDigit : c.isDigit = false := by
    rw [isSymbolStart, Bool.or_eq_true] at h
    rcases h with hAlpha | hMark
    · change (decide (65 ≤ c.val ∧ c.val ≤ 90) || (97 ≤ c.val && c.val ≤ 122)) = true at hAlpha
      change (48 ≤ c.val && c.val ≤ 57) = false
      simp only [Bool.or_eq_true, Bool.and_eq_true, Bool.and_eq_false_iff, decide_eq_true_eq,
        decide_eq_false_iff_not, UInt32.le_iff_toNat_le] at hAlpha ⊢
      change (65 ≤ c.toNat ∧ c.toNat ≤ 90) ∨ (97 ≤ c.toNat ∧ c.toNat ≤ 122) at hAlpha
      change ¬48 ≤ c.toNat ∨ ¬c.toNat ≤ 57
      omega
    · simp only [isSymbolMark, Bool.or_eq_true, beq_iff_eq] at hMark
      rcases hMark with (((rfl | rfl) | rfl) | rfl) | rfl <;> rfl
  simp [extent, hDigit, h]

theorem isSymbolStart_of_extent {c : Char} {cs : Text} (h : (extent c cs).1 = some .symbol) :
    isSymbolStart c = true := by
  cases hStart : isSymbolStart c with
  | true => rfl
  | false =>
    unfold extent at h
    simp only [hStart, Bool.false_eq_true, ↓reduceIte] at h
    repeat' split at h
    all_goals cases h

theorem extent_eq_colon_iff {c : Char} {cs : Text} : (extent c cs).1 = some .colon ↔ c = ':' := by
  constructor
  · intro h
    unfold extent at h
    repeat' split at h
    all_goals first | rfl | cases h
  · rintro rfl
    rfl

/-! ## Blanks -/

theorem not_of_isBlank {p : Char → Bool} (hp : [' ', '\t', '\r', '\x0c', '\n'].any p = false)
    {b : Char} (hb : isBlank b = true) : p b = false := by
  rw [Bool.eq_false_iff]
  intro hpb
  have hSep := isSeparator_eq_false hp hpb
  rw [isSeparator_of_isBlank hb] at hSep
  cases hSep

end RexxEditing.Lexeme
