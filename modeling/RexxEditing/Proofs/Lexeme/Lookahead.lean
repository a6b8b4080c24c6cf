import RexxEditing.Proofs.Lexeme

/-! # What is behind a lexeme

Where a lexeme ends is decided by one character behind it, and separators and the end of the text
come to the same there. So what is behind a lexeme may be replaced as long as this one character
stays, or is a separator both times.

* `extent_cases`: the ways in which a lexeme starts.
* `extent_congr`: what is behind a lexeme counts as far as `peek` goes.
* `extent_append_separator`: a separator behind a text stays behind its first lexeme.
* `extent_append_blank`: a blank at the end of the text changes no lexeme but a run of blanks there.
-/

namespace RexxEditing.Lexeme

open Text (isBlank isSeparator)

/-- The first character of the text, unless it is a separator. -/
def peek (t : Text) : Option Char := t.head?.filter (!isSeparator ·)

theorem peek_eq_some_iff {t : Text} {c : Char} :
    peek t = some c ↔ t.head? = some c ∧ isSeparator c = false := by
  simp [peek, Option.filter_eq_some_iff]

theorem peek_append_separator {s : Char} (hs : isSeparator s = true) (t rest : Text) :
    peek (t ++ s :: rest) = peek t := by
  cases t with
  | nil => simp [peek, hs]
  | cons c t => rfl

theorem peek_of_isSeparator {s : Char} (hs : isSeparator s = true) (rest : Text) :
    peek (s :: rest) = none := by
  simp [peek, hs]

theorem newline_notMem {c : Char} {cs : Text} (h : '\n' ∉ c :: cs) :
    '\n' ∉ (first c cs).text ∧ '\n' ∉ Lexeme.rest c cs := by
  rwa [← first_append_rest c cs, List.mem_append, not_or] at h

section Behind

variable {w rest rest' : Text}

/-- A character that a lexeme would take is behind both texts or behind none. -/
theorem head?_of_peek_eq {p : Char → Bool} (hp : [' ', '\t', '\r', '\x0c', '\n'].any p = false)
    (hPeek : peek rest = peek rest') (h : ∀ c, rest.head? = some c → p c = false) :
    ∀ c, rest'.head? = some c → p c = false := by
  intro c hc
  rw [Bool.eq_false_iff]
  intro hpc
  have hSome := peek_eq_some_iff.2 ⟨hc, isSeparator_eq_false hp hpc⟩
  rw [← hPeek] at hSome
  rw [h c (peek_eq_some_iff.1 hSome).1] at hpc
  cases hpc

theorem runLength_append_iff {p : Char → Bool} :
    runLength p (w ++ rest) = w.length ↔
      (∀ c ∈ w, p c = true) ∧ ∀ c, rest.head? = some c → p c = false := by
  induction w with
  | nil =>
    cases rest with
    | nil => simp [runLength]
    | cons c rest => cases hc : p c <;> simp [runLength, hc]
  | cons c w ih =>
    cases hc : p c with
    | true => simpa [runLength, hc] using ih
    | false => simp [runLength, hc]

theorem runLength_congr {p : Char → Bool} (hp : [' ', '\t', '\r', '\x0c', '\n'].any p = false)
    (hPeek : peek rest = peek rest') (h : runLength p (w ++ rest) = w.length) :
    runLength p (w ++ rest') = w.length := by
  obtain ⟨hAll, hHead⟩ := runLength_append_iff.1 h
  exact runLength_append_iff.2 ⟨hAll, head?_of_peek_eq hp hPeek hHead⟩

theorem numberLength_of_digits (hw : ∀ c ∈ w, c.isDigit = true)
    (h : ∀ c, rest.head? = some c → (c.isDigit || c == '.') = false) :
    numberLength (w ++ rest) = w.length := by
  have hRun : runLength Char.isDigit (w ++ rest) = w.length := by
    refine runLength_append_iff.2 ⟨hw, ?_⟩
    intro c hc
    exact (Bool.or_eq_false_iff.1 (h c hc)).1
  rcases numberLength_cases (w ++ rest) with ⟨hLength, -⟩ | ⟨tail, hTail, -⟩
  · rw [hLength, hRun]
  · rw [hRun, List.drop_left] at hTail
    have hPoint := h '.' (by rw [hTail]; rfl)
    cases hPoint

theorem numberLength_of_point {v : Text} (hw : ∀ c ∈ w, c.isDigit = true)
    (hv : ∀ c ∈ v, c.isDigit = true) (h : ∀ c, rest.head? = some c → c.isDigit = false) :
    numberLength (w ++ '.' :: v ++ rest) = (w ++ '.' :: v).length := by
  rw [List.append_assoc, List.cons_append]
  have hRun : runLength Char.isDigit (w ++ '.' :: (v ++ rest)) = w.length := by
    refine runLength_append_iff.2 ⟨hw, ?_⟩
    intro c hc
    obtain rfl := Option.some.inj hc
    rfl
  have hFraction := runLength_append_iff.2 ⟨hv, h⟩
  simp only [numberLength, hRun, List.drop_left, hFraction, List.length_append, List.length_cons]
  omega

/-- A number is made of digits, with at most one point between them. -/
theorem number_cases (h : numberLength (w ++ rest) = w.length) :
    ((∀ c ∈ w, c.isDigit = true) ∧
        ∀ c, rest.head? = some c → (c.isDigit || c == '.') = false) ∨
      ∃ u v, w = u ++ '.' :: v ∧ (∀ c ∈ u, c.isDigit = true) ∧ (∀ c ∈ v, c.isDigit = true) ∧
        ∀ c, rest.head? = some c → c.isDigit = false := by
  obtain ⟨u, tail, hText, hu, hHead⟩ : ∃ u tail, w ++ rest = u ++ tail ∧
      (∀ c ∈ u, c.isDigit = true) ∧ ∀ c, tail.head? = some c → c.isDigit = false := by
    refine ⟨(w ++ rest).takeWhile Char.isDigit, (w ++ rest).dropWhile Char.isDigit,
      List.takeWhile_append_dropWhile.symm, List.all_eq_true.1 List.all_takeWhile, ?_⟩
    intro c hc
    have hNot := List.head?_dropWhile_not Char.isDigit (w ++ rest)
    rw [hc] at hNot
    exact hNot
  have hRun : runLength Char.isDigit (u ++ tail) = u.length := runLength_append_iff.2 ⟨hu, hHead⟩
  rw [hText] at h
  rcases numberLength_cases (u ++ tail) with ⟨hLength, hNone⟩ | ⟨more, hMore, hLength⟩
  · left
    rw [h, hRun] at hLength
    rw [hRun, List.drop_left] at hNone
    obtain ⟨rfl, rfl⟩ := List.append_inj hText hLength
    refine ⟨hu, ?_⟩
    intro c hc
    rw [Bool.or_eq_false_iff, beq_eq_false_iff_ne]
    refine ⟨hHead c hc, ?_⟩
    rintro rfl
    obtain ⟨more, rfl⟩ := List.head?_eq_some_iff.1 hc
    exact hNone more rfl
  · right
    rw [hRun, List.drop_left] at hMore
    subst hMore
    rw [h, hRun] at hLength
    -- the digits behind the point are the rest of the number
    obtain ⟨v, rest', rfl, hv⟩ : ∃ v rest', more = v ++ rest' ∧
        v.length = runLength Char.isDigit more :=
      ⟨more.take (runLength Char.isDigit more), _, (List.take_append_drop _ _).symm,
        List.length_take_of_le (runLength_le _ _)⟩
    rw [← List.cons_append, ← List.append_assoc] at hText
    have hLengths : w.length = (u ++ '.' :: v).length := by
      rw [List.length_append, List.length_cons]
      omega
    obtain ⟨rfl, rfl⟩ := List.append_inj hText hLengths
    obtain ⟨hDigits, hStop⟩ := runLength_append_iff.1 hv.symm
    exact ⟨u, v, rfl, hu, hDigits, hStop⟩

theorem numberLength_congr (hPeek : peek rest = peek rest')
    (h : numberLength (w ++ rest) = w.length) : numberLength (w ++ rest') = w.length := by
  rcases number_cases h with ⟨hw, hHead⟩ | ⟨u, v, rfl, hu, hv, hHead⟩
  · exact numberLength_of_digits hw (head?_of_peek_eq (by decide) hPeek hHead)
  · exact numberLength_of_point hu hv (head?_of_peek_eq (by decide) hPeek hHead)

end Behind

/-! ## Marks -/

/-- The mark that starts with the character when `next` is behind it, and the number of further
characters in it. -/
def mark (c : Char) (next : Option Char) : Option Shape × Nat :=
  match c, next with
  | '\n', _ => (some .newline, 0)
  | '/', some '*' => (some .commentOpen, 1)
  | '*', some '/' => (some .commentClose, 1)
  | '-', some '-' => (some .doubleDash, 1)
  | '#', _ => (some .hash, 0)
  | '\'', _ => (some .singleQuote, 0)
  | '"', _ => (some .doubleQuote, 0)
  | '|', some '|' => (some .doublePipe, 1)
  | '|', _ => (some .pipe, 0)
  | ':', _ => (some .colon, 0)
  | _, _ => (none, 0)

/-- The characters that start no number, no symbol and no run of blanks. A point starts a number if
a digit follows. -/
structure IsMark (c : Char) (cs : Text) : Prop where
  digit : c.isDigit = false
  symbol : isSymbolStart c = false
  blank : isBlank c = false
  point : c = '.' → ∀ d, cs.head? = some d → d.isDigit = false

theorem extent_of_isMark {c : Char} {cs : Text} (h : IsMark c cs) :
    extent c cs = mark c (peek cs) := by
  unfold extent
  rw [if_neg (by simp [h.digit]), if_neg (by simp [h.symbol]), if_neg (by simp [h.blank])]
  have hPeek {d : Char} (hd : peek cs = some d) : ∃ rest, cs = d :: rest :=
    List.head?_eq_some_iff.1 (peek_eq_some_iff.1 hd).1
  split
  case h_9 hNot =>
    unfold mark
    split <;> simp_all
  case h_11 tail d more =>
    rw [if_neg (by simp [h.point rfl d rfl])]
    simp [mark]
  case h_12 =>
    unfold mark
    split <;> simp_all
  all_goals rfl

theorem extent_of_isDigit {c : Char} (h : c.isDigit = true) (cs : Text) :
    extent c cs = (some .number, numberLength cs) :=
  if_pos h

theorem extent_point {d : Char} (hd : d.isDigit = true) (cs : Text) :
    extent '.' (d :: cs) = (some .number, runLength Char.isDigit (d :: cs)) :=
  if_pos hd

/-- The five ways in which a lexeme starts. -/
theorem extent_cases (c : Char) (cs : Text) :
    (c.isDigit = true ∧ extent c cs = (some .number, numberLength cs)) ∨
      (isSymbolStart c = true ∧ extent c cs = (some .symbol, runLength isSymbolRest cs)) ∨
      (isBlank c = true ∧ extent c cs = (some .blank, runLength isBlank cs)) ∨
      (∃ d ds, c = '.' ∧ cs = d :: ds ∧ d.isDigit = true ∧
        extent c cs = (some .number, runLength Char.isDigit cs)) ∨
      IsMark c cs ∧ extent c cs = mark c (peek cs) := by
  cases hDigit : c.isDigit with
  | true => exact Or.inl ⟨rfl, extent_of_isDigit hDigit cs⟩
  | false =>
    cases hStart : isSymbolStart c with
    | true => exact Or.inr (Or.inl ⟨rfl, extent_of_isSymbolStart hStart cs⟩)
    | false =>
      cases hBlank : isBlank c with
      | true => exact Or.inr (Or.inr (Or.inl ⟨rfl, extent_of_isBlank hBlank cs⟩))
      | false =>
        by_cases hPoint : ∃ d, c = '.' ∧ cs.head? = some d ∧ d.isDigit = true
        · obtain ⟨d, rfl, hHead, hd⟩ := hPoint
          obtain ⟨ds, rfl⟩ := List.head?_eq_some_iff.1 hHead
          exact Or.inr (Or.inr (Or.inr (Or.inl ⟨d, ds, rfl, rfl, hd, extent_point hd ds⟩)))
        · have hMark : IsMark c cs := by
            refine ⟨hDigit, hStart, hBlank, ?_⟩
            intro hc d hHead
            rw [Bool.eq_false_iff]
            intro hd
            exact hPoint ⟨d, hc, hHead, hd⟩
          exact Or.inr (Or.inr (Or.inr (Or.inr ⟨hMark, extent_of_isMark hMark⟩)))

/-! ## Lexemes -/

/-- **What is behind a lexeme.** -/
theorem extent_congr {c : Char} {w rest rest' : Text} {shape? : Option Shape}
    (hc : isBlank c = false) (hPeek : peek rest = peek rest')
    (h : extent c (w ++ rest) = (shape?, w.length)) :
    extent c (w ++ rest') = (shape?, w.length) := by
  have hPeeks : peek (w ++ rest) = peek (w ++ rest') := by
    cases w with
    | nil => exact hPeek
    | cons d w => rfl
  cases hDigit : c.isDigit with
  | true =>
    rw [extent_of_isDigit hDigit] at h ⊢
    obtain ⟨rfl, hLength⟩ := Prod.mk.inj h
    rw [numberLength_congr hPeek hLength]
  | false =>
    cases hStart : isSymbolStart c with
    | true =>
      rw [extent_of_isSymbolStart hStart] at h ⊢
      obtain ⟨rfl, hLength⟩ := Prod.mk.inj h
      rw [runLength_congr (by decide) hPeek hLength]
    | false =>
      by_cases hPoint : ∃ d, c = '.' ∧ (w ++ rest).head? = some d ∧ d.isDigit = true
      · -- a point in front of digits, all of which are in the lexeme
        obtain ⟨d, rfl, hHead, hd⟩ := hPoint
        obtain ⟨ds, hText⟩ := List.head?_eq_some_iff.1 hHead
        rw [hText, extent_point hd, ← hText] at h
        obtain ⟨rfl, hLength⟩ := Prod.mk.inj h
        cases w with
        | nil =>
          rw [List.nil_append] at hText hLength
          simp [hText, runLength, hd] at hLength
        | cons e w =>
          obtain ⟨rfl, -⟩ := List.cons.inj hText
          rw [List.cons_append, extent_point hd, ← List.cons_append,
            runLength_congr (by decide) hPeek hLength]
      · have hNone : c = '.' → ∀ d, (w ++ rest).head? = some d → d.isDigit = false := by
          intro hc d hHead
          rw [Bool.eq_false_iff]
          intro hd
          exact hPoint ⟨d, hc, hHead, hd⟩
        have hNone' : c = '.' → ∀ d, (w ++ rest').head? = some d → d.isDigit = false :=
          fun hc => head?_of_peek_eq (by decide) hPeeks (hNone hc)
        rw [extent_of_isMark ⟨hDigit, hStart, hc, hNone⟩, hPeeks] at h
        rw [extent_of_isMark ⟨hDigit, hStart, hc, hNone'⟩, h]

/-! ## Separators -/

/-- **A separator** behind a text belongs to no lexeme but a run of blanks. -/
theorem extent_append_separator {s : Char} (hs : isSeparator s = true) {c : Char}
    (hc : isBlank c = false) (cs rest : Text) : extent c (cs ++ s :: rest) = extent c cs := by
  obtain ⟨w, more, hText, hw⟩ : ∃ w more, cs = w ++ more ∧ w.length = (extent c cs).2 :=
    ⟨cs.take (extent c cs).2, cs.drop (extent c cs).2, (List.take_append_drop _ _).symm,
      List.length_take_of_le (extent_le c cs)⟩
  have hExtent : extent c (w ++ more) = ((extent c cs).1, w.length) := by rw [← hText, hw]
  have hSame := extent_congr hc (peek_append_separator hs more rest).symm hExtent
  rw [← List.append_assoc, ← hText, hw] at hSame
  exact hSame

theorem extent_append_newline (c : Char) (cs rest : Text) :
    extent c (cs ++ '\n' :: rest) = extent c cs := by
  cases hc : isBlank c with
  | false => exact extent_append_separator rfl hc cs rest
  | true => rw [extent_of_isBlank hc, extent_of_isBlank hc, runLength_append_of_not rfl]

theorem first_append_newline (c : Char) (cs more : Text) :
    first c (cs ++ '\n' :: more) = first c cs ∧
      rest c (cs ++ '\n' :: more) = rest c cs ++ '\n' :: more :=
  first_append_of_extent (extent_append_newline c cs more)

/-- A blank at the end of a text belongs to the first lexeme only if all of the text is blank. -/
theorem extent_append_blank {b : Char} (hb : isBlank b = true) (c : Char) (cs : Text) :
    extent c (cs ++ [b]) = extent c cs ∨
      extent c cs = (some .blank, cs.length) ∧
        extent c (cs ++ [b]) = (some .blank, cs.length + 1) := by
  cases hc : isBlank c with
  | false => exact Or.inl (extent_append_separator (isSeparator_of_isBlank hb) hc cs [])
  | true =>
    simp only [extent_of_isBlank hc, Prod.mk.injEq, true_and]
    exact runLength_append_cases hb cs

/-- A blank at the end of a text stays behind the first lexeme, or both texts have none but this. -/
theorem rest_append_blank {b : Char} (hb : isBlank b = true) (c : Char) (cs : Text) :
    (extent c (cs ++ [b])).1 = (extent c cs).1 ∧
      (rest c (cs ++ [b]) = rest c cs ++ [b] ∨ rest c (cs ++ [b]) = rest c cs) := by
  unfold rest
  rcases extent_append_blank hb c cs with hSame | ⟨hBefore, hAfter⟩
  · rw [hSame]
    refine ⟨rfl, ?_⟩
    rcases Nat.lt_or_ge cs.length (extent c cs).2 with hLt | hLe
    · have hBoth : (cs ++ [b]).length ≤ (extent c cs).2 := by
        rw [List.length_append]
        exact hLt
      right
      rw [List.drop_eq_nil_of_le hBoth, List.drop_eq_nil_of_le (Nat.le_of_lt hLt)]
    · exact Or.inl (List.drop_append_of_le_length hLe)
  · rw [hBefore, hAfter]
    exact ⟨rfl, Or.inr (by simp)⟩

end RexxEditing.Lexeme
