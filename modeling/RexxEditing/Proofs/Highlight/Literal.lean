import RexxEditing.Proofs.Highlight.WholeText

/-! # Literals

A text between two quotes is one string if every quote in it is doubled, and a text between `/*` and
`*/` is one comment if it holds no `*/`. There are no other strings and block comments, but for one
that is still open at the end of the text.

* `Piece.ofText_literal`: a region at the start of a text, and what follows it.
* `Piece.allEndWell_ofText`: where the regions of a text end.
* `classify_literal`: strings and block comments among the tokens, both ways.
-/

namespace RexxEditing

theorem Lexeme.eq_of_isLineCommentOpener {c : Char} {cs : Text} {shape : Lexeme.Shape}
    (hShape : (extent c cs).1 = some shape) (hOpener : shape.isLineCommentOpener = true) :
    c = '-' ∨ c = '#' := by
  revert hShape
  fun_cases extent c cs <;> intro hShape <;> cases hShape <;> cases hOpener
  -- two hyphens and a number sign are left
  · exact Or.inl rfl
  · exact Or.inr rfl

namespace Piece

theorem ofText_opener (region : Region) (t : Text) :
    ofText (region.opener ++ t) = resume region region.opener t := by
  cases region with
  | comment => exact ofText_region rfl rfl
  | string quote =>
    cases quote with
    | single => exact ofText_region rfl rfl
    | double => exact ofText_region rfl rfl

/-- A region that is opened and ends is one piece. -/
theorem ofText_literal {region : Region} {body rest : Text} (hBody : region.IsOpen body)
    (hRest : region.CanEndBefore rest) :
    ofText (region.opener ++ (body ++ region.closer ++ rest)) =
      closed region (region.opener ++ (body ++ region.closer)) :: ofText rest := by
  have hLength := Region.length?_of_closer hBody hRest
  rw [ofText_opener]
  simp only [resume, hLength, List.take_left, List.drop_left]

/-- What a piece says about the pieces behind it. A region that has ended cannot go on, one that has
not is the last piece, and a line comment is no block comment. -/
def EndsWell : Piece → List Piece → Prop
  | closed region word, rest => ∃ body, word = region.opener ++ (body ++ region.closer) ∧
      region.IsOpen body ∧ region.CanEndBefore (rest.flatMap text)
  | unclosed _ _, rest => rest = []
  | lineComment word, _ => word.head? ≠ some '/'
  | _, _ => True

/-- Every piece says what it must about those behind it. -/
def AllEndWell : List Piece → Prop
  | [] => True
  | piece :: rest => piece.EndsWell rest ∧ AllEndWell rest

theorem AllEndWell.endsWell {xs ys : List Piece} {piece : Piece}
    (h : AllEndWell (xs ++ piece :: ys)) : piece.EndsWell ys := by
  induction xs with
  | nil => exact h.1
  | cons x xs ih => exact ih h.2

/-- **Regions of a text** end where they can. -/
theorem allEndWell_ofText (t : Text) : AllEndWell (ofText t) := by
  fun_induction ofText t with
  | case1 => trivial
  | case2 c cs _ _ _ ih => exact ⟨trivial, ih⟩
  | case3 c cs lexeme rest shape hShape region hRegion n hLength ih =>
    obtain ⟨body, hTake, hBody, hDrop⟩ := Region.exists_closer_of_length? hLength
    refine ⟨⟨body, ?_, hBody, ?_⟩, ih⟩
    · rw [hTake]
      exact congrArg (· ++ (body ++ region.closer)) (Lexeme.extent_of_region? hShape hRegion)
    · rwa [flatMap_text_ofText]
  | case4 => exact ⟨rfl, trivial⟩
  | case5 c cs lexeme rest shape hShape hRegion hComment ih =>
    refine ⟨?_, ih⟩
    rw [Bool.and_eq_true] at hComment
    intro hHead
    have hc : c = '/' := Option.some.inj hHead
    rcases Lexeme.eq_of_isLineCommentOpener hShape hComment.1 with rfl | rfl <;> cases hc
  | case6 c cs _ _ _ _ _ _ _ ih => exact ⟨trivial, ih⟩
  | case7 c cs _ _ _ _ _ _ _ ih => exact ⟨trivial, ih⟩

end Piece

/-- **A region alone.** A text from the opener of a region to its first end is one token. -/
theorem classify_region (region : Region) {body : Text} (h : region.IsOpen body) :
    classify (region.opener ++ (body ++ region.closer)) .normal =
      ⟨[⟨region.kind, 0, (region.opener ++ (body ++ region.closer)).byteSize⟩], .normal⟩ := by
  have hEnd : region.CanEndBefore [] := by
    cases region with
    | comment => trivial
    | string quote =>
      intro hHead
      cases hHead
  have hPieces := Piece.ofText_literal h hEnd
  rw [List.append_nil] at hPieces
  rw [classify_eq_tokensOf, Piece.ofTextIn, hPieces]
  simp [Piece.ofText, Piece.tokensOf, Piece.category?, Piece.text, Piece.exitState]

/-- **Regions among the tokens.** A region has its opener and its end, or it is open at the end of
the text, or it is a line comment. -/
theorem region_cases {text : Text} {before after : List Token} {t : Token}
    (h : (classify text .normal).tokens = before ++ t :: after) (hKind : t.kind.isRegion = true) :
    (∃ region body front rest, t.kind = Region.kind region ∧
        t.Cuts text front (region.opener ++ (body ++ region.closer)) rest ∧
        region.IsOpen body ∧ region.CanEndBefore rest) ∨
      (∃ region, t.kind = Region.kind region ∧ after = [] ∧
        (classify text .normal).exit = .inside region) ∨
      t.kind = .comment ∧
        ∃ front word rest, t.Cuts text front word rest ∧ word.head? ≠ some '/' := by
  rw [classify_eq_tokensOf] at h ⊢
  obtain ⟨xs, piece, ys, hPieces, hAt⟩ := Piece.exists_tokenAt h
  have hPieces' : Piece.ofText text = xs ++ piece :: ys := hPieces
  have hEnds : piece.EndsWell ys := by
    have hAll := Piece.allEndWell_ofText text
    rw [hPieces'] at hAll
    exact hAll.endsWell
  have hCuts := hAt.cuts (hPieces ▸ Piece.flatMap_text_ofTextIn .normal text)
  have hCategory := hAt.kind_eq
  cases piece with
  | blank word => cases hCategory
  | closed region word =>
    obtain ⟨body, rfl, hBody, hRest⟩ := hEnds
    exact Or.inl ⟨region, body, _, _, (Option.some.inj hCategory).symm, hCuts, hBody, hRest⟩
  | lineComment word =>
    exact Or.inr (Or.inr ⟨(Option.some.inj hCategory).symm, _, _, _, hCuts, hEnds⟩)
  | unclosed region word =>
    obtain rfl : ys = [] := hEnds
    refine Or.inr (Or.inl ⟨region, ?_, hAt.back_eq, ?_⟩)
    · rw [Piece.category?] at hCategory
      split at hCategory
      · cases hCategory
      · exact (Option.some.inj hCategory).symm
    · rw [hPieces]
      exact Piece.exitState_concat_unclosed xs region word
  | unknown word =>
    rw [← Option.some.inj hCategory, priority_isRegion] at hKind
    cases hKind
  | code shape word =>
    rw [← Option.some.inj hCategory, priority_isRegion] at hKind
    cases hKind

/-- **Literals.** A text between quotes with every quote in it doubled is one string, and a text
without `*/` between `/*` and `*/` is one comment, on however many lines it is. Every string among
the tokens of a text is such a text, with no quote of its sort behind it, and every block comment
ends with its first `*/`, unless the token is the last and the region is still open. -/
theorem classify_literal :
    (∀ (quote : Quote) (w : Text),
      let source : Text := [quote.char] ++ (Text.doubled quote.char w ++ [quote.char])
      classify source .normal = ⟨[⟨.string, 0, source.byteSize⟩], .normal⟩) ∧
    (∀ w : Text, ¬ ['*', '/'] <:+: w →
      let source : Text := ['/', '*'] ++ (w ++ ['*', '/'])
      classify source .normal = ⟨[⟨.comment, 0, source.byteSize⟩], .normal⟩) ∧
    ∀ (text : Text) (before after : List Token) (t : Token),
      (classify text .normal).tokens = before ++ t :: after →
      (t.kind = .string →
        ¬ (after = [] ∧ ∃ quote, (classify text .normal).exit = .inside (.string quote)) →
        ∃ (quote : Quote) (w front rest : Text),
          t.Cuts text front ([quote.char] ++ (Text.doubled quote.char w ++ [quote.char])) rest ∧
          rest.head? ≠ some quote.char) ∧
      (t.kind = .comment → (∃ more, t.text? text = some ('/' :: '*' :: more)) →
        ¬ (after = [] ∧ (classify text .normal).exit = .inside .comment) →
        ∃ w : Text, t.text? text = some (['/', '*'] ++ (w ++ ['*', '/'])) ∧
          ¬ ['*', '/'] <:+: w) := by
  refine ⟨?_, ?_, ?_⟩
  · intro quote w
    exact classify_region (.string quote) ⟨w, rfl⟩
  · intro w hw
    exact classify_region .comment hw
  · intro text before after t hTokens
    constructor
    · intro hKind hClosed
      rcases region_cases hTokens (by rw [hKind]; rfl) with
        ⟨region, body, front, rest, hRegion, hCuts, hBody, hRest⟩ |
        ⟨region, hRegion, hAfter, hExit⟩ | ⟨hComment, -⟩
      · cases region with
        | comment => cases hKind.symm.trans hRegion
        | string quote =>
          obtain ⟨w, rfl⟩ := hBody
          exact ⟨quote, w, front, rest, hCuts, hRest⟩
      · cases region with
        | comment => cases hKind.symm.trans hRegion
        | string quote => exact absurd ⟨hAfter, quote, hExit⟩ hClosed
      · cases hKind.symm.trans hComment
    · rintro hKind ⟨more, hMore⟩ hClosed
      rcases region_cases hTokens (by rw [hKind]; rfl) with
        ⟨region, body, front, rest, hRegion, hCuts, hBody, -⟩ | ⟨region, hRegion, hAfter, hExit⟩ |
        ⟨-, front, word, rest, hCuts, hHead⟩
      · cases region with
        | comment => exact ⟨body, hCuts.text?, hBody⟩
        | string quote => cases hKind.symm.trans hRegion
      · cases region with
        | comment => exact absurd ⟨hAfter, hExit⟩ hClosed
        | string quote => cases hKind.symm.trans hRegion
      · obtain rfl := Option.some.inj (hCuts.text?.symm.trans hMore)
        exact absurd rfl hHead

/-- A string and a comment over a line end each, in front of a string that is left open. -/
theorem classify_literal_over_lines :
    let text : Text := "say 'it''s\n x' /* a\n*/ \"b".toList
    classify text .normal =
        ⟨[⟨.keyword, 0, 3⟩, ⟨.string, 4, 14⟩, ⟨.comment, 15, 22⟩, ⟨.string, 23, 25⟩],
          .inside (.string .double)⟩ ∧
      (∃ (quote : Quote) (w front rest : Text),
        Token.Cuts ⟨.string, 4, 14⟩ text front
          ([quote.char] ++ (Text.doubled quote.char w ++ [quote.char])) rest ∧
        rest.head? ≠ some quote.char) ∧
      ∃ w : Text, Token.text? ⟨.comment, 15, 22⟩ text = some (['/', '*'] ++ (w ++ ['*', '/'])) ∧
        ¬ ['*', '/'] <:+: w := by
  intro text
  have hText : classify text .normal =
      ⟨[⟨.keyword, 0, 3⟩, ⟨.string, 4, 14⟩, ⟨.comment, 15, 22⟩, ⟨.string, 23, 25⟩],
        .inside (.string .double)⟩ := by
    decide +kernel
  have hString := classify_literal.2.2 text [⟨.keyword, 0, 3⟩]
    [⟨.comment, 15, 22⟩, ⟨.string, 23, 25⟩] ⟨.string, 4, 14⟩ (by rw [hText]; rfl)
  have hComment := classify_literal.2.2 text [⟨.keyword, 0, 3⟩, ⟨.string, 4, 14⟩]
    [⟨.string, 23, 25⟩] ⟨.comment, 15, 22⟩ (by rw [hText]; rfl)
  exact ⟨hText, hString.1 rfl (by simp),
    hComment.2 rfl ⟨" a\n*/".toList, by decide +kernel⟩ (by simp)⟩

end RexxEditing
