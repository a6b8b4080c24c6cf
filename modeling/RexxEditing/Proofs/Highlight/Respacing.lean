import RexxEditing.Proofs.Highlight.Locality

/-! # White space only separates

The tokens of a line stay the same, in category and text, when the blanks between them are replaced
by others. Where there were blanks, some must remain, and where there were none, none may come. In
front of the first token they may come and go.

* `Piece.ofText_append_congr`: a piece is found again whatever blanks follow it.
* `Piece.Respaced`: pieces that differ in their blanks only.
* `classify_respaced`: the tokens of a line with other blanks.
-/

namespace RexxEditing

/-! ## Texts that start alike -/

/-- Both texts start with the same character, or both with a blank, or both are empty. -/
inductive Text.StartsAlike : Text → Text → Prop
  | nil : StartsAlike [] []
  | same (c : Char) (t t' : Text) : StartsAlike (c :: t) (c :: t')
  | blank {b b' : Char} (hb : Text.isBlank b = true) (hb' : Text.isBlank b' = true) (t t' : Text) :
      StartsAlike (b :: t) (b' :: t')

namespace Text.StartsAlike

variable {t t' : Text}

theorem append {u : Text} (hu : u ≠ []) (t t' : Text) : StartsAlike (u ++ t) (u ++ t') := by
  obtain ⟨c, cs, rfl⟩ := List.exists_cons_of_ne_nil hu
  exact .same c _ _

theorem peek_eq (h : t.StartsAlike t') : Lexeme.peek t = Lexeme.peek t' := by
  cases h with
  | nil => rfl
  | same => rfl
  | blank hb hb' =>
    rw [Lexeme.peek_of_isSeparator (Lexeme.isSeparator_of_isBlank hb),
      Lexeme.peek_of_isSeparator (Lexeme.isSeparator_of_isBlank hb')]

theorem startsLineComment_eq (h : t.StartsAlike t') :
    Region.startsLineComment t' = Region.startsLineComment t := by
  cases h with
  | nil => rfl
  | same => rfl
  | blank hb hb' =>
    rw [Region.startsLineComment, Region.startsLineComment, isWhite_of_isBlank hb,
      isWhite_of_isBlank hb']

theorem canEndBefore (h : t.StartsAlike t') {region : Region} (hRegion : region.CanEndBefore t) :
    region.CanEndBefore t' := by
  cases region with
  | comment => trivial
  | string quote =>
    cases h with
    | nil => exact hRegion
    | same => exact hRegion
    | blank hb hb' =>
      intro hHead
      obtain rfl := Option.some.inj hHead
      cases quote <;> cases hb'

theorem not_isBlank (h : t.StartsAlike t') (ht : ∀ c, t.head? = some c → isBlank c = false) :
    ∀ c, t'.head? = some c → isBlank c = false := by
  cases h with
  | nil => exact ht
  | same => exact ht
  | @blank b _ hb =>
    have hNot := ht b rfl
    rw [hb] at hNot
    cases hNot

end Text.StartsAlike

/-! ## Pieces and what follows them -/

theorem Lexeme.first_congr {c : Char} {cs more : Text} (hc : Text.isBlank c = false)
    (h : Text.StartsAlike (rest c cs) more) :
    first c (cs.take (extent c cs).2 ++ more) = first c cs ∧
      rest c (cs.take (extent c cs).2 ++ more) = more := by
  have hLength : (cs.take (extent c cs).2).length = (extent c cs).2 :=
    List.length_take_of_le (extent_le c cs)
  have hExtent : extent c (cs.take (extent c cs).2 ++ rest c cs) =
      ((extent c cs).1, (cs.take (extent c cs).2).length) := by
    rw [rest, List.take_append_drop, hLength]
  have hSame := extent_congr hc h.peek_eq hExtent
  constructor
  · rw [first, hSame, List.take_left]
    rfl
  · rw [rest, hSame, List.drop_left]

theorem Lexeme.isBlank_eq_false {c : Char} {cs : Text} (h : (first c cs).isSpace = false) :
    Text.isBlank c = false := by
  rw [← isSeparator_eq_isSpace List.mem_cons_self, Text.isSeparator, Bool.or_eq_false_iff] at h
  exact h.1

namespace Piece

theorem exists_rest_of_ofText {t : Text} {piece : Piece} {pieces : List Piece}
    (h : ofText t = piece :: pieces) : ∃ more, pieces = ofText more := by
  fun_induction ofText t with
  | case1 => cases h
  | case4 =>
    obtain ⟨-, rfl⟩ := List.cons.inj h
    exact ⟨[], by rw [ofText]⟩
  | case2 | case3 | case5 | case6 | case7 =>
    obtain ⟨-, rfl⟩ := List.cons.inj h
    exact ⟨_, rfl⟩

theorem ofText_tail {t : Text} {piece : Piece} {pieces : List Piece}
    (h : ofText t = piece :: pieces) : ofText (pieces.flatMap text) = pieces := by
  obtain ⟨more, rfl⟩ := exists_rest_of_ofText h
  rw [flatMap_text_ofText]

/-- The pieces of a text without its first ones are those of the rest. -/
theorem ofText_suffix {t : Text} {xs ys : List Piece} (h : ofText t = xs ++ ys) :
    ofText (ys.flatMap text) = ys := by
  induction xs generalizing t with
  | nil =>
    rw [List.nil_append] at h
    rw [← h, flatMap_text_ofText]
  | cons x xs ih => exact ih (ofText_tail h)

theorem resume_congr {region : Region} {waiting t more : Text} {n : Nat}
    (hLength : region.length? t = some n) (hAlike : Text.StartsAlike (t.drop n) more) :
    resume region waiting (t.take n ++ more) =
      closed region (waiting ++ t.take n) :: ofText more := by
  have hLe := (Region.length?_bounds hLength).2
  have hTake : (t.take n).length = n := List.length_take_of_le hLe
  obtain ⟨body, hBody, hOpen, hEnd⟩ := Region.exists_closer_of_length? hLength
  have hSame := Region.length?_of_closer hOpen (hAlike.canEndBefore hEnd)
  rw [← hBody, hTake] at hSame
  simp only [resume, hSame, List.take_left' hTake, List.drop_left' hTake]

/-- **A piece and what follows it.** A piece that is no blank is found again when what follows it
starts alike. -/
theorem ofText_append_congr {t more : Text} {piece : Piece} {pieces : List Piece}
    (hLine : '\n' ∉ t) (h : ofText t = piece :: pieces) (hBlank : piece.isBlank = false)
    (hAlike : Text.StartsAlike (pieces.flatMap text) more) :
    ofText (piece.text ++ more) = piece :: ofText more := by
  -- the last piece of the text has nothing behind it
  have hLast (hNil : pieces = []) : ofText (piece.text ++ more) = piece :: ofText more := by
    subst hNil
    cases hAlike
    have hText := flatMap_text_ofText t
    rw [h, List.flatMap_singleton] at hText
    rw [List.append_nil, hText, h, ofText]
  fun_induction ofText t with
  | case1 => cases h
  | case2 c cs lexeme rest hShape _ =>
    obtain ⟨rfl, rfl⟩ := List.cons.inj h
    rw [flatMap_text_ofText] at hAlike
    have hSpace : (Lexeme.first c cs).isSpace = false := by
      rw [Lexeme.isSpace, show (Lexeme.first c cs).shape? = none from hShape]
      rfl
    obtain ⟨hFirst, hRest⟩ := Lexeme.first_congr (Lexeme.isBlank_eq_false hSpace) hAlike
    have hUnknown := ofText_unknown
      (show (Lexeme.first c _).shape? = none by rw [hFirst]; exact hShape)
    rw [hFirst, hRest] at hUnknown
    exact hUnknown
  | case3 c cs lexeme rest shape hShape region hRegion n hLength _ =>
    obtain ⟨rfl, rfl⟩ := List.cons.inj h
    rw [flatMap_text_ofText] at hAlike
    have hSpace : (Lexeme.first c cs).isSpace = false := by
      rw [Lexeme.isSpace, show (Lexeme.first c cs).shape? = some shape from hShape]
      cases shape <;> cases hRegion <;> rfl
    obtain ⟨hPos, hLe⟩ := Region.length?_bounds hLength
    have hInner : Text.StartsAlike rest (rest.take n ++ more) := by
      have hTake : rest.take n ≠ [] := by
        rw [ne_eq, List.take_eq_nil_iff, not_or]
        exact ⟨by omega, List.ne_nil_of_length_pos (by omega)⟩
      have hStart := Text.StartsAlike.append hTake (rest.drop n) more
      rwa [List.take_append_drop] at hStart
    obtain ⟨hFirst, hRest⟩ := Lexeme.first_congr (Lexeme.isBlank_eq_false hSpace) hInner
    have hOpened := ofText_region
      (show (Lexeme.first c _).shape? = some shape by rw [hFirst]; exact hShape) hRegion
    rw [hFirst, hRest, resume_congr hLength hAlike] at hOpened
    rw [← hOpened, Piece.text, List.append_assoc]
    rfl
  | case4 =>
    obtain ⟨rfl, rfl⟩ := List.cons.inj h
    exact hLast rfl
  | case5 c cs lexeme rest shape hShape hRegion hComment _ =>
    obtain ⟨rfl, rfl⟩ := List.cons.inj h
    apply hLast
    have hAll : ∀ d ∈ rest, (d != '\n') = true := by
      intro d hd
      rw [bne_iff_ne]
      rintro rfl
      exact hLine (List.mem_cons_of_mem c (List.mem_of_mem_drop hd))
    rw [List.dropWhile_eq_nil_iff.2 hAll, ofText]
  | case6 =>
    obtain ⟨rfl, -⟩ := List.cons.inj h
    cases hBlank
  | case7 c cs lexeme rest shape hShape hRegion hComment hSpace _ =>
    obtain ⟨rfl, rfl⟩ := List.cons.inj h
    rw [flatMap_text_ofText] at hAlike
    have hSpace' : (Lexeme.first c cs).isSpace = false := by
      rw [Lexeme.isSpace, show (Lexeme.first c cs).shape? = some shape from hShape]
      simpa using hSpace
    obtain ⟨hFirst, hRest⟩ := Lexeme.first_congr (Lexeme.isBlank_eq_false hSpace') hAlike
    have hCode := ofText_code
      (show (Lexeme.first c _).shape? = some shape by rw [hFirst]; exact hShape) hRegion
      (by rw [hRest, hAlike.startsLineComment_eq]; exact hComment) hSpace
    rw [hFirst, hRest] at hCode
    exact hCode

/-! ## Runs of blanks -/

theorem ofText_blank_append {gap rest : Text} (hne : gap ≠ [])
    (hGap : ∀ c ∈ gap, Text.isBlank c = true)
    (hRest : ∀ c, rest.head? = some c → Text.isBlank c = false) :
    ofText (gap ++ rest) = blank gap :: ofText rest := by
  obtain ⟨c, cs, rfl⟩ := List.exists_cons_of_ne_nil hne
  obtain ⟨hc, hcs⟩ := List.forall_mem_cons.1 hGap
  have hRun : Lexeme.runLength Text.isBlank (cs ++ rest) = cs.length :=
    Lexeme.runLength_append_iff.2 ⟨hcs, hRest⟩
  have hExtent : Lexeme.extent c (cs ++ rest) = (some .blank, cs.length) := by
    rw [Lexeme.extent_of_isBlank hc, hRun]
  have hBlank := ofText_blank (show (Lexeme.first c (cs ++ rest)).shape? = some .blank by
    rw [Lexeme.first, hExtent]) rfl (by simp [Lexeme.Shape.isLineCommentOpener]) rfl
  rw [Lexeme.first, Lexeme.rest, hExtent, List.take_left, List.drop_left] at hBlank
  exact hBlank

/-- A blank of a line is a run of blanks, and no blank follows it. -/
theorem isBlank_of_ofText {t gap : Text} {pieces : List Piece} (hLine : '\n' ∉ t)
    (h : ofText t = blank gap :: pieces) :
    gap ≠ [] ∧ (∀ c ∈ gap, Text.isBlank c = true) ∧
      ∀ c, (pieces.flatMap text).head? = some c → Text.isBlank c = false := by
  fun_induction ofText t with
  | case1 => cases h
  | case6 c cs lexeme rest shape hShape _ _ hSpace _ =>
    obtain ⟨hBlank, rfl⟩ := List.cons.inj h
    obtain rfl : lexeme.text = gap := Piece.blank.inj hBlank
    have hc : Text.isBlank c = true := by
      have hSep : Text.isSeparator c = true := by
        rw [Lexeme.isSeparator_eq_isSpace List.mem_cons_self, Lexeme.isSpace,
          show (Lexeme.first c cs).shape? = some shape from hShape]
        exact hSpace
      rw [Text.isSeparator, Bool.or_eq_true, beq_iff_eq] at hSep
      refine hSep.resolve_right ?_
      rintro rfl
      exact hLine List.mem_cons_self
    rw [flatMap_text_ofText]
    simp only [lexeme, rest, Lexeme.first, Lexeme.rest, Lexeme.extent_of_isBlank hc]
    refine ⟨List.cons_ne_nil _ _, ?_, ?_⟩
    · exact List.forall_mem_cons.2 ⟨hc, fun d hd => Lexeme.of_mem_take_runLength hd⟩
    · intro d hd
      have hNot := List.head?_dropWhile_not Text.isBlank cs
      rw [Lexeme.drop_runLength] at hd
      rw [hd] at hNot
      exact hNot
  | case2 | case3 | case4 | case5 | case7 => cases h

/-! ## Pieces with other blanks -/

/-- Pieces that differ in their blanks only. -/
inductive Respaced : List Piece → List Piece → Prop
  | nil : Respaced [] []
  | blank {gap gap' : Text} {pieces pieces' : List Piece} (hGap : gap ≠ [])
      (hBlank : ∀ c ∈ gap, Text.isBlank c = true) (hGap' : gap' ≠ [])
      (hBlank' : ∀ c ∈ gap', Text.isBlank c = true) (h : Respaced pieces pieces') :
      Respaced (blank gap :: pieces) (blank gap' :: pieces')
  | word {piece : Piece} {pieces pieces' : List Piece} (hPiece : piece.isBlank = false)
      (hText : piece.text ≠ []) (h : Respaced pieces pieces') :
      Respaced (piece :: pieces) (piece :: pieces')

/-- The categories and texts of pieces, with the pieces `before` in front of them. -/
def words (before : List Piece) : List Piece → List (Kind × Text)
  | [] => []
  | piece :: after =>
    ((piece.category? before after).map (·, piece.text)).toList ++ words (piece :: before) after

theorem words_congr {before before' : List Piece} (h : side before = side before')
    (pieces : List Piece) : words before pieces = words before' pieces := by
  induction pieces generalizing before before' with
  | nil => rfl
  | cons piece pieces ih =>
    rw [words, words, category?_congr h rfl piece]
    exact congrArg _ (ih (side_append_congr h [piece]))

namespace Respaced

variable {pieces pieces' : List Piece}

theorem startsAlike (h : Respaced pieces pieces') :
    Text.StartsAlike (pieces.flatMap text) (pieces'.flatMap text) := by
  cases h with
  | nil => exact .nil
  | @blank gap gap' _ _ hGap hBlank hGap' hBlank' =>
    obtain ⟨c, cs, rfl⟩ := List.exists_cons_of_ne_nil hGap
    obtain ⟨c', cs', rfl⟩ := List.exists_cons_of_ne_nil hGap'
    exact .blank (hBlank c List.mem_cons_self) (hBlank' c' List.mem_cons_self) _ _
  | word hPiece hText =>
    rw [List.flatMap_cons, List.flatMap_cons]
    exact .append hText _ _

theorem side_blank_eq {gap gap' : Text} (hBlank : ∀ c ∈ gap, Text.isBlank c = true)
    (hBlank' : ∀ c ∈ gap', Text.isBlank c = true) (h : side pieces = side pieces') :
    side (Piece.blank gap :: pieces) = side (Piece.blank gap' :: pieces') := by
  have hFeed {gap : Text} (hBlank : ∀ c ∈ gap, Text.isBlank c = true) :
      ¬ gap.contains '\n' = true := by
    intro hMem
    have hNewline := hBlank '\n' (by simpa using hMem)
    cases hNewline
  rw [side, side, if_neg (hFeed hBlank), if_neg (hFeed hBlank'), h]

theorem side_eq (h : Respaced pieces pieces') : side pieces = side pieces' := by
  induction h with
  | nil => rfl
  | blank _ hBlank _ hBlank' _ ih => exact side_blank_eq hBlank hBlank' ih
  | @word piece _ _ hPiece =>
    cases piece with
    | blank gap => cases hPiece
    | _ => rfl

/-- The line with other blanks is cut in the pieces with other blanks. -/
theorem ofText_eq (h : Respaced pieces pieces') (hLine : '\n' ∉ pieces.flatMap text)
    (hPieces : ofText (pieces.flatMap text) = pieces) :
    ofText (pieces'.flatMap text) = pieces' := by
  induction h with
  | nil => exact hPieces
  | @blank gap gap' pieces pieces' _ _ hGap' hBlank' h ih =>
    obtain ⟨-, -, hHead⟩ := isBlank_of_ofText hLine hPieces
    have hBelow := ih (fun hMem => hLine (List.mem_append_right gap hMem))
      (ofText_tail hPieces)
    have hCut := ofText_blank_append hGap' hBlank' (h.startsAlike.not_isBlank hHead)
    rw [hBelow] at hCut
    exact hCut
  | @word piece pieces pieces' hPiece _ h ih =>
    have hBelow := ih (fun hMem => hLine (List.mem_append_right piece.text hMem))
      (ofText_tail hPieces)
    have hCut := ofText_append_congr hLine hPieces hPiece h.startsAlike
    rw [hBelow] at hCut
    exact hCut

theorem words_eq (h : Respaced pieces pieces') {before before' : List Piece}
    (hBefore : side before = side before') : words before pieces = words before' pieces' := by
  induction h generalizing before before' with
  | nil => rfl
  | blank _ hBlank _ hBlank' _ ih => exact ih (side_blank_eq hBlank hBlank' hBefore)
  | @word piece _ _ _ _ h ih =>
    rw [words, words, category?_congr hBefore h.side_eq piece]
    exact congrArg _ (ih (side_append_congr hBefore [piece]))

theorem exitState_eq (h : Respaced pieces pieces') : exitState pieces = exitState pieces' := by
  have hCons (piece next : Piece) (rest : List Piece) :
      exitState (piece :: next :: rest) = exitState (next :: rest) := by
    simp only [exitState, List.getLast?_cons_cons]
  induction h with
  | nil => rfl
  | blank _ _ _ _ _ ih => rw [exitState_cons rfl, exitState_cons rfl, ih]
  | word _ _ h ih =>
    cases h with
    | nil => rfl
    | blank => rw [hCons, hCons, ih]
    | word => rw [hCons, hCons, ih]

/-- The pieces of a line differ in nothing from themselves. -/
theorem refl {pieces : List Piece} (hLine : '\n' ∉ pieces.flatMap text)
    (hPieces : ofText (pieces.flatMap text) = pieces) : Respaced pieces pieces := by
  induction pieces with
  | nil => exact .nil
  | cons piece pieces ih =>
    have hRest := ih (fun hMem => hLine (List.mem_append_right piece.text hMem))
      (ofText_tail hPieces)
    cases hPiece : piece.isBlank with
    | true =>
      cases piece with
      | blank gap =>
        obtain ⟨hGap, hBlank, -⟩ := isBlank_of_ofText hLine hPieces
        exact .blank hGap hBlank hGap hBlank hRest
      | _ => cases hPiece
    | false =>
      have hMem : piece ∈ ofText ((piece :: pieces).flatMap text) := by
        rw [hPieces]
        exact List.mem_cons_self
      exact .word hPiece (text_ne_nil hMem) hRest

end Respaced

/-! ## Blanks and tokens -/

theorem isBlank_of_tokensOf_eq_nil {base : Nat} {before pieces after : List Piece}
    (hne : ∀ p ∈ pieces, p.text ≠ []) (h : tokensOf base before pieces after = []) :
    ∀ p ∈ pieces, p.isBlank = true := by
  induction pieces generalizing base before with
  | nil => simp
  | cons piece pieces ih =>
    obtain ⟨hPiece, hPieces⟩ := List.forall_mem_cons.1 hne
    rw [tokensOf, List.append_eq_nil_iff] at h
    refine List.forall_mem_cons.2 ⟨?_, ih hPieces h.2⟩
    cases hBlank : piece.isBlank with
    | true => rfl
    | false =>
      obtain ⟨kind, hKind⟩ := exists_category? hBlank hPiece before (pieces ++ after)
      rw [hKind] at h
      cases h.1

/-- There are no two blanks next to each other on a line. -/
theorem eq_blank_of_isBlank {t : Text} {xs ys : List Piece} (hLine : '\n' ∉ t)
    (h : ofText t = xs ++ ys) (hBlank : ∀ p ∈ xs, p.isBlank = true) :
    xs = [] ∨ ∃ gap, xs = [blank gap] := by
  cases xs with
  | nil => exact Or.inl rfl
  | cons x xs =>
    obtain ⟨hx, hxs⟩ := List.forall_mem_cons.1 hBlank
    cases x with
    | blank gap =>
      refine Or.inr ⟨gap, ?_⟩
      cases xs with
      | nil => rfl
      | cons y zs =>
        -- a second blank would belong to the first
        obtain ⟨-, -, hHead⟩ := isBlank_of_ofText hLine h
        have hText := flatMap_text_ofText t
        rw [h] at hText
        have hRest : '\n' ∉ (y :: zs ++ ys).flatMap text := by
          intro hMem
          rw [← hText] at hLine
          exact hLine (List.mem_append_right gap hMem)
        have hSuffix := ofText_tail h
        have hy := hxs y List.mem_cons_self
        cases y with
        | blank gap' =>
          obtain ⟨hGap, hAll, -⟩ := isBlank_of_ofText hRest hSuffix
          obtain ⟨c, cs, rfl⟩ := List.exists_cons_of_ne_nil hGap
          have hc := hAll c List.mem_cons_self
          rw [hHead c rfl] at hc
          cases hc
        | _ => cases hy
    | _ => cases hx

theorem not_isBlank_head {t : Text} {piece : Piece} {pieces : List Piece}
    (h : ofText t = piece :: pieces) (hPiece : piece.isBlank = false) :
    ∀ c, t.head? = some c → Text.isBlank c = false := by
  intro c hc
  obtain ⟨cs, rfl⟩ := List.head?_eq_some_iff.1 hc
  rw [Bool.eq_false_iff]
  intro hBlank
  have hShape : (Lexeme.first c cs).shape? = some .blank := by
    rw [Lexeme.first, Lexeme.extent_of_isBlank hBlank]
  rw [ofText_blank hShape rfl (by simp [Lexeme.Shape.isLineCommentOpener]) rfl] at h
  obtain ⟨rfl, -⟩ := List.cons.inj h
  cases hPiece

theorem map_reading_tokensOf {source front : Text} {pieces : List Piece}
    (hSource : source = front ++ pieces.flatMap text) (before : List Piece) :
    (tokensOf front.byteSize before pieces []).map (Token.reading source) =
      (words before pieces).map fun (kind, word) => (kind, some word) := by
  induction pieces generalizing front before with
  | nil => rfl
  | cons piece rest ih =>
    rw [List.flatMap_cons] at hSource
    have hRest := ih (hSource.trans (List.append_assoc _ _ _).symm) (piece :: before)
    rw [Text.byteSize_append] at hRest
    have hToken (kind : Kind) : Token.reading source
        ⟨kind, front.byteSize, front.byteSize + piece.text.byteSize⟩ = (kind, some piece.text) := by
      rw [hSource, ← List.append_assoc]
      exact Token.reading_append kind front piece.text _
    rw [tokensOf, words, List.map_append, List.map_append, hRest, List.append_nil]
    cases piece.category? before rest with
    | none => rfl
    | some kind => simp [hToken]

end Piece

theorem Text.append_inj_of_byteSize {s s' t t' : Text} (h : s ++ t = s' ++ t')
    (hSize : s.byteSize = s'.byteSize) : s = s' ∧ t = t' := by
  have hCut := Text.cut?_append s t
  rw [h, hSize, Text.cut?_append] at hCut
  obtain ⟨hs, ht⟩ := Prod.mk.inj (Option.some.inj hCut)
  exact ⟨hs.symm, ht.symm⟩

/-! ## Tokens with other blanks -/

/-- `Respaced start tokens text text'`: the text starts at byte `start` behind a token, the tokens
are in their places in it, and `text'` is the text with other blanks in the gaps before the tokens.
-/
inductive Token.Respaced : Nat → List Token → Text → Text → Prop
  | tail (start : Nat) (rest : Text) : Respaced start [] rest rest
  | token {start : Nat} {kind : Kind} {gap gap' word rest rest' : Text} {tokens : List Token}
      (hBlank : ∀ c ∈ gap', Text.isBlank c = true) (hGap : gap = [] ↔ gap' = [])
      (h : Respaced (start + gap.byteSize + word.byteSize) tokens rest rest') :
      Respaced start (⟨kind, start + gap.byteSize, start + gap.byteSize + word.byteSize⟩ :: tokens)
        (gap ++ word ++ rest) (gap' ++ word ++ rest')

/-- The same for a line, where there may be any blanks in front of the first token. -/
inductive Token.RespacedLine : List Token → Text → Text → Prop
  | blank (line : Text) {line' : Text} (hBlank : ∀ c ∈ line', Text.isBlank c = true) :
      RespacedLine [] line line'
  | token {kind : Kind} {gap gap' word rest rest' : Text} {tokens : List Token}
      (hBlank : ∀ c ∈ gap', Text.isBlank c = true)
      (h : Respaced (gap.byteSize + word.byteSize) tokens rest rest') :
      RespacedLine (⟨kind, gap.byteSize, gap.byteSize + word.byteSize⟩ :: tokens)
        (gap ++ word ++ rest) (gap' ++ word ++ rest')

/-- The first token of a line, as a gap and a word in front of the rest of the line. -/
theorem Piece.exists_word {start : Nat} {before : List Piece} {kind : Kind} {gap word rest : Text}
    {tokens : List Token} (hLine : '\n' ∉ gap ++ word ++ rest)
    (h : tokensOf start before (ofText (gap ++ word ++ rest)) [] =
      ⟨kind, start + gap.byteSize, start + gap.byteSize + word.byteSize⟩ :: tokens) :
    ∃ xs piece, ofText (gap ++ word ++ rest) = xs ++ piece :: ofText rest ∧
      (gap = [] ∧ xs = [] ∨ gap ≠ [] ∧ xs = [blank gap]) ∧
      piece.isBlank = false ∧ piece.text = word ∧ piece.text ≠ [] ∧
      tokensOf (start + gap.byteSize + word.byteSize) (piece :: (xs.reverse ++ before))
        (ofText rest) [] = tokens := by
  obtain ⟨xs, piece, ys, hPieces, hAt⟩ := exists_tokenAt
    (show tokensOf start before (ofText (gap ++ word ++ rest)) [] = [] ++ _ :: tokens from h)
  have hText := flatMap_text_ofText (gap ++ word ++ rest)
  rw [hPieces, List.flatMap_append, List.flatMap_cons, List.append_assoc] at hText
  have hNonempty : ∀ p ∈ xs ++ piece :: ys, p.text ≠ [] := by
    rw [← hPieces]
    intro p hp
    exact text_ne_nil hp
  obtain ⟨hXs, hYs⟩ := List.forall_mem_append.1 hNonempty
  -- the places of the token give its gap and its word
  obtain ⟨hStart, hStop⟩ := Span.mk.inj hAt.span_eq
  obtain ⟨hGap, hTail⟩ := Text.append_inj_of_byteSize hText (by omega)
  obtain ⟨hWord, hRest⟩ := Text.append_inj_of_byteSize hTail (by omega)
  obtain rfl : ofText rest = ys := by
    rw [← hRest]
    exact ofText_tail (ofText_suffix hPieces)
  have hPiece : piece.isBlank = false := by
    have hKind := hAt.kind_eq
    cases piece with
    | blank gap => cases hKind
    | _ => rfl
  have hBlank := eq_blank_of_isBlank hLine hPieces
    (isBlank_of_tokensOf_eq_nil hXs hAt.front_eq.symm)
  refine ⟨xs, piece, hPieces, ?_, hPiece, hWord, hYs piece List.mem_cons_self, hAt.back_eq.symm⟩
  rcases hBlank with rfl | ⟨gap', rfl⟩
  · exact Or.inl ⟨hGap.symm, rfl⟩
  · have hSame : gap' = gap := by simpa [Piece.text] using hGap
    have hne : gap' ≠ [] := hXs _ List.mem_cons_self
    subst hSame
    exact Or.inr ⟨hne, rfl⟩

/-- **Other blanks** between tokens are other blanks between pieces. -/
theorem Token.Respaced.exists_pieces {start : Nat} {tokens : List Token} {text text' : Text}
    (h : Respaced start tokens text text') {before : List Piece} (hLine : '\n' ∉ text)
    (hTokens : Piece.tokensOf start before (Piece.ofText text) [] = tokens) :
    ∃ pieces', Piece.Respaced (Piece.ofText text) pieces' ∧ text' = pieces'.flatMap Piece.text := by
  induction h generalizing before with
  | tail start rest =>
    have hText := Piece.flatMap_text_ofText rest
    refine ⟨Piece.ofText rest, .refl ?_ ?_, hText.symm⟩
    · rwa [hText]
    · rw [hText]
  | @token start kind gap gap' word rest rest' tokens hBlank hGap h ih =>
    obtain ⟨xs, piece, hPieces, hXs, hPiece, rfl, hText, hBelow⟩ := Piece.exists_word hLine hTokens
    obtain ⟨ys', hRespaced, rfl⟩ := ih (fun hMem => hLine (List.mem_append_right _ hMem)) hBelow
    rcases hXs with ⟨hNil, rfl⟩ | ⟨hne, rfl⟩
    · rw [hPieces, hGap.1 hNil]
      exact ⟨piece :: ys', .word hPiece hText hRespaced, by simp⟩
    · obtain ⟨-, hOld, -⟩ := Piece.isBlank_of_ofText hLine hPieces
      rw [hPieces]
      refine ⟨.blank gap' :: piece :: ys', ?_, by simp [Piece.text]⟩
      exact .blank hne hOld (fun hNil => hne (hGap.2 hNil)) hBlank (.word hPiece hText hRespaced)

theorem Piece.isGap_of_isBlank {t : Text} {piece : Piece} (hLine : '\n' ∉ t)
    (hMem : piece ∈ ofText t) (h : piece.isBlank = true) : piece.IsGap := by
  cases piece with
  | blank gap =>
    refine ⟨gap, rfl, ?_⟩
    intro hFeed
    rw [← flatMap_text_ofText t] at hLine
    exact hLine (List.mem_flatMap.2 ⟨_, hMem, hFeed⟩)
  | _ => cases h

/-- Blanks in front of a text that starts with none. -/
theorem Piece.exists_lead {gap rest : Text} (hBlank : ∀ c ∈ gap, Text.isBlank c = true)
    (hRest : ∀ c, rest.head? = some c → Text.isBlank c = false) :
    ∃ lead, ofText (gap ++ rest) = lead ++ ofText rest ∧ ∀ p ∈ lead, p.IsGap := by
  by_cases hGap : gap = []
  · exact ⟨[], by rw [hGap]; rfl, by simp⟩
  · refine ⟨[blank gap], ofText_blank_append hGap hBlank hRest, ?_⟩
    refine List.forall_mem_singleton.2 ⟨gap, rfl, ?_⟩
    intro hMem
    have hNewline := hBlank '\n' hMem
    cases hNewline

/-- A line with other blanks has the same words behind blanks of its own. -/
theorem Token.RespacedLine.exists_pieces {tokens : List Token} {line line' : Text}
    (h : RespacedLine tokens line line') (hLine : '\n' ∉ line)
    (hTokens : Piece.tokensOf 0 [] (Piece.ofText line) [] = tokens) :
    ∃ lead lead' pieces pieces', Piece.ofText line = lead ++ pieces ∧
      Piece.ofText line' = lead' ++ pieces' ∧ Piece.Respaced pieces pieces' ∧
      (∀ p ∈ lead, p.IsGap) ∧ ∀ p ∈ lead', p.IsGap := by
  cases h with
  | @blank _ line' hBlank =>
    have hNone : ∀ c, ([] : Text).head? = some c → Text.isBlank c = false := by simp
    obtain ⟨lead', hLead', hGaps'⟩ := Piece.exists_lead hBlank hNone
    rw [List.append_nil, Piece.ofText] at hLead'
    refine ⟨Piece.ofText line, lead', [], [], (List.append_nil _).symm, hLead', .nil, ?_, hGaps'⟩
    intro p hp
    apply Piece.isGap_of_isBlank hLine hp
    exact Piece.isBlank_of_tokensOf_eq_nil (fun _ hq => Piece.text_ne_nil hq) hTokens p hp
  | @token kind gap gap' word rest rest' tokens hBlank h =>
    have hFirst : Piece.tokensOf 0 [] (Piece.ofText (gap ++ word ++ rest)) [] =
        ⟨kind, 0 + gap.byteSize, 0 + gap.byteSize + word.byteSize⟩ :: tokens := by
      rw [Nat.zero_add]
      exact hTokens
    obtain ⟨xs, piece, hPieces, hXs, hPiece, rfl, hText, hBelow⟩ := Piece.exists_word hLine hFirst
    rw [Nat.zero_add] at hBelow
    obtain ⟨ys', hRespaced, rfl⟩ :=
      h.exists_pieces (fun hMem => hLine (List.mem_append_right _ hMem)) hBelow
    have hWords : Piece.Respaced (piece :: Piece.ofText rest) (piece :: ys') :=
      .word hPiece hText hRespaced
    have hFree : '\n' ∉ (piece :: Piece.ofText rest).flatMap Piece.text := by
      rw [List.flatMap_cons, Piece.flatMap_text_ofText]
      rw [List.append_assoc] at hLine
      exact fun hMem => hLine (List.mem_append_right gap hMem)
    have hCut := hWords.ofText_eq hFree (Piece.ofText_suffix hPieces)
    obtain ⟨lead', hLead', hGaps'⟩ := Piece.exists_lead hBlank (Piece.not_isBlank_head hCut hPiece)
    rw [hCut, List.flatMap_cons, ← List.append_assoc] at hLead'
    refine ⟨xs, lead', _, _, hPieces, hLead', hWords, ?_, hGaps'⟩
    intro p hp
    apply Piece.isGap_of_isBlank hLine (by rw [hPieces]; exact List.mem_append_left _ hp)
    rcases hXs with ⟨-, rfl⟩ | ⟨-, rfl⟩
    · cases hp
    · obtain rfl := List.mem_singleton.1 hp
      rfl

/-- Blanks in front of a line are no words and change none. -/
theorem Piece.words_gaps_append {gaps : List Piece} (h : ∀ p ∈ gaps, p.IsGap) {before : List Piece}
    (hBefore : side before = .nothing) (pieces : List Piece) :
    words before (gaps ++ pieces) = words [] pieces := by
  induction gaps generalizing before with
  | nil => exact words_congr hBefore pieces
  | cons gap gaps ih =>
    obtain ⟨⟨word, rfl, hWord⟩, hGaps⟩ := List.forall_mem_cons.1 h
    have hNext : side (blank word :: before) = .nothing := by
      rw [side, if_neg (by simpa using hWord), hBefore]
      rfl
    exact ih hGaps hNext

/-- The tokens of a text that is entered in code are the words of its pieces. -/
theorem map_reading_ofText (t : Text) :
    (classify t .normal).tokens.map (Token.reading t) =
      (Piece.words [] (Piece.ofText t)).map fun (kind, word) => (kind, some word) := by
  have hSource : t = [] ++ (Piece.ofText t).flatMap Piece.text := (Piece.flatMap_text_ofText t).symm
  rw [classify_eq_tokensOf]
  exact Piece.map_reading_tokensOf hSource []

/-- **White space only separates.** A line without a line feed, entered in code, has the same tokens
in category and text, and the same state at its end, when the blanks in front of its first token and
those between its tokens are replaced by other blanks, as long as between two tokens there are some
where there were some and none where there were none. -/
theorem classify_respaced {line line' : Text} (hLine : '\n' ∉ line)
    (h : Token.RespacedLine (classify line .normal).tokens line line') :
    (∃ words : List (Kind × Text),
      (classify line .normal).tokens.map (Token.reading line) =
        words.map (fun (kind, word) => (kind, some word)) ∧
      (classify line' .normal).tokens.map (Token.reading line') =
        words.map (fun (kind, word) => (kind, some word))) ∧
    (classify line' .normal).exit = (classify line .normal).exit := by
  rw [classify_eq_tokensOf] at h
  obtain ⟨lead, lead', pieces, pieces', hPieces, hPieces', hRespaced, hGaps, hGaps'⟩ :=
    h.exists_pieces hLine rfl
  have hWords : Piece.words [] (Piece.ofText line') = Piece.words [] (Piece.ofText line) := by
    rw [hPieces, hPieces', Piece.words_gaps_append hGaps rfl, Piece.words_gaps_append hGaps' rfl,
      hRespaced.words_eq rfl]
  have hComplete {gaps : List Piece} (hGaps : ∀ p ∈ gaps, p.IsGap) :
      ∀ p ∈ gaps, p.isComplete = true := by
    intro p hp
    obtain ⟨gap, rfl, -⟩ := hGaps p hp
    rfl
  refine ⟨⟨Piece.words [] (Piece.ofText line), map_reading_ofText line, ?_⟩, ?_⟩
  · rw [← hWords]
    exact map_reading_ofText line'
  · rw [classify_eq_tokensOf, classify_eq_tokensOf]
    simp only [Piece.ofTextIn]
    rw [hPieces, hPieces', Piece.exitState_append (hComplete hGaps),
      Piece.exitState_append (hComplete hGaps'), hRespaced.exitState_eq]

/-- Blanks in front of the line and before a string, which keeps those inside it. -/
theorem classify_respaced_around_string :
    let line : Text := " say 'a b'--x ".toList
    let line' : Text := "say\t\r'a b'--x ".toList
    '\n' ∉ line ∧ Token.RespacedLine (classify line .normal).tokens line line' ∧
      (∃ words : List (Kind × Text),
        (classify line .normal).tokens.map (Token.reading line) =
          words.map (fun (kind, word) => (kind, some word)) ∧
        (classify line' .normal).tokens.map (Token.reading line') =
          words.map (fun (kind, word) => (kind, some word))) ∧
      (classify line' .normal).exit = (classify line .normal).exit := by
  intro line line'
  have hLine : '\n' ∉ line := by decide
  have hTokens : (classify line .normal).tokens =
      [⟨.keyword, 1, 4⟩, ⟨.string, 5, 10⟩, ⟨.plainText, 10, 12⟩, ⟨.plainText, 12, 13⟩] := by
    decide +kernel
  have hWord : Token.Respaced 12 [⟨.plainText, 12, 13⟩] "x ".toList "x ".toList :=
    @Token.Respaced.token 12 .plainText [] [] ['x'] _ _ _ (by simp) (by simp) (.tail 13 [' '])
  have hDashes : Token.Respaced 10 [⟨.plainText, 10, 12⟩, ⟨.plainText, 12, 13⟩] "--x ".toList
      "--x ".toList :=
    @Token.Respaced.token 10 .plainText [] [] "--".toList _ _ _ (by simp) (by simp) hWord
  have hGap : ∀ c ∈ ['\t', '\r'], Text.isBlank c = true :=
    List.forall_mem_cons.2 ⟨rfl, List.forall_mem_singleton.2 rfl⟩
  have hString : Token.Respaced 4
      [⟨.string, 5, 10⟩, ⟨.plainText, 10, 12⟩, ⟨.plainText, 12, 13⟩] " 'a b'--x ".toList
      "\t\r'a b'--x ".toList :=
    @Token.Respaced.token 4 .string [' '] ['\t', '\r'] "'a b'".toList _ _ _ hGap (by simp) hDashes
  have hRespaced : Token.RespacedLine (classify line .normal).tokens line line' := by
    rw [hTokens]
    exact @Token.RespacedLine.token .keyword [' '] [] "say".toList _ _ _ (by simp) hString
  exact ⟨hLine, hRespaced, classify_respaced hLine hRespaced⟩

end RexxEditing
