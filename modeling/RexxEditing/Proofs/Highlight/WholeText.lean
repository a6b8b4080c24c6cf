import Mathlib.Data.List.TakeWhile
import RexxEditing.Proofs.Highlight.Priority
import RexxEditing.Proofs.Highlight.Spelling
import RexxEditing.Proofs.Highlight.Tiling
import RexxEditing.Proofs.Region.Extent

/-! # Lines and the whole text

A text is classified line by line, and what is still open is handed on. The same tokens come out
when the text is cut as a whole: a region ends with its first end, on whatever line that is, a line
comment ends before the line feed, and a line feed is a blank that ends the line.

* `Piece.ofText`: a text of any number of lines, cut at once.
* `Piece.ofText_append_newline`: what a line feed and more text do to the pieces in front of them.
* `classify_eq_tokensOf`: the tokens of a text are those of its pieces.
-/

namespace RexxEditing

namespace Piece

/-- The pieces of a text of any number of lines that starts in code. -/
def ofText : Text → List Piece
  | [] => []
  | c :: cs =>
    let lexeme := Lexeme.first c cs
    let rest := Lexeme.rest c cs
    match lexeme.shape? with
    | none => unknown lexeme.text :: ofText rest
    | some shape =>
      match shape.region? with
      | some region =>
        match region.length? rest with
        | some n => closed region (lexeme.text ++ rest.take n) :: ofText (rest.drop n)
        | none => [unclosed region (lexeme.text ++ rest)]
      | none =>
        if shape.isLineCommentOpener && Region.startsLineComment rest then
          lineComment (lexeme.text ++ rest.takeWhile (· != '\n')) ::
            ofText (rest.dropWhile (· != '\n'))
        else if shape.isSpace then blank lexeme.text :: ofText rest
        else code shape lexeme.text :: ofText rest
termination_by t => t.length
decreasing_by
  · exact Lexeme.length_rest_lt c cs
  · exact Nat.lt_of_le_of_lt (List.drop_sublist n rest).length_le (Lexeme.length_rest_lt c cs)
  · exact Nat.lt_of_le_of_lt (List.dropWhile_sublist _).length_le (Lexeme.length_rest_lt c cs)
  · exact Lexeme.length_rest_lt c cs
  · exact Lexeme.length_rest_lt c cs

/-- The pieces of a text that is entered in a region. What the region has already is `waiting`. -/
def resume (region : Region) (waiting text : Text) : List Piece :=
  match region.length? text with
  | some n => closed region (waiting ++ text.take n) :: ofText (text.drop n)
  | none => [unclosed region (waiting ++ text)]

/-- The pieces of a text of any number of lines. -/
def ofTextIn (entry : State) (text : Text) : List Piece :=
  match entry with
  | .normal => ofText text
  | .inside region => resume region [] text

/-- Pieces with a line feed and more text behind them. -/
def feed (more : Text) : List Piece → List Piece
  | [] => blank ['\n'] :: ofText more
  | unclosed region text :: _ => resume region (text ++ ['\n']) more
  | piece :: pieces => piece :: feed more pieces

/-! ## The first piece -/

section FirstPiece

variable {c : Char} {cs : Text} {shape : Lexeme.Shape}

theorem ofText_unknown (h : (Lexeme.first c cs).shape? = none) :
    ofText (c :: cs) = unknown (Lexeme.first c cs).text :: ofText (Lexeme.rest c cs) := by
  rw [ofText]
  simp only [h]

theorem ofText_region (h : (Lexeme.first c cs).shape? = some shape) {region : Region}
    (hRegion : shape.region? = some region) :
    ofText (c :: cs) = resume region (Lexeme.first c cs).text (Lexeme.rest c cs) := by
  rw [ofText]
  simp only [h, hRegion, resume]

variable (h : (Lexeme.first c cs).shape? = some shape) (hRegion : shape.region? = none)

include h hRegion

theorem ofText_lineComment
    (hComment : (shape.isLineCommentOpener && Region.startsLineComment (Lexeme.rest c cs)) = true) :
    ofText (c :: cs) =
      lineComment ((Lexeme.first c cs).text ++ (Lexeme.rest c cs).takeWhile (· != '\n')) ::
        ofText ((Lexeme.rest c cs).dropWhile (· != '\n')) := by
  rw [ofText]
  simp only [h, hRegion, hComment, if_true]

variable (hComment :
  ¬ (shape.isLineCommentOpener && Region.startsLineComment (Lexeme.rest c cs)) = true)

include hComment

theorem ofText_blank (hSpace : shape.isSpace = true) :
    ofText (c :: cs) = blank (Lexeme.first c cs).text :: ofText (Lexeme.rest c cs) := by
  rw [ofText]
  simp only [h, hRegion, if_neg hComment, if_pos hSpace]

theorem ofText_code (hSpace : ¬ shape.isSpace = true) :
    ofText (c :: cs) = code shape (Lexeme.first c cs).text :: ofText (Lexeme.rest c cs) := by
  rw [ofText]
  simp only [h, hRegion, if_neg hComment, if_neg hSpace]

end FirstPiece

theorem ofText_eq_ofCode {t : Text} (h : '\n' ∉ t) : ofText t = ofCode t := by
  fun_induction ofCode t with
  | case1 => rw [ofText]
  | case2 c cs lexeme rest hShape ih => rw [ofText_unknown hShape, ih (Lexeme.newline_notMem h).2]
  | case3 c cs lexeme rest shape hShape region hRegion n hLength ih =>
    have hDrop := ih fun hMem => (Lexeme.newline_notMem h).2 (List.mem_of_mem_drop hMem)
    rw [ofText_region hShape hRegion, resume, hLength]
    exact congrArg _ hDrop
  | case4 c cs lexeme rest shape hShape region hRegion hLength =>
    rw [ofText_region hShape hRegion, resume, hLength]
  | case5 c cs lexeme rest shape hShape hRegion hComment =>
    -- without a line feed the comment takes all of the rest
    have hAll : ∀ d ∈ rest, (d != '\n') = true := by
      intro d hd
      rw [bne_iff_ne]
      rintro rfl
      exact (Lexeme.newline_notMem h).2 hd
    rw [ofText_lineComment hShape hRegion hComment, List.takeWhile_eq_self_iff.2 hAll,
      List.dropWhile_eq_nil_iff.2 hAll, ofText]
  | case6 c cs lexeme rest shape hShape hRegion hComment hSpace ih =>
    rw [ofText_blank hShape hRegion hComment hSpace, ih (Lexeme.newline_notMem h).2]
  | case7 c cs lexeme rest shape hShape hRegion hComment hSpace ih =>
    rw [ofText_code hShape hRegion hComment hSpace, ih (Lexeme.newline_notMem h).2]

theorem flatMap_text_ofText (t : Text) : (ofText t).flatMap text = t := by
  fun_induction ofText t with
  | case1 => rfl
  | case2 c cs _ _ _ ih | case6 c cs _ _ _ _ _ _ _ ih | case7 c cs _ _ _ _ _ _ _ ih =>
    rw [List.flatMap_cons, ih]
    exact Lexeme.first_append_rest c cs
  | case3 c cs lexeme rest _ _ _ _ n _ ih =>
    rw [List.flatMap_cons, ih]
    simp only [text, List.append_assoc, List.take_append_drop]
    exact Lexeme.first_append_rest c cs
  | case4 c cs =>
    rw [List.flatMap_cons, List.flatMap_nil, List.append_nil]
    exact Lexeme.first_append_rest c cs
  | case5 c cs _ _ _ _ _ _ ih =>
    rw [List.flatMap_cons, ih]
    simp only [text, List.append_assoc, List.takeWhile_append_dropWhile]
    exact Lexeme.first_append_rest c cs

theorem flatMap_text_resume (region : Region) (waiting t : Text) :
    (resume region waiting t).flatMap text = waiting ++ t := by
  unfold resume
  cases region.length? t with
  | none => simp [text]
  | some n => simp [text, flatMap_text_ofText]

theorem flatMap_text_ofTextIn (entry : State) (t : Text) : (ofTextIn entry t).flatMap text = t := by
  cases entry with
  | normal => exact flatMap_text_ofText t
  | inside region => exact flatMap_text_resume region [] t

/-! ## Line feeds -/

theorem ofText_newline_cons (t : Text) : ofText ('\n' :: t) = blank ['\n'] :: ofText t := by
  rw [ofText]
  rfl

theorem startsLineComment_rest (c : Char) (cs more : Text) :
    Region.startsLineComment (Lexeme.rest c (cs ++ '\n' :: more)) =
      Region.startsLineComment (Lexeme.rest c cs) := by
  rw [(Lexeme.first_append_newline c cs more).2]
  cases Lexeme.rest c cs <;> rfl

theorem takeWhile_append_newline (t more : Text) :
    (t ++ '\n' :: more).takeWhile (· != '\n') = t.takeWhile (· != '\n') ∧
      (t ++ '\n' :: more).dropWhile (· != '\n') = t.dropWhile (· != '\n') ++ '\n' :: more := by
  induction t with
  | nil => simp
  | cons c t ih =>
    by_cases hc : c = '\n'
    · simp [hc]
    · simpa [hc] using ih

theorem resume_append_newline_of_drop {region : Region} {t more : Text} (waiting : Text)
    (h : ∀ n, region.length? t = some n →
      ofText (t.drop n ++ '\n' :: more) = feed more (ofText (t.drop n))) :
    resume region waiting (t ++ '\n' :: more) = feed more (resume region waiting t) := by
  have hFeed : Text.isSeparator '\n' = true := rfl
  have hEnd := Region.length?_append_separator hFeed region t more
  cases hLength : region.length? t with
  | some n =>
    have hLe : n ≤ t.length := (Region.length?_bounds hLength).2
    rw [hLength, Option.some_or] at hEnd
    simp only [resume, hEnd, hLength, feed, List.take_append_of_le_length hLe,
      List.drop_append_of_le_length hLe, h n hLength]
  | none =>
    rw [hLength, Option.none_or] at hEnd
    cases hMore : region.length? more with
    | none =>
      rw [hMore] at hEnd
      simp [resume, hEnd, hLength, feed, hMore]
    | some m =>
      have hSplit : (t ++ '\n' :: more).take (m + (t.length + 1)) = t ++ '\n' :: more.take m ∧
          (t ++ '\n' :: more).drop (m + (t.length + 1)) = more.drop m := by
        have hText : t ++ '\n' :: more = (t ++ ['\n']) ++ more := by simp
        have hSize : m + (t.length + 1) = (t ++ ['\n']).length + m := by
          rw [List.length_append, List.length_singleton, Nat.add_comm]
        rw [hText, hSize, List.take_length_add_append, List.drop_length_add_append]
        simp
      rw [hMore, Option.map_some] at hEnd
      simp [resume, hEnd, hLength, feed, hMore, hSplit]

/-- **A line feed** in a text comes after the pieces of what is before it, or in the region that
these leave open. -/
theorem ofText_append_newline (t more : Text) :
    ofText (t ++ '\n' :: more) = feed more (ofText t) := by
  fun_induction ofText t with
  | case1 => exact ofText_newline_cons more
  | case2 c cs lexeme rest hShape ih =>
    obtain ⟨hFirst, hRest⟩ := Lexeme.first_append_newline c cs more
    rw [List.cons_append, ofText_unknown (hFirst ▸ hShape), hFirst, hRest, ih]
    rfl
  | case3 c cs lexeme rest shape hShape region hRegion n hLength ih =>
    obtain ⟨hFirst, hRest⟩ := Lexeme.first_append_newline c cs more
    rw [List.cons_append, ofText_region (hFirst ▸ hShape) hRegion, hFirst, hRest,
      resume_append_newline_of_drop]
    · rw [resume, hLength]
    · intro m hm
      obtain rfl := Option.some.inj (hLength.symm.trans hm)
      exact ih
  | case4 c cs lexeme rest shape hShape region hRegion hLength =>
    obtain ⟨hFirst, hRest⟩ := Lexeme.first_append_newline c cs more
    rw [List.cons_append, ofText_region (hFirst ▸ hShape) hRegion, hFirst, hRest,
      resume_append_newline_of_drop]
    · rw [resume, hLength]
    · intro m hm
      cases hLength.symm.trans hm
  | case5 c cs lexeme rest shape hShape hRegion hComment ih =>
    obtain ⟨hFirst, hRest⟩ := Lexeme.first_append_newline c cs more
    obtain ⟨hTake, hDrop⟩ := takeWhile_append_newline rest more
    rw [List.cons_append, ofText_lineComment (hFirst ▸ hShape) hRegion
      (by rw [startsLineComment_rest]; exact hComment), hFirst, hRest, hTake, hDrop, ih]
    rfl
  | case6 c cs lexeme rest shape hShape hRegion hComment hSpace ih =>
    obtain ⟨hFirst, hRest⟩ := Lexeme.first_append_newline c cs more
    rw [List.cons_append, ofText_blank (hFirst ▸ hShape) hRegion
      (by rw [startsLineComment_rest]; exact hComment) hSpace, hFirst, hRest, ih]
    rfl
  | case7 c cs lexeme rest shape hShape hRegion hComment hSpace ih =>
    obtain ⟨hFirst, hRest⟩ := Lexeme.first_append_newline c cs more
    rw [List.cons_append, ofText_code (hFirst ▸ hShape) hRegion
      (by rw [startsLineComment_rest]; exact hComment) hSpace, hFirst, hRest, ih]
    rfl

theorem resume_append_newline (region : Region) (waiting t more : Text) :
    resume region waiting (t ++ '\n' :: more) = feed more (resume region waiting t) :=
  resume_append_newline_of_drop waiting fun n _ => ofText_append_newline (t.drop n) more

theorem ofTextIn_append_newline (entry : State) (t more : Text) :
    ofTextIn entry (t ++ '\n' :: more) = feed more (ofTextIn entry t) := by
  cases entry with
  | normal => exact ofText_append_newline t more
  | inside region => exact resume_append_newline region [] t more

theorem feed_append_of_isComplete {pieces : List Piece} (h : ∀ p ∈ pieces, p.isComplete = true)
    (tail : List Piece) (more : Text) : feed more (pieces ++ tail) = pieces ++ feed more tail := by
  induction pieces with
  | nil => rfl
  | cons piece rest ih =>
    obtain ⟨hPiece, hRest⟩ := List.forall_mem_cons.1 h
    cases piece with
    | unclosed region text => cases hPiece
    | _ => exact congrArg _ (ih hRest)

/-! ## Tokens -/

/-- The tokens of pieces that follow each other from byte `base` on, with the pieces `before` in
front of them, from the nearest on, and the pieces `after` behind them. -/
def tokensOf (base : Nat) (before : List Piece) : List Piece → List Piece → List Token
  | [], _ => []
  | piece :: pieces, after =>
    let stop := base + piece.text.byteSize
    ((piece.category? before (pieces ++ after)).map fun kind => ⟨kind, base, stop⟩).toList ++
      tokensOf stop (piece :: before) pieces after

theorem tokensOf_append (base : Nat) (before xs ys after : List Piece) :
    tokensOf base before (xs ++ ys) after =
      tokensOf base before xs (ys ++ after) ++
        tokensOf (base + Text.byteSize (xs.flatMap text)) (xs.reverse ++ before) ys after := by
  induction xs generalizing base before with
  | nil => rfl
  | cons x xs ih =>
    simp only [List.cons_append, tokensOf, ih, List.append_assoc, List.flatMap_cons,
      Text.byteSize_append, Nat.add_assoc, List.reverse_cons, List.nil_append]

/-- The token `t` of a piece between the pieces `xs` and `ys`, which have the tokens `front` and
`back`. -/
structure TokenAt (base : Nat) (before xs : List Piece) (piece : Piece) (ys after : List Piece)
    (front : List Token) (t : Token) (back : List Token) : Prop where
  front_eq : front = tokensOf base before xs (piece :: ys ++ after)
  span_eq : t.span = ⟨base + Text.byteSize (xs.flatMap text),
    base + Text.byteSize (xs.flatMap text) + piece.text.byteSize⟩
  kind_eq : piece.category? (xs.reverse ++ before) (ys ++ after) = some t.kind
  back_eq : back = tokensOf t.span.stop (piece :: (xs.reverse ++ before)) ys after

/-- Every token is that of one of the pieces. -/
theorem exists_tokenAt {base : Nat} {before pieces after : List Piece} {t : Token}
    {front back : List Token} (h : tokensOf base before pieces after = front ++ t :: back) :
    ∃ xs piece ys, pieces = xs ++ piece :: ys ∧
      TokenAt base before xs piece ys after front t back := by
  induction pieces generalizing base before front with
  | nil => simp [tokensOf] at h
  | cons piece rest ih =>
    -- the token is that of a later piece
    have hLater {front' : List Token}
        (hFront : front = ((piece.category? before (rest ++ after)).map fun kind =>
          (⟨kind, base, base + piece.text.byteSize⟩ : Token)).toList ++ front')
        (hRest : tokensOf (base + piece.text.byteSize) (piece :: before) rest after =
          front' ++ t :: back) :
        ∃ xs piece' ys, piece :: rest = xs ++ piece' :: ys ∧
          TokenAt base before xs piece' ys after front t back := by
      obtain ⟨xs, piece', ys, rfl, rfl, hSpan, hKind, hBack⟩ := ih hRest
      refine ⟨piece :: xs, piece', ys, rfl, ?_, ?_, ?_, ?_⟩
      · rw [hFront, tokensOf, List.append_assoc]
      · rw [hSpan, List.flatMap_cons, Text.byteSize_append, ← Nat.add_assoc]
      · rw [List.reverse_cons, List.append_assoc]
        exact hKind
      · rw [List.reverse_cons, List.append_assoc]
        exact hBack
    rw [tokensOf] at h
    cases hKind : piece.category? before (rest ++ after) with
    | none =>
      rw [hKind] at h
      exact hLater (by rw [hKind]; rfl) h
    | some kind =>
      rw [hKind] at h
      cases front with
      | nil =>
        obtain ⟨rfl, hBack⟩ := List.cons.inj h
        exact ⟨[], piece, rest, rfl, rfl, rfl, hKind, hBack.symm⟩
      | cons first front =>
        obtain ⟨rfl, hRest⟩ := List.cons.inj h
        exact hLater (by rw [hKind]; rfl) hRest

theorem category?_congr {before before' after after' : List Piece}
    (hBefore : side before = side before') (hAfter : side after = side after') (piece : Piece) :
    piece.category? before after = piece.category? before' after' := by
  cases piece <;> simp only [category?, hBefore, hAfter]

theorem tokensOf_congr {before before' after after' : List Piece}
    (hBefore : side before = side before') (hAfter : side after = side after') (base : Nat)
    (pieces : List Piece) :
    tokensOf base before pieces after = tokensOf base before' pieces after' := by
  induction pieces generalizing base before before' with
  | nil => rfl
  | cons piece rest ih =>
    have hNext : side (piece :: before) = side (piece :: before') :=
      side_append_congr hBefore [piece]
    simp only [tokensOf]
    rw [category?_congr hBefore (side_append_congr hAfter rest), ih hNext]

theorem filterMap_token?_of_open {pieces : List Piece} (h : ∀ p ∈ pieces, p.isComplete = false)
    (base : Nat) (before : List Piece) :
    (locate base before pieces).filterMap Located.token? = [] := by
  induction pieces generalizing base before with
  | nil => rfl
  | cons piece rest ih =>
    obtain ⟨hPiece, hRest⟩ := List.forall_mem_cons.1 h
    cases piece with
    | unclosed region text => exact ih hRest _ _
    | _ => cases hPiece

/-- The tokens of the complete pieces of a line. -/
theorem filterMap_token?_locate {before pieces tail : List Piece}
    (hBefore : ∀ p ∈ before, p.IsSpelled) (hSpelled : ∀ p ∈ pieces ++ tail, p.IsSpelled)
    (hComplete : ∀ p ∈ pieces, p.isComplete = true) (hTail : ∀ p ∈ tail, p.isComplete = false)
    (base : Nat) :
    (locate base before (pieces ++ tail)).filterMap Located.token? =
      tokensOf base before pieces tail := by
  induction pieces generalizing base before with
  | nil =>
    rw [List.nil_append, tokensOf]
    exact filterMap_token?_of_open hTail base before
  | cons piece rest ih =>
    obtain ⟨hPiece, hRest⟩ := List.forall_mem_cons.1 hComplete
    obtain ⟨hSpelledPiece, hSpelledRest⟩ := List.forall_mem_cons.1 hSpelled
    have hKind : piece.kind? before (rest ++ tail) = piece.category? before (rest ++ tail) := by
      refine kind?_eq_category? hBefore hSpelledRest hSpelledPiece ?_
      rintro region text rfl
      cases hPiece
    have hBelow := ih (List.forall_mem_cons.2 ⟨hSpelledPiece, hBefore⟩) hSpelledRest hRest
      (base + piece.text.byteSize)
    rw [List.cons_append, locate, List.filterMap_cons, hBelow, tokensOf, Located.token?, hKind]
    cases piece.category? before (rest ++ tail) <;> rfl

end Piece

/-! ## Lines -/

section Lines

open Piece

/-- A text of any number of lines that starts in code, by its first line. -/
theorem Piece.ofText_append_feedBefore {code : Text} (h : '\n' ∉ code) (line : Text)
    (rest : List Text) :
    ofText (code ++ Text.feedBefore (line :: rest)) =
      feed (line ++ Text.feedBefore rest) (ofCode code) := by
  rw [← ofText_eq_ofCode h, ← ofText_append_newline]
  simp [Text.feedBefore]

theorem Text.byteSize_append_feedBefore (code line : Text) (rest : List Text) :
    (code ++ feedBefore (line :: rest)).byteSize =
      code.byteSize + 1 + (line ++ feedBefore rest).byteSize := by
  have hFeed : feedBefore (line :: rest) = ['\n'] ++ (line ++ feedBefore rest) := by
    simp [feedBefore]
  rw [hFeed, byteSize_append, byteSize_append, ← Nat.add_assoc]
  rfl

/-- Lines that follow each other have the tokens of their text, from whatever byte and in whatever
state they are entered. The region that is open in front of them starts at byte `start`. -/
structure CutAlike (line : Text) (rest : List Text) : Prop where
  code : ∀ {base : Nat} {before : List Piece}, side before = .nothing →
    tokensFrom base ⟨.normal, none⟩ (line :: rest)
        (base + (line ++ Text.feedBefore rest).byteSize) =
      tokensOf base before (ofText (line ++ Text.feedBefore rest)) []
  region : ∀ (region : Region) (waiting : Text) (start : Nat) (before : List Piece),
    tokensFrom (start + waiting.byteSize) ⟨.inside region, some start⟩ (line :: rest)
        (start + waiting.byteSize + (line ++ Text.feedBefore rest).byteSize) =
      tokensOf start before (resume region waiting (line ++ Text.feedBefore rest)) []

theorem Piece.side_resume (region : Region) (waiting t : Text) (more : List Piece) :
    side (resume region waiting t ++ more) = .region := by
  unfold resume
  cases region.length? t <;> rfl

/-- The token of a region that is open at the end of the text. -/
theorem Piece.openToken?_eq_category? (region : Region) (word : Text) (start : Nat)
    (before after : List Piece) :
    Carry.openToken? ⟨.inside region, some start⟩ (start + word.byteSize) =
      ((unclosed region word).category? before after).map (⟨·, start, start + word.byteSize⟩) := by
  by_cases hWord : word = []
  · subst hWord
    simp [Carry.openToken?, State.kind?, category?, Text.byteSize]
  · have hLt : start < start + word.byteSize :=
      Nat.lt_add_of_pos_right (Text.byteSize_pos hWord)
    simp [Carry.openToken?_inside hLt, category?, hWord]

theorem Piece.tokensFrom_nil (base : Nat) (region : Region) (word : Text) (start : Nat)
    (before : List Piece) :
    tokensFrom base ⟨.inside region, some start⟩ [] (start + word.byteSize) =
      tokensOf start before [unclosed region word] [] := by
  rw [tokensFrom, scanLines, openToken?_eq_category? region word start before []]
  simp [tokensOf, Piece.text]

section Code

variable {code : Text} (hCode : '\n' ∉ code) {rest : List Text}
  (hRest : ∀ line below, rest = line :: below → CutAlike line below) {onLine before : List Piece}
  (hSide : side onLine = side before) (hSpelled : ∀ p ∈ onLine, p.IsSpelled)

include hCode hRest hSide hSpelled

/-- Code that leaves nothing open, and the lines after it. -/
theorem tokens_code_of_isComplete (hComplete : ∀ p ∈ ofCode code, p.isComplete = true)
    (base : Nat) :
    (LineScan.ofCode code base onLine).tokens ++
        tokensFrom (base + code.byteSize + 1) ⟨.normal, none⟩ rest
          (base + (code ++ Text.feedBefore rest).byteSize) =
      tokensOf base before (ofText (code ++ Text.feedBefore rest)) [] := by
  have hTokens : (LineScan.ofCode code base onLine).tokens =
      tokensOf base onLine (ofCode code) [] := by
    have hPieces : ∀ p ∈ ofCode code ++ [], p.IsSpelled := by simpa using isSpelled_ofCode hCode
    have hNone : ∀ p ∈ ([] : List Piece), p.isComplete = false := by simp
    have hLine := filterMap_token?_locate hSpelled hPieces hComplete hNone base
    rwa [List.append_nil] at hLine
  rw [hTokens]
  cases rest with
  | nil =>
    have hEnd : code ++ Text.feedBefore [] = code := List.append_nil code
    rw [hEnd, ofText_eq_ofCode hCode, tokensOf_congr hSide rfl]
    exact List.append_nil _
  | cons line below =>
    have hFeed := feed_append_of_isComplete hComplete [] (line ++ Text.feedBefore below)
    have hAfter : side [] = side (feed (line ++ Text.feedBefore below) [] ++ []) := rfl
    have hBelow : tokensFrom (base + code.byteSize + 1) ⟨.normal, none⟩ (line :: below)
        (base + (code ++ Text.feedBefore (line :: below)).byteSize) =
        tokensOf (base + code.byteSize) ((ofCode code).reverse ++ before)
          (feed (line ++ Text.feedBefore below) []) [] := by
      rw [Text.byteSize_append_feedBefore, ← Nat.add_assoc, ← Nat.add_assoc]
      exact (hRest line below rfl).code rfl
    rw [List.append_nil] at hFeed
    rw [ofText_append_feedBefore hCode, hFeed, tokensOf_append, flatMap_text_ofCode,
      tokensOf_congr hSide hAfter, hBelow]

/-- Code that leaves a region open, and the lines after it. -/
theorem tokens_code_of_unclosed {init : List Piece} {region : Region} {word : Text}
    (hParts : ofCode code = init ++ [unclosed region word])
    (hInit : ∀ p ∈ init, p.isComplete = true) (base : Nat) :
    (LineScan.ofCode code base onLine).tokens ++
        tokensFrom (base + code.byteSize + 1)
          ⟨.inside region, some (base + Text.byteSize (init.flatMap text))⟩ rest
          (base + (code ++ Text.feedBefore rest).byteSize) =
      tokensOf base before (ofText (code ++ Text.feedBefore rest)) [] := by
  have hTokens : (LineScan.ofCode code base onLine).tokens =
      tokensOf base onLine init [unclosed region word] := by
    have hPieces := isSpelled_ofCode hCode
    have hOpen : ∀ p ∈ [unclosed region word], p.isComplete = false := by simp [isComplete]
    rw [hParts] at hPieces
    have hLine := filterMap_token?_locate hSpelled hPieces hInit hOpen base
    rw [← hParts] at hLine
    exact hLine
  have hSize : base + code.byteSize = base + Text.byteSize (init.flatMap text) + word.byteSize := by
    have hJoined := flatMap_text_ofCode code
    rw [hParts, List.flatMap_append, List.flatMap_singleton] at hJoined
    rw [← hJoined, Text.byteSize_append, Nat.add_assoc]
    rfl
  rw [hTokens]
  cases rest with
  | nil =>
    have hEnd : code ++ Text.feedBefore [] = code := List.append_nil code
    rw [hEnd, ofText_eq_ofCode hCode, hParts, tokensOf_append, List.append_nil,
      tokensOf_congr hSide rfl, hSize, tokensFrom_nil]
  | cons line below =>
    have hFeed := feed_append_of_isComplete hInit [unclosed region word]
      (line ++ Text.feedBefore below)
    have hAfter : side [unclosed region word] =
        side (resume region (word ++ ['\n']) (line ++ Text.feedBefore below) ++ []) :=
      (side_resume region _ _ []).symm
    have hStart : base + code.byteSize + 1 =
        base + Text.byteSize (init.flatMap text) + (word ++ ['\n']).byteSize := by
      rw [hSize, Text.byteSize_append, ← Nat.add_assoc]
      rfl
    have hBelow : tokensFrom (base + code.byteSize + 1)
        ⟨.inside region, some (base + Text.byteSize (init.flatMap text))⟩ (line :: below)
        (base + (code ++ Text.feedBefore (line :: below)).byteSize) =
        tokensOf (base + Text.byteSize (init.flatMap text)) (init.reverse ++ before)
          (resume region (word ++ ['\n']) (line ++ Text.feedBefore below)) [] := by
      rw [Text.byteSize_append_feedBefore, ← Nat.add_assoc, ← Nat.add_assoc, hStart]
      exact (hRest line below rfl).region region _ _ _
    rw [ofText_append_feedBefore hCode, hParts, hFeed, feed, tokensOf_append,
      tokensOf_congr hSide hAfter, hBelow]

/-- Code and the lines after it. -/
theorem tokens_code (base : Nat) :
    (LineScan.ofCode code base onLine).tokens ++
        tokensFrom (base + code.byteSize + 1) (LineScan.ofCode code base onLine).carry rest
          (base + (code ++ Text.feedBefore rest).byteSize) =
      tokensOf base before (ofText (code ++ Text.feedBefore rest)) [] := by
  rcases LineScan.ofCode_cases code base onLine with
    ⟨hExit, hOpen, hComplete⟩ | ⟨init, region, word, hParts, -, hInit, hExit, hOpen⟩
  · rw [LineScan.carry, hExit, hOpen]
    exact tokens_code_of_isComplete hCode hRest hSide hSpelled hComplete base
  · rw [LineScan.carry, hExit, hOpen]
    exact tokens_code_of_unclosed hCode hRest hSide hSpelled hParts hInit base

end Code

theorem length?_append_feedBefore {region : Region} {line : Text} {n : Nat}
    (h : region.length? line = some n) (rest : List Text) :
    region.length? (line ++ Text.feedBefore rest) = some n := by
  cases rest with
  | nil => rwa [Text.feedBefore, List.flatMap_nil, List.append_nil]
  | cons next below =>
    have hFeed : Text.isSeparator '\n' = true := rfl
    have hEnd := Region.length?_append_separator hFeed region line (next ++ Text.feedBefore below)
    rw [h, Option.some_or] at hEnd
    simpa [Text.feedBefore] using hEnd

section InRegion

variable {region : Region} {line : Text} {rest : List Text}
  (hRest : ∀ next below, rest = next :: below → CutAlike next below)

include hRest

/-- A region that goes on over a whole line, and the lines after it. -/
theorem tokens_unclosed (hLength : region.length? line = none) (waiting : Text) (start : Nat)
    (before : List Piece) :
    tokensFrom (start + waiting.byteSize + line.byteSize + 1) ⟨.inside region, some start⟩ rest
        (start + waiting.byteSize + (line ++ Text.feedBefore rest).byteSize) =
      tokensOf start before (resume region waiting (line ++ Text.feedBefore rest)) [] := by
  have hResume : resume region waiting line = [unclosed region (waiting ++ line)] := by
    rw [resume, hLength]
  cases rest with
  | nil =>
    have hEnd : line ++ Text.feedBefore [] = line := List.append_nil line
    rw [hEnd, hResume, Nat.add_assoc start, ← Text.byteSize_append, tokensFrom_nil]
  | cons next below =>
    have hFeed : resume region waiting (line ++ Text.feedBefore (next :: below)) =
        resume region (waiting ++ line ++ ['\n']) (next ++ Text.feedBefore below) := by
      have hNewline := resume_append_newline region waiting line (next ++ Text.feedBefore below)
      rw [hResume, feed] at hNewline
      rw [← hNewline]
      simp [Text.feedBefore]
    have hStart : start + waiting.byteSize + line.byteSize + 1 =
        start + (waiting ++ line ++ ['\n']).byteSize := by
      rw [Text.byteSize_append, Text.byteSize_append, ← Nat.add_assoc, ← Nat.add_assoc]
      rfl
    rw [hFeed, Text.byteSize_append_feedBefore, ← Nat.add_assoc, ← Nat.add_assoc, hStart]
    exact (hRest next below rfl).region region _ _ _

/-- A region that ends on a line, the code after it and the lines after that. -/
theorem tokens_closed {n : Nat} (hLine : '\n' ∉ line) (hLength : region.length? line = some n)
    (waiting : Text) (start : Nat) (before : List Piece) :
    tokensFrom (start + waiting.byteSize) ⟨.inside region, some start⟩ (line :: rest)
        (start + waiting.byteSize + (line ++ Text.feedBefore rest).byteSize) =
      tokensOf start before (resume region waiting (line ++ Text.feedBefore rest)) [] := by
  have hResume : resume region waiting (line ++ Text.feedBefore rest) =
      closed region (waiting ++ line.take n) :: ofText (line.drop n ++ Text.feedBefore rest) := by
    have hLe : n ≤ line.length := (Region.length?_bounds hLength).2
    simp only [resume, length?_append_feedBefore hLength rest, List.take_append_of_le_length hLe,
      List.drop_append_of_le_length hLe]
  have hStop : start + waiting.byteSize + Text.byteSize (line.take n) =
      start + (waiting ++ line.take n).byteSize := by
    rw [Text.byteSize_append, Nat.add_assoc]
  have hSize : Text.byteSize (line.take n) + Text.byteSize (line.drop n) = line.byteSize := by
    rw [← Text.byteSize_append, List.take_append_drop]
  have hBase : start + waiting.byteSize + line.byteSize + 1 =
      start + (waiting ++ line.take n).byteSize + Text.byteSize (line.drop n) + 1 := by
    omega
  have hEnd : start + waiting.byteSize + (line ++ Text.feedBefore rest).byteSize =
      start + (waiting ++ line.take n).byteSize +
        Text.byteSize (line.drop n ++ Text.feedBefore rest) := by
    rw [Text.byteSize_append line, Text.byteSize_append (line.drop n)]
    omega
  have hSide : side [closed region (line.take n)] =
      side (closed region (waiting ++ line.take n) :: before) := rfl
  have hDrop : '\n' ∉ line.drop n := fun hMem => hLine (List.mem_of_mem_drop hMem)
  have hCode := tokens_code hDrop hRest hSide
    (List.forall_mem_singleton.2 trivial) (start + (waiting ++ line.take n).byteSize)
  rw [hResume, tokensFrom_cons, LineScan.ofLine_closed hLength]
  simp only [Option.getD_some, hStop, hBase, hEnd]
  exact congrArg _ hCode

theorem cutAlike_of_rest (hLine : '\n' ∉ line) : CutAlike line rest := by
  constructor
  · intro base before hBefore
    have hSide : side [] = side before := hBefore.symm
    rw [tokensFrom_cons, LineScan.ofLine_normal]
    exact tokens_code hLine hRest hSide (by simp) base
  · intro region waiting start before
    cases hLength : region.length? line with
    | none =>
      rw [tokensFrom_cons, LineScan.ofLine_unclosed hLength]
      exact tokens_unclosed hRest hLength waiting start before
    | some n => exact tokens_closed hRest hLine hLength waiting start before

end InRegion

/-- **Lines and their text** have the same tokens. -/
theorem cutAlike {line : Text} {rest : List Text} (h : ∀ l ∈ line :: rest, '\n' ∉ l) :
    CutAlike line rest := by
  induction rest generalizing line with
  | nil => exact cutAlike_of_rest (by simp) (h line List.mem_cons_self)
  | cons next rest ih =>
    refine cutAlike_of_rest ?_ (h line List.mem_cons_self)
    rintro _ _ ⟨⟩
    exact ih fun l hl => h l (List.mem_cons_of_mem _ hl)

end Lines

/-! ## The state at the end -/

namespace Piece

theorem ofTextIn_eq_ofLine (entry : State) {line : Text} (h : '\n' ∉ line) :
    ofTextIn entry line = ofLine entry line := by
  cases entry with
  | normal => exact ofText_eq_ofCode h
  | inside region =>
    simp only [ofTextIn, resume, ofLine, List.nil_append]
    cases region.length? line with
    | none => rfl
    | some n =>
      have hDrop : '\n' ∉ line.drop n := fun hMem => h (List.mem_of_mem_drop hMem)
      simp only [ofText_eq_ofCode hDrop]

theorem exitState_resume (region : Region) (waiting t : Text) :
    exitState (resume region waiting t) = exitState (ofTextIn (.inside region) t) := by
  simp only [ofTextIn, resume]
  cases region.length? t with
  | none => rfl
  | some n => rw [exitState_cons rfl, exitState_cons rfl]

theorem exitState_append {pieces : List Piece} (h : ∀ p ∈ pieces, p.isComplete = true)
    (tail : List Piece) : exitState (pieces ++ tail) = exitState tail := by
  induction pieces with
  | nil => rfl
  | cons piece rest ih =>
    obtain ⟨hPiece, hRest⟩ := List.forall_mem_cons.1 h
    rw [List.cons_append, exitState_cons hPiece, ih hRest]

theorem onlyLastOpen_ofText (t : Text) : OnlyLastOpen (ofText t) := by
  fun_induction ofText t with
  | case1 => exact Or.inl (by simp)
  | case2 c cs _ _ _ ih => exact ih.cons rfl
  | case3 c cs _ _ _ _ _ _ n _ ih => exact ih.cons rfl
  | case4 c cs lexeme rest _ _ region _ _ =>
    exact Or.inr ⟨[], region, lexeme.text ++ rest, rfl, by simp [lexeme, Lexeme.first], by simp⟩
  | case5 c cs _ _ _ _ _ _ ih => exact ih.cons rfl
  | case6 c cs _ _ _ _ _ _ _ ih => exact ih.cons rfl
  | case7 c cs _ _ _ _ _ _ _ ih => exact ih.cons rfl

theorem ofTextIn_cases (entry : State) (t : Text) :
    (∀ p ∈ ofTextIn entry t, p.isComplete = true) ∨
      ∃ init region word, ofTextIn entry t = init ++ [unclosed region word] ∧
        ∀ p ∈ init, p.isComplete = true := by
  have hOpen {pieces : List Piece} (h : OnlyLastOpen pieces) :
      (∀ p ∈ pieces, p.isComplete = true) ∨
        ∃ init region word, pieces = init ++ [unclosed region word] ∧
          ∀ p ∈ init, p.isComplete = true := by
    rcases h with hAll | ⟨init, region, word, hParts, -, hInit⟩
    · exact Or.inl hAll
    · exact Or.inr ⟨init, region, word, hParts, hInit⟩
  cases entry with
  | normal => exact hOpen (onlyLastOpen_ofText t)
  | inside region =>
    simp only [ofTextIn, resume]
    cases region.length? t with
    | none => exact Or.inr ⟨[], region, _, rfl, by simp⟩
    | some n => exact hOpen ((onlyLastOpen_ofText _).cons rfl)

/-- The state after a line feed and more text. -/
theorem exitState_feed (entry : State) (t more : Text) :
    exitState (feed more (ofTextIn entry t)) =
      exitState (ofTextIn (exitState (ofTextIn entry t)) more) := by
  rcases ofTextIn_cases entry t with hComplete | ⟨init, region, word, hParts, hInit⟩
  · have hFeed := feed_append_of_isComplete hComplete [] more
    rw [List.append_nil] at hFeed
    rw [hFeed, exitState_append hComplete, exitState_of_isComplete hComplete, feed,
      exitState_cons rfl]
    rfl
  · rw [hParts, feed_append_of_isComplete hInit, exitState_append hInit,
      exitState_concat_unclosed, feed, exitState_resume]

theorem exitState_ofTextIn (entry : State) {line : Text} {rest : List Text}
    (h : ∀ l ∈ line :: rest, '\n' ∉ l) :
    exitState (ofTextIn entry (line ++ Text.feedBefore rest)) = entry.after (line :: rest) := by
  induction rest generalizing entry line with
  | nil =>
    have hEnd : line ++ Text.feedBefore [] = line := List.append_nil line
    rw [hEnd, ofTextIn_eq_ofLine entry (h line List.mem_cons_self)]
    rfl
  | cons next rest ih =>
    obtain ⟨hLine, hRest⟩ := List.forall_mem_cons.1 h
    have hFeed : line ++ Text.feedBefore (next :: rest) =
        line ++ '\n' :: (next ++ Text.feedBefore rest) := by
      simp [Text.feedBefore]
    rw [hFeed, ofTextIn_append_newline, exitState_feed, ih _ hRest,
      ofTextIn_eq_ofLine entry hLine]
    rfl

end Piece

/-- **The whole text.** The tokens of a text and the state at its end are those of its pieces. -/
theorem classify_eq_tokensOf (text : Text) (entry : State) :
    classify text entry =
      ⟨Piece.tokensOf 0 [] (Piece.ofTextIn entry text) [],
        Piece.exitState (Piece.ofTextIn entry text)⟩ := by
  obtain ⟨line, rest, hLines⟩ := Text.exists_lines_eq_cons text
  have hText : text = line ++ Text.feedBefore rest := by
    rw [← Text.ofLines_lines text, hLines, Text.ofLines_cons_eq]
  have hFree : ∀ l ∈ line :: rest, '\n' ∉ l := by
    rw [← hLines]
    intro l hl
    exact Text.newline_notMem_of_mem_lines hl
  have hTokens : tokensFrom 0 ⟨entry, none⟩ text.lines text.byteSize =
      Piece.tokensOf 0 [] (Piece.ofTextIn entry text) [] := by
    have hAlike := cutAlike hFree
    rw [hLines, hText, ← Nat.zero_add (line ++ Text.feedBefore rest).byteSize]
    cases entry with
    | normal => exact hAlike.code rfl
    | inside region =>
      rw [tokensFrom_none (by simp)]
      exact hAlike.region region [] 0 []
  rw [classify_eq, hTokens, hLines, ← Piece.exitState_ofTextIn entry hFree, ← hText]

/-! ## Words of tokens -/

theorem priority_isRegion (word : Text) (before after : Side) (first : Bool) :
    (priority word before after first).isRegion = false := by
  unfold priority
  repeat' split
  all_goals rfl

/-- The token is the part `word` of the text, with `front` in front of it and `rest` behind it. -/
structure Token.Cuts (t : Token) (text front word rest : Text) : Prop where
  text_eq : text = front ++ word ++ rest
  span_eq : t.span = ⟨front.byteSize, front.byteSize + word.byteSize⟩

theorem Token.Cuts.text? {t : Token} {text front word rest : Text}
    (h : t.Cuts text front word rest) : t.text? text = some word := by
  rw [Token.text?, Span.text?, h.span_eq, h.text_eq]
  exact Text.slice?_append front word rest

theorem Piece.TokenAt.cuts {xs ys : List Piece} {piece : Piece} {front back : List Token}
    {t : Token} (h : TokenAt 0 [] xs piece ys [] front t back) {text : Text}
    (hText : (xs ++ piece :: ys).flatMap Piece.text = text) :
    t.Cuts text (xs.flatMap Piece.text) piece.text (ys.flatMap Piece.text) := by
  constructor
  · rw [← hText, List.flatMap_append, List.flatMap_cons, List.append_assoc]
  · rw [h.span_eq, Nat.zero_add]

end RexxEditing
