import RexxEditing.Proofs.Indent.Case
import RexxEditing.Proofs.Indent.Comments
import RexxEditing.Proofs.Outline.Colon

/-! # Which routines are procedures

The outline looks for the word `procedure` in the characters behind the colon of a label, not in the
tokens. So it does not see past a comment, takes `procedure.x` for the word, and skips white space
that is a token.

* `startsWith_follower`: the follower of a label starts as the text behind its colon does.
* `Piece.startsWith_tokensOf`: the first token with more than white space says how a text starts.
* `isProcedure_tokensBehind`: the procedures of a text, by its tokens.
-/

namespace RexxEditing

open Lexeme (isSymbolStart isSymbolRest)

/-! ## The leading word -/

namespace Indent

theorem isSymbolRest_eq (c : Char) : isSymbolRest c = (isLeadingWordChar c || c == '.') := by
  unfold isSymbolRest Lexeme.isSymbolMark isLeadingWordChar
  ac_rfl

theorem isLeadingWordChar_of_isWhite {c : Char} (h : Text.isWhite c = true) :
    isLeadingWordChar c = false := by
  rw [Bool.eq_false_iff]
  intro hWord
  have hRest : isSymbolRest c = true := by rw [isSymbolRest_eq, hWord, Bool.true_or]
  rw [isSymbolRest, Bool.or_eq_true, Bool.or_eq_true, Bool.or_eq_true, beq_iff_eq,
    beq_iff_eq] at hRest
  rcases hRest with ((hAlpha | hMark) | rfl) | rfl
  · rw [Lexeme.isWhite_eq_false_of_isAlphanum hAlpha] at h
    cases h
  · rw [Lexeme.isWhite_eq_false_of_isSymbolMark hMark] at h
    cases h
  · cases h
  · cases h

theorem leadingWord_of_isAllWhite {t : Text} (h : t.isAllWhite = true) : leadingWord t = [] := by
  rw [leadingWord, Text.trimStart_eq_nil_iff.2 h]
  rfl

/-- White space ends the leading word. -/
theorem leadingWord_append_cons {front : Text} (h : front.isAllWhite = false) {c : Char}
    (hc : Text.isWhite c = true) (t : Text) :
    leadingWord (front ++ c :: t) = leadingWord front := by
  have hWord : (c :: t).takeWhile isLeadingWordChar = [] :=
    List.takeWhile_cons_of_neg (by simp [isLeadingWordChar_of_isWhite hc])
  have hSame := leadingWord_append_congr h (hWord.trans List.takeWhile_nil.symm)
  rwa [List.append_nil] at hSame

theorem leadingWord_append_white (front : Text) {tail : Text} (h : tail.isAllWhite = true) :
    leadingWord (front ++ tail) = leadingWord front := by
  cases hFront : front.isAllWhite with
  | true =>
    rw [leadingWord_white_append hFront, leadingWord_of_isAllWhite h,
      leadingWord_of_isAllWhite hFront]
  | false =>
    cases tail with
    | nil => rw [List.append_nil]
    | cons c cs =>
      have hc := List.all_eq_true.1 h c List.mem_cons_self
      exact leadingWord_append_cons hFront hc cs

theorem leadingWord_trim (t : Text) : leadingWord t.trim = leadingWord t := by
  have hEnd : t.trimStart = t.trim ++ (t.trimStart.reverse.takeWhile Text.isWhite).reverse := by
    rw [Text.trim, ← List.reverse_append, List.takeWhile_append_dropWhile, List.reverse_reverse]
  have hWhite : Text.isAllWhite (t.trimStart.reverse.takeWhile Text.isWhite).reverse = true := by
    rw [Text.isAllWhite, List.all_reverse]
    exact List.all_takeWhile
  have hTrim := leadingWord_append_white t.trim hWhite
  rw [← hEnd, leadingWord, Text.trimStart_trimStart] at hTrim
  exact hTrim.symm

end Indent

theorem Text.trim_isEmpty (t : Text) : t.trim.isEmpty = t.isAllWhite := by
  have hIff : t.trim = [] ↔ t.isAllWhite = true := by
    rw [trim, List.reverse_eq_nil_iff, ← trimStart_eq_nil_iff, List.dropWhile_eq_nil_iff]
    constructor
    · intro h
      rw [← trimStart_trimStart, trimStart_eq_nil_iff, isAllWhite, List.all_eq_true]
      exact fun c hc => h c (List.mem_reverse.2 hc)
    · intro h
      rw [h]
      simp
  rw [Bool.eq_iff_iff, List.isEmpty_iff]
  exact hIff

namespace Outline

open Indent (leadingWord startsWith)

/-- The lines below a label start as the first of them does that is not blank. -/
theorem leadingWord_feedBefore (below : List Text) :
    leadingWord (Text.feedBefore below) =
      leadingWord (((below.map Text.trim).find? (!·.isEmpty)).getD []) := by
  induction below with
  | nil => rfl
  | cons line rest ih =>
    have hFeed : Text.feedBefore (line :: rest) = ['\n'] ++ (line ++ Text.feedBefore rest) := rfl
    rw [hFeed, Indent.leadingWord_white_append rfl, List.map_cons, List.find?_cons,
      Text.trim_isEmpty]
    cases hLine : line.isAllWhite with
    | true => exact (Indent.leadingWord_white_append hLine _).trans ih
    | false =>
      refine Eq.trans ?_ (Indent.leadingWord_trim line).symm
      cases rest with
      | nil => rw [Text.feedBefore, List.flatMap_nil, List.append_nil]
      | cons next rest => exact Indent.leadingWord_append_cons hLine rfl _

/-- **The follower of a label** starts as the text behind the colon does. -/
theorem startsWith_follower (rest : Text) (below : List Text) (word : String) :
    startsWith (follower rest below) word = startsWith (rest ++ Text.feedBefore below) word := by
  have hWord : leadingWord (follower rest below) = leadingWord (rest ++ Text.feedBefore below) := by
    rw [follower]
    cases hRest : rest.isAllWhite with
    | true => rw [if_pos rfl, Indent.leadingWord_white_append hRest, leadingWord_feedBefore]
    | false =>
      cases below with
      | nil => simp [Text.feedBefore]
      | cons line below => exact (Indent.leadingWord_append_cons hRest rfl _).symm
  rw [startsWith, hWord]
  rfl

end Outline

/-! ## The first piece with more than white space -/

namespace Piece

theorem isAllWhite_of_isBlank {t : Text} {piece : Piece} (hMem : piece ∈ ofText t)
    (h : piece.isBlank = true) : piece.text.isAllWhite = true := by
  fun_induction ofText t with
  | case1 => cases hMem
  | case2 _ _ _ _ _ ih | case3 _ _ _ _ _ _ _ _ _ _ ih | case5 _ _ _ _ _ _ _ _ ih
  | case7 _ _ _ _ _ _ _ _ _ ih =>
    rcases List.mem_cons.1 hMem with rfl | hMem
    · cases h
    · exact ih hMem
  | case4 =>
    obtain rfl := List.mem_singleton.1 hMem
    cases h
  | case6 c cs lexeme rest shape hShape _ _ hSpace ih =>
    rcases List.mem_cons.1 hMem with rfl | hMem
    · rw [Text.isAllWhite, List.all_eq_true]
      intro d hd
      have hSep : Text.isSeparator d = true := by
        rw [Lexeme.isSeparator_eq_isSpace (show d ∈ (Lexeme.first c cs).text from hd),
          Lexeme.isSpace, show (Lexeme.first c cs).shape? = some shape from hShape]
        exact hSpace
      rw [Text.isSeparator, Bool.or_eq_true, beq_iff_eq] at hSep
      rcases hSep with hBlank | rfl
      · exact Text.isWhite_of_isBlank hBlank
      · rfl
    · exact ih hMem

/-- A piece that starts with white space has nothing else. -/
theorem isAllWhite_of_ofText {c : Char} {cs : Text} {piece : Piece} {pieces : List Piece}
    (h : ofText (c :: cs) = piece :: pieces) (hc : Text.isWhite c = true) :
    piece.text.isAllWhite = true := by
  cases hBlank : piece.isBlank with
  | true =>
    have hMem : piece ∈ ofText (c :: cs) := by
      rw [h]
      exact List.mem_cons_self
    exact isAllWhite_of_isBlank hMem hBlank
  | false =>
    have hFeed : c ≠ '\n' := by
      rintro rfl
      rw [ofText_newline_cons] at h
      obtain ⟨rfl, -⟩ := List.cons.inj h
      cases hBlank
    have hSep : Text.isSeparator c = false := by
      simp [Text.isSeparator, not_isBlank_head h hBlank c rfl, hFeed]
    have hExtent := Lexeme.extent_of_isWhite hc hSep cs
    rw [ofText_unknown (by rw [Lexeme.first, hExtent])] at h
    obtain ⟨rfl, -⟩ := List.cons.inj h
    simp [text, Lexeme.first, hExtent, Text.isAllWhite, hc]

theorem isWhite_of_ofText {c : Char} {cs : Text} {piece : Piece} {pieces : List Piece}
    (h : ofText (c :: cs) = piece :: pieces) (hPiece : piece.text.isAllWhite = false) :
    Text.isWhite c = false := by
  rw [Bool.eq_false_iff]
  intro hc
  rw [isAllWhite_of_ofText h hc] at hPiece
  cases hPiece

/-- The first piece and the text start with the same character. -/
theorem exists_cons_of_ofText {t : Text} {piece : Piece} {pieces : List Piece}
    (h : ofText t = piece :: pieces) :
    ∃ c cs w, t = c :: cs ∧ piece.text = c :: w := by
  have hText := flatMap_text_ofText t
  rw [h, List.flatMap_cons] at hText
  obtain ⟨c, w, hPiece⟩ := List.exists_cons_of_ne_nil
    (text_ne_nil (h ▸ List.mem_cons_self : piece ∈ ofText t))
  rw [hPiece] at hText
  exact ⟨c, _, w, hText.symm, hPiece⟩

end Piece

namespace Indent

theorem startsWith_cons_eq_false {c : Char} (hWhite : Text.isWhite c = false)
    (hStart : isSymbolStart c = false) (t : Text) : startsWith (c :: t) "procedure" = false := by
  have hBlind : CaseBlind isSymbolStart := caseBlind_of_capitals (by decide)
  rw [startsWith, leadingWord, Text.trimStart_cons_of_not hWhite, List.takeWhile_cons]
  split
  next =>
    rw [Text.eqIgnoreCase, Text.lower_cons, beq_eq_false_iff_ne]
    intro hWord
    have hHead : c.toLower = 'p' := (List.cons.inj hWord).1
    have hLower := hBlind c
    rw [hHead, hStart] at hLower
    cases hLower
  next => rfl

/-- The first piece with more than white space says with which word a text starts. -/
theorem startsWith_of_ofText {t : Text} {piece : Piece} {pieces : List Piece}
    (h : Piece.ofText t = piece :: pieces) (hPiece : piece.text.isAllWhite = false) :
    startsWith t "procedure" = startsWith piece.text "procedure" := by
  obtain ⟨c, cs, w, rfl, hText⟩ := Piece.exists_cons_of_ofText h
  have hWhite := Piece.isWhite_of_ofText h hPiece
  cases hStart : isSymbolStart c with
  | false =>
    rw [hText, startsWith_cons_eq_false hWhite hStart, startsWith_cons_eq_false hWhite hStart]
  | true =>
    rw [Piece.ofText_symbol hStart] at h
    obtain ⟨rfl, -⟩ := List.cons.inj h
    have hRun : (cs.takeWhile isSymbolRest).takeWhile isLeadingWordChar =
        cs.takeWhile isLeadingWordChar := by
      rw [List.takeWhile_takeWhile]
      congr 1
      funext d
      rw [isSymbolRest_eq]
      cases isLeadingWordChar d <;> simp
    rw [Piece.text, startsWith, startsWith, leadingWord, leadingWord,
      Text.trimStart_cons_of_not hWhite, Text.trimStart_cons_of_not hWhite, List.takeWhile_cons,
      List.takeWhile_cons, hRun]

/-- A name without a point that starts with a word is the word. -/
theorem eqIgnoreCase_of_startsWith {c : Char} {w : Text} {word : String}
    (hc : isSymbolStart c = true) (hw : ∀ d ∈ w, isSymbolRest d = true) (hPoint : '.' ∉ c :: w)
    (h : startsWith (c :: w) word = true) : Text.eqIgnoreCase (c :: w) word.toList = true := by
  have hWord : ∀ d ∈ c :: w, isLeadingWordChar d = true := by
    intro d hd
    have hSymbol : isSymbolRest d = true := by
      rcases List.mem_cons.1 hd with rfl | hMem
      · exact Outline.isSymbolRest_of_isSymbolStart hc
      · exact hw d hMem
    rw [isSymbolRest_eq, Bool.or_eq_true, beq_iff_eq] at hSymbol
    exact hSymbol.resolve_right fun hDot => hPoint (hDot ▸ hd)
  have hWhite : Text.isWhite c = false := by
    rw [Bool.eq_false_iff]
    intro hWhite
    have hNot := isLeadingWordChar_of_isWhite hWhite
    rw [hWord c List.mem_cons_self] at hNot
    cases hNot
  rwa [startsWith, leadingWord, Text.trimStart_cons_of_not hWhite,
    List.takeWhile_eq_self_iff.2 hWord] at h

end Indent

/-! ## The first token with more than white space -/

/-- Whether the token has more than white space. -/
def Token.hasInk (source : Text) (t : Token) : Bool := (t.text? source).any (!·.isAllWhite)

/-- Whether the leading word of the token is the given one. -/
def Token.startsWith (source : Text) (word : String) (t : Token) : Bool :=
  (t.text? source).any (Indent.startsWith · word)

namespace Piece

/-- The first token with more than white space says with which word a text starts. -/
theorem startsWith_tokensOf {source front t : Text} (hSource : source = front ++ t)
    (before : List Piece) :
    ((tokensOf front.byteSize before (ofText t) []).find? (Token.hasInk source)).any
        (Token.startsWith source "procedure") = Indent.startsWith t "procedure" := by
  generalize hPieces : ofText t = pieces
  induction pieces generalizing front t before with
  | nil =>
    obtain rfl : t = [] := by rw [← flatMap_text_ofText t, hPieces, List.flatMap_nil]
    rfl
  | cons piece rest ih =>
    obtain ⟨more, rfl⟩ := exists_rest_of_ofText hPieces
    have hText := flatMap_text_ofText t
    rw [hPieces, List.flatMap_cons, flatMap_text_ofText] at hText
    rw [← hText, ← List.append_assoc] at hSource
    have hRest := ih hSource (piece :: before) rfl
    rw [Text.byteSize_append] at hRest
    have hToken (kind : Kind) : Token.text?
        ⟨kind, front.byteSize, front.byteSize + piece.text.byteSize⟩ source = some piece.text := by
      rw [hSource]
      exact Text.slice?_append front piece.text more
    rw [tokensOf, List.append_nil, List.find?_append]
    cases hWhite : piece.text.isAllWhite with
    | true =>
      rw [← hText, Indent.startsWith, Indent.leadingWord_white_append hWhite]
      refine Eq.trans ?_ hRest
      cases piece.category? before (ofText more) with
      | none => rfl
      | some kind => simp [Token.hasInk, hToken, hWhite]
    | false =>
      rw [Indent.startsWith_of_ofText hPieces hWhite]
      have hMem : piece ∈ ofText t := by
        rw [hPieces]
        exact List.mem_cons_self
      have hBlank : piece.isBlank = false := by
        rw [Bool.eq_false_iff]
        intro hBlank
        rw [isAllWhite_of_isBlank hMem hBlank] at hWhite
        cases hWhite
      obtain ⟨kind, hKind⟩ := exists_category? hBlank (text_ne_nil hMem) before (ofText more)
      simp [hKind, Token.hasInk, hToken, hWhite, Token.startsWith]

/-- What the pieces behind a colon have next to them. -/
def IsBehindColon (before : List Piece) : Prop :=
  side before = .nothing ∨ ∃ apart, side before = .word [':'] apart

theorem isBehindColon_append {gaps before : List Piece} (hGaps : ∀ p ∈ gaps, p.isBlank = true)
    (h : IsBehindColon before) : IsBehindColon (gaps ++ before) := by
  induction gaps with
  | nil => exact h
  | cons gap gaps ih =>
    obtain ⟨hGap, hRest⟩ := List.forall_mem_cons.1 hGaps
    cases gap with
    | blank word =>
      rw [IsBehindColon, List.cons_append, side]
      split
      · exact Or.inl rfl
      · rcases ih hRest with hSide | ⟨apart, hSide⟩
        · exact Or.inl (by rw [hSide]; rfl)
        · exact Or.inr ⟨true, by rw [hSide]; rfl⟩
    | _ => cases hGap

/-- A name behind a colon that is a keyword gets that category. -/
theorem category?_keyword {before : List Piece} (hBefore : IsBehindColon before) {c : Char}
    {w : Text} (hc : isSymbolStart c = true) (hw : ∀ d ∈ w, isSymbolRest d = true)
    (hWord : Vocabulary.keywords.contains (c :: w) = true) (after : List Piece) :
    (code .symbol (c :: w)).category? before after = some .keyword := by
  obtain ⟨hNumber, hSymbol, hPipe, -⟩ := Lexeme.spells_symbol hc hw
  have hGlued : (side before).isGlued Text.isNumber = false := by
    rcases hBefore with hSide | ⟨apart, hSide⟩ <;> rw [hSide] <;> rfl
  have hHolds : (side before).holds Text.isPipe = false := by
    rcases hBefore with hSide | ⟨apart, hSide⟩ <;> rw [hSide] <;> rfl
  simp [category?, priority, hNumber, hSymbol, hPipe, hGlued, hHolds, hWord, Lexeme.Shape.isPipe]

end Piece

/-- Whether the token is the given keyword, in any case of its letters. -/
def Token.isKeyword (source : Text) (word : String) (t : Token) : Bool :=
  t.kind == .keyword && (t.text? source).any (·.eqIgnoreCase word.toList)

theorem Token.startsWith_of_isKeyword {source : Text} {t : Token}
    (h : t.isKeyword source "procedure" = true) :
    t.hasInk source = true ∧ t.startsWith source "procedure" = true := by
  rw [isKeyword, Bool.and_eq_true, Option.any_eq_true] at h
  obtain ⟨-, word, hText, hWord⟩ := h
  have hLower : word.lower = "procedure".toList := beq_iff_eq.1 hWord
  constructor
  · rw [hasInk, hText, Option.any_some, ← Text.isAllWhite_lower, hLower]
    decide
  · rw [startsWith, hText, Option.any_some, ← Indent.startsWith_lower, hLower]
    decide

namespace Piece

section Behind

variable {source front t : Text} (hSource : source = front ++ t) {before : List Piece} {u : Token}
  (hInk : u.hasInk source = true) (hStart : u.startsWith source "procedure" = true)

include hSource hInk hStart

/-- A token that starts with the word is a name. -/
theorem exists_symbol_of_startsWith {ts back : List Token}
    (hTokens : tokensOf front.byteSize before (ofText t) [] = ts ++ u :: back) :
    ∃ xs c w ys, ofText t = xs ++ code .symbol (c :: w) :: ys ∧
      TokenAt front.byteSize before xs (code .symbol (c :: w)) ys [] ts u back ∧
      isSymbolStart c = true ∧ (∀ d ∈ w, isSymbolRest d = true) ∧
      u.text? source = some (c :: w) ∧ Indent.startsWith (c :: w) "procedure" = true := by
  obtain ⟨xs, piece, ys, hParts, hAt⟩ := exists_tokenAt hTokens
  have hSuffix := ofText_suffix hParts
  have hText : u.text? source = some piece.text := by
    have hSlice := Text.slice?_append (front ++ xs.flatMap text) piece.text (ys.flatMap text)
    rw [Text.byteSize_append] at hSlice
    rw [Token.text?, Span.text?, hAt.span_eq, hSource, ← flatMap_text_ofText t, hParts,
      List.flatMap_append, List.flatMap_cons, ← List.append_assoc, ← List.append_assoc]
    exact hSlice
  rw [Token.hasInk, hText, Option.any_some, Bool.not_eq_true'] at hInk
  rw [Token.startsWith, hText, Option.any_some] at hStart
  obtain ⟨c, cs, w, hCons, hPiece⟩ := exists_cons_of_ofText hSuffix
  rw [hCons] at hSuffix
  have hc : isSymbolStart c = true := by
    rw [hPiece] at hStart
    by_contra hNot
    rw [Indent.startsWith_cons_eq_false (isWhite_of_ofText hSuffix hInk)
      (Bool.eq_false_iff.2 hNot)] at hStart
    cases hStart
  rw [ofText_symbol hc] at hSuffix
  obtain ⟨rfl, -⟩ := List.cons.inj hSuffix
  exact ⟨xs, c, _, ys, hParts, hAt, hc, List.all_eq_true.1 List.all_takeWhile, hText, hStart⟩

/-- A token that starts with the word is no comment. -/
theorem kind_ne_comment (hu : u ∈ tokensOf front.byteSize before (ofText t) []) :
    u.kind ≠ .comment := by
  obtain ⟨ts, back, hTokens⟩ := List.append_of_mem hu
  obtain ⟨xs, c, w, ys, -, hAt, -⟩ := exists_symbol_of_startsWith hSource hInk hStart hTokens
  intro hComment
  have hRegion := priority_isRegion (c :: w) (side (xs.reverse ++ before)) (side (ys ++ []))
    (side (xs.reverse ++ before) == .nothing)
  rw [Option.some.inj hAt.kind_eq, hComment] at hRegion
  cases hRegion

/-- A first token behind a colon that starts with the keyword is the keyword, unless it goes on
behind a point. -/
theorem isKeyword_of_startsWith (hBefore : IsBehindColon before) {back : List Token}
    (hTokens : tokensOf front.byteSize before (ofText t) [] = u :: back)
    (hPoint : ∀ word, u.text? source = some word → '.' ∉ word) :
    u.isKeyword source "procedure" = true := by
  obtain ⟨xs, c, w, ys, hParts, hAt, hc, hw, hText, hWord⟩ := exists_symbol_of_startsWith hSource
    hInk hStart (show tokensOf front.byteSize before (ofText t) [] = [] ++ u :: back from hTokens)
  have hBlank : ∀ p ∈ xs.reverse, p.isBlank = true := by
    intro p hp
    refine isBlank_of_tokensOf_eq_nil (fun p hp => ?_) hAt.front_eq.symm p (List.mem_reverse.1 hp)
    exact text_ne_nil (hParts ▸ List.mem_append_left _ hp)
  have hSame := Indent.eqIgnoreCase_of_startsWith hc hw (hPoint _ hText) hWord
  have hKeyword : Vocabulary.keywords.contains (c :: w) = true := by
    rw [Vocabulary.contains, beq_iff_eq.1 hSame]
    decide
  have hKind := hAt.kind_eq
  rw [category?_keyword (isBehindColon_append hBlank hBefore) hc hw hKeyword] at hKind
  rw [Token.isKeyword, ← Option.some.inj hKind, hText]
  exact hSame

end Behind

end Piece

namespace Outline

/-! ## Procedures -/

/-- The tokens behind the colon of a routine. -/
def Routine.tokensBehind (text : Text) (r : Routine) : List Token :=
  (classify text .normal).tokens.filter (r.colon text < ·.span.start)

/-- Whether the first token behind the colon that is no comment is the keyword `procedure`. -/
def Routine.namesProcedure (text : Text) (r : Routine) : Bool :=
  ((r.tokensBehind text).find? (·.kind != .comment)).any (Token.isKeyword text "procedure")

theorem Routine.namesProcedure_eq {text : Text} {r : Routine} {t : Token} {back : List Token}
    (hTokens : r.tokensBehind text = t :: back) (hKind : t.kind ≠ .comment) :
    r.namesProcedure text = t.isKeyword text "procedure" := by
  simp [namesProcedure, hTokens, hKind]

/-- Whether a routine is a procedure, by the tokens behind its colon. -/
structure Routine.FollowsTokens (text : Text) (r : Routine) : Prop where
  /-- The first token with more than white space starts with the word. -/
  first : r.isProcedure = ((r.tokensBehind text).find? (Token.hasInk text)).any
    (Token.startsWith text "procedure")
  /-- What is behind a comment does not count. -/
  comment : ∀ t, (r.tokensBehind text).find? (Token.hasInk text) = some t → t.kind = .comment →
    r.isProcedure = false
  /-- The keyword counts if there is no comment in front of it. -/
  of_keyword : (∀ t, (r.tokensBehind text).head? = some t → t.kind ≠ .comment) →
    r.namesProcedure text = true → r.isProcedure = true
  /-- Nothing else counts, but white space that is a token and a point behind the word are not
  seen. -/
  keyword : (∀ t, (r.tokensBehind text).head? = some t → t.hasInk text = true ∧
    ∀ word, t.text? text = some word → '.' ∉ word) →
    r.isProcedure = true → r.namesProcedure text = true

theorem followsTokens {text front rest : Text} {r : Routine} {before : List Piece}
    (hText : text = front ++ rest) (hBefore : Piece.IsBehindColon before)
    (hBehind : r.tokensBehind text = Piece.tokensOf front.byteSize before (Piece.ofText rest) [])
    (hProcedure : r.isProcedure = Indent.startsWith rest "procedure") : r.FollowsTokens text := by
  have hFirst : r.isProcedure = ((r.tokensBehind text).find? (Token.hasInk text)).any
      (Token.startsWith text "procedure") := by
    rw [hProcedure, hBehind, Piece.startsWith_tokensOf hText]
  refine ⟨hFirst, ?_, ?_, ?_⟩
  · intro t ht hComment
    rw [hFirst, ht, Option.any_some, Bool.eq_false_iff]
    intro hStart
    have hMem := List.mem_of_find?_eq_some ht
    rw [hBehind] at hMem
    exact Piece.kind_ne_comment hText (List.find?_some ht) hStart hMem hComment
  · intro hNext hNames
    cases hTokens : r.tokensBehind text with
    | nil =>
      rw [Routine.namesProcedure, hTokens] at hNames
      cases hNames
    | cons t back =>
      rw [Routine.namesProcedure_eq hTokens (hNext t (by rw [hTokens]; rfl))] at hNames
      obtain ⟨hInk, hStart⟩ := Token.startsWith_of_isKeyword hNames
      rw [hFirst, hTokens, List.find?_cons_of_pos hInk]
      exact hStart
  · intro hNext hIs
    rw [hFirst] at hIs
    cases hTokens : r.tokensBehind text with
    | nil =>
      rw [hTokens] at hIs
      cases hIs
    | cons t back =>
      obtain ⟨hInk, hPoint⟩ := hNext t (by rw [hTokens]; rfl)
      rw [hTokens, List.find?_cons_of_pos hInk, Option.any_some] at hIs
      have hCut := hBehind.symm.trans hTokens
      have hKind := Piece.kind_ne_comment hText hInk hIs (hCut ▸ List.mem_cons_self)
      rw [Routine.namesProcedure_eq hTokens hKind]
      exact Piece.isKeyword_of_startsWith hText hInk hIs hBefore hCut hPoint

/-- **Procedures and tokens.** The text behind the colon of a routine says whether it is a
procedure. The colon is a token of its own, and then the tokens behind it say the same, unless the
name starts with a number sign that opens a comment. -/
theorem isProcedure_tokensBehind {text : Text} {r : Routine} (h : r ∈ routines text) :
    (∃ front rest, text = front ++ ':' :: rest ∧ r.colon text = front.byteSize ∧
        r.isProcedure = Indent.startsWith rest "procedure") ∧
      ∃ t ∈ (classify text .normal).tokens, t.Covers (r.colon text) ∧
        (t.span = ⟨r.colon text, r.colon text + 1⟩ ∧ r.FollowsTokens text ∨
          t.kind = .comment ∧ r.name.head? = some '#') := by
  obtain ⟨above, line, below, label, hDeclares⟩ := exists_declares h
  obtain ⟨front, piece, hText, hColon, hPiece, hSort⟩ := hDeclares.exists_colon
  have hProcedure : r.isProcedure =
      Indent.startsWith (label.rest ++ Text.feedBefore below) "procedure" := by
    rw [hDeclares.isProcedure_eq, startsWith_follower]
  generalize label.rest ++ Text.feedBefore below = rest at hText hProcedure
  refine ⟨⟨front, rest, hText, hColon, hProcedure⟩, ?_⟩
  rcases hSort with rfl | ⟨hComment, hName⟩
  · obtain ⟨⟨t, ht, hSpan⟩, xs, hBehind⟩ := exists_behind_of_hasColon hPiece hText
    rw [← hColon] at hSpan
    have hSource : text = front ++ [':'] ++ rest := by rw [hText, List.append_cons]
    have hSize : front.byteSize + 1 = (front ++ [':']).byteSize :=
      (Text.byteSize_append front [':']).symm
    rw [hSize, ← hColon] at hBehind
    have hFollows := followsTokens hSource (Or.inr ⟨false, rfl⟩) hBehind hProcedure
    refine ⟨t, ht, ?_, Or.inl ⟨hSpan, hFollows⟩⟩
    rw [Token.Covers, hSpan]
    exact ⟨Nat.le_refl _, Nat.lt_succ_self _⟩
  · obtain ⟨t, ht, hCovers, hKind⟩ := exists_comment_of_hasColon hPiece hComment
    exact ⟨t, ht, hColon ▸ hCovers, Or.inr ⟨hKind, hName⟩⟩

/-- The keyword on the line below the label. -/
theorem isProcedure_tokensBehind_below :
    let text := "main:\n  Procedure expose x".toList
    let r : Routine := ⟨"main".toList, 0, ⟨⟨0, 4⟩, ⟨0, 0⟩, ⟨0, 4⟩⟩, true⟩
    r ∈ routines text ∧ ∃ t ∈ (classify text .normal).tokens, t.Covers (r.colon text) ∧
      (t.span = ⟨r.colon text, r.colon text + 1⟩ ∧ r.FollowsTokens text ∨
        t.kind = .comment ∧ r.name.head? = some '#') := by
  intro text r
  have hMem : r ∈ routines text := by decide +kernel
  exact ⟨hMem, (isProcedure_tokensBehind hMem).2⟩

/-- A comment hides the keyword, on a line of its own or in front of it. A longer name and other
white space are not seen, nor is the comment in which a label stands. -/
theorem isProcedure_ne_namesProcedure :
    ["main:\n/* c */\nprocedure", "main: /* c */ procedure", "main: procedure.x",
        "main:\u00a0procedure", "# : procedure"].map (fun source =>
          (routines source.toList).map fun r => (r.isProcedure, r.namesProcedure source.toList)) =
      [[(false, true)], [(false, true)], [(true, false)], [(true, false)], [(true, false)]] := by
  decide +kernel

end Outline

end RexxEditing
