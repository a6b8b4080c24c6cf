import RexxEditing.Highlight.Document
import RexxEditing.Proofs.Lexeme
import RexxEditing.Proofs.Region
import RexxEditing.Proofs.Text.Case

/-! # Classification in small letters

No lexeme, region or category tells a capital from its small letter, so a text and the text in small
letters have the same tokens. The argument goes along the definitions: lexemes and regions have the
same lengths, pieces have the same texts in small letters, and the categories of pieces are looked
up in small letters.

* `Lexeme.extent_lower`, `Region.length?_lower`: lengths.
* `Piece.ofLine_lower`: the pieces of a line.
* `Piece.kind?_lower`: the category of a piece.
* `classify_lower`: the tokens of a text.
-/

namespace RexxEditing

/-! ## Lexemes -/

namespace Lexeme

theorem caseBlind_isDigit : CaseBlind Char.isDigit := caseBlind_of_capitals (by decide)

theorem caseBlind_isSymbolStart : CaseBlind isSymbolStart := caseBlind_of_capitals (by decide)

theorem caseBlind_isSymbolRest : CaseBlind isSymbolRest := caseBlind_of_capitals (by decide)

theorem caseBlind_isBlank : CaseBlind Text.isBlank := caseBlind_of_capitals (by decide)

theorem runLength_lower {p : Char → Bool} (h : CaseBlind p) (cs : Text) :
    runLength p cs.lower = runLength p cs := by
  rw [runLength, Text.takeWhile_lower h, Text.length_lower]
  rfl

theorem numberLength_lower (cs : Text) : numberLength cs.lower = numberLength cs := by
  unfold numberLength
  simp only [runLength_lower caseBlind_isDigit, ← Text.lower_drop]
  generalize cs.drop (runLength Char.isDigit cs) = rest
  cases rest with
  | nil => rfl
  | cons d ds =>
    by_cases hd : d = '.'
    · subst hd
      show _ + 1 + runLength Char.isDigit (Text.lower ds) = _ + 1 + runLength Char.isDigit ds
      rw [runLength_lower caseBlind_isDigit]
    · have hLower : d.toLower ≠ '.' := mt (toLower_eq_iff rfl).1 hd
      simp [hd, hLower]

/-- The first lexeme has the same shape and length in any case. -/
theorem extent_lower (c : Char) (cs : Text) : extent c.toLower cs.lower = extent c cs := by
  unfold extent
  rw [caseBlind_isDigit c, caseBlind_isSymbolStart c, caseBlind_isBlank c, numberLength_lower,
    runLength_lower caseBlind_isSymbolRest, runLength_lower caseBlind_isBlank,
    runLength_lower caseBlind_isDigit]
  split
  · rfl
  · split
    · rfl
    · split
      · rfl
      next hSymbol _ =>
        -- a letter starts a symbol, so the first character of any other lexeme has no case
        have hSame : c.toLower = c :=
          toLower_eq_self (p := fun c => !isSymbolStart c) (by decide) (by simpa using hSymbol)
        rw [hSame]
        cases cs with
        | nil => rfl
        | cons d ds =>
          -- a mark looks at the next character, and that is no letter in a mark of two
          have hStar := @toLower_eq_iff d '*' rfl
          have hSlash := @toLower_eq_iff d '/' rfl
          have hDash := @toLower_eq_iff d '-' rfl
          have hPipe := @toLower_eq_iff d '|' rfl
          have hDigit := caseBlind_isDigit d
          rw [Text.lower_cons]
          generalize d.toLower = e at *
          generalize Text.lower ds = es
          split <;> simp_all

theorem first_lower (c : Char) (cs : Text) :
    first c.toLower cs.lower = ⟨(first c cs).shape?, Text.lower (first c cs).text⟩ := by
  rw [first, extent_lower]
  simp [first]

theorem rest_lower (c : Char) (cs : Text) : rest c.toLower cs.lower = Text.lower (rest c cs) := by
  rw [rest, extent_lower, rest, Text.lower_drop]

end Lexeme

/-! ## Regions -/

namespace Region

theorem commentLength?_lower (t : Text) : commentLength? t.lower = commentLength? t := by
  fun_induction commentLength? t with
  | case1 => rfl
  | case2 rest => rfl
  | case3 c cs hOpen ih =>
    rw [Text.lower_cons, commentLength?_cons, ih]
    intro rest hc hcs
    obtain rfl := (toLower_eq_iff rfl).1 hc
    cases cs with
    | nil => cases hcs
    | cons d ds =>
      obtain rfl := (toLower_eq_iff rfl).1 (List.cons.inj hcs).1
      exact hOpen ds rfl rfl

theorem stringLength?_lower {quote : Char} (hQuote : quote.isAlpha = false) (t : Text) :
    stringLength? quote t.lower = stringLength? quote t := by
  have hLower (c : Char) : c.toLower = quote ↔ c = quote := toLower_eq_iff hQuote
  fun_induction stringLength? quote t with
  | case1 => rfl
  | case2 => simp [stringLength?, hLower]
  | case3 c hc => simp [stringLength?, hLower, hc]
  | case4 cs ih => simp [stringLength?, hLower, ih]
  | case5 d cs hd => simp [stringLength?, hLower, hd]
  | case6 c d cs hc ih =>
    rw [Text.lower_cons] at ih
    simp [stringLength?, hLower, hc, ih]

theorem length?_lower (region : Region) (t : Text) : region.length? t.lower = region.length? t := by
  cases region with
  | comment => exact commentLength?_lower t
  | string quote => cases quote <;> exact stringLength?_lower rfl t

theorem startsLineComment_lower (t : Text) : startsLineComment t.lower = startsLineComment t := by
  cases t with
  | nil => rfl
  | cons c cs => exact caseBlind_isWhite c

end Region

/-! ## Pieces -/

namespace Piece

/-- The piece in small letters. -/
def lower : Piece → Piece
  | blank text => blank text.lower
  | code shape text => code shape text.lower
  | unknown text => unknown text.lower
  | closed region text => closed region text.lower
  | lineComment text => lineComment text.lower
  | unclosed region text => unclosed region text.lower

theorem text_lower (piece : Piece) : piece.lower.text = piece.text.lower := by
  cases piece <;> rfl

theorem shape?_lower (piece : Piece) : piece.lower.shape? = piece.shape? := by
  cases piece <;> rfl

/-- **Pieces of code** are cut in the same places in any case. -/
theorem ofCode_lower (t : Text) : ofCode t.lower = (ofCode t).map lower := by
  fun_induction ofCode t with
  | case1 => simp [ofCode]
  | case2 c cs lexeme rest hShape ih =>
    rw [Text.lower_cons, ofCode]
    simp only [Lexeme.first_lower, Lexeme.rest_lower, lexeme, rest, hShape, ih]
    rfl
  | case3 c cs lexeme rest shape hShape region hRegion n hLength ih =>
    rw [Text.lower_cons, ofCode]
    simp only [Lexeme.first_lower, Lexeme.rest_lower, lexeme, rest, hShape, hRegion,
      Region.length?_lower, hLength, ← Text.lower_take, ← Text.lower_drop, ← Text.lower_append, ih]
    rfl
  | case4 c cs lexeme rest shape hShape region hRegion hLength =>
    rw [Text.lower_cons, ofCode]
    simp only [Lexeme.first_lower, Lexeme.rest_lower, lexeme, rest, hShape, hRegion,
      Region.length?_lower, hLength, ← Text.lower_append]
    rfl
  | case5 c cs lexeme rest shape hShape hRegion hComment =>
    rw [Text.lower_cons, ofCode]
    simp only [Lexeme.first_lower, Lexeme.rest_lower, lexeme, rest, hShape, hRegion,
      Region.startsLineComment_lower, hComment, ← Text.lower_append]
    rfl
  | case6 c cs lexeme rest shape hShape hRegion hComment hSpace ih =>
    rw [Text.lower_cons, ofCode]
    simp only [Lexeme.first_lower, Lexeme.rest_lower, lexeme, rest, hShape, hRegion,
      Region.startsLineComment_lower, hComment, hSpace, ih]
    rfl
  | case7 c cs lexeme rest shape hShape hRegion hComment hSpace ih =>
    rw [Text.lower_cons, ofCode]
    simp only [Lexeme.first_lower, Lexeme.rest_lower, lexeme, rest, hShape, hRegion,
      Region.startsLineComment_lower, hComment, hSpace, ih]
    rfl

/-- **The pieces of a line** are cut in the same places in any case. -/
theorem ofLine_lower (entry : State) (line : Text) :
    ofLine entry line.lower = (ofLine entry line).map lower := by
  cases entry with
  | normal => exact ofCode_lower line
  | inside region =>
    simp only [ofLine, Region.length?_lower]
    cases region.length? line with
    | none => rfl
    | some n =>
      simp only [← Text.lower_drop, ofCode_lower, ← Text.lower_take]
      rfl

theorem exitState_map_lower (pieces : List Piece) :
    exitState (pieces.map lower) = exitState pieces := by
  unfold exitState
  rw [List.getLast?_map]
  cases pieces.getLast? with
  | none => rfl
  | some piece => cases piece <;> rfl

end Piece

theorem State.next_lower (entry : State) (line : Text) :
    entry.next line.lower = entry.next line := by
  rw [next, Piece.ofLine_lower, Piece.exitState_map_lower]
  rfl

theorem State.sequence_map_lower (entry : State) (lines : List Text) :
    entry.sequence (lines.map Text.lower) = entry.sequence lines := by
  induction lines generalizing entry with
  | nil => rfl
  | cons line rest ih => rw [List.map_cons, sequence, sequence, next_lower, ih]

theorem lineStates_lower (text : Text) (entry : State) :
    lineStates text.lower entry = lineStates text entry := by
  rw [lineStates, Text.lines_lower, State.sequence_map_lower]
  rfl

/-! ## Categories -/

theorem Vocabulary.contains_lower (v : Vocabulary) (word : Text) :
    v.contains word.lower = v.contains word := by
  rw [contains, Text.lower_lower]
  rfl

namespace Piece

/-- The neighbour in small letters. -/
def Neighbour.lower (n : Neighbour) : Neighbour := ⟨n.piece.lower, n.apart⟩

theorem neighbour_map_lower (pieces : List Piece) :
    neighbour (pieces.map lower) = (neighbour pieces).map Neighbour.lower := by
  induction pieces with
  | nil => rfl
  | cons piece rest ih =>
    cases piece with
    | blank text =>
      rw [List.map_cons, lower, neighbour, neighbour, ih, Option.map_map, Option.map_map]
      rfl
    | _ => rfl

namespace Neighbour

theorem hasShape_lower (n : Neighbour) (shape : Lexeme.Shape) :
    n.lower.hasShape shape = n.hasShape shape := by
  rw [hasShape, lower, shape?_lower]
  rfl

theorem isPipe_lower (n : Neighbour) : n.lower.isPipe = n.isPipe := by
  rw [isPipe, lower, shape?_lower]
  rfl

theorem isGlued_lower (n : Neighbour) (shape : Lexeme.Shape) :
    n.lower.isGlued shape = n.isGlued shape := by
  rw [isGlued, hasShape_lower]
  rfl

theorem isAddress_lower (n : Neighbour) : n.lower.isAddress = n.isAddress := by
  rw [isAddress, hasShape_lower, lower, text_lower, Text.eqIgnoreCase_lower]
  rfl

end Neighbour

theorem symbolKind_lower (word : Text) (before after : Option Neighbour) :
    symbolKind word.lower (before.map Neighbour.lower) (after.map Neighbour.lower) =
      symbolKind word before after := by
  simp only [symbolKind, Vocabulary.contains_lower, Option.any_map, Option.isNone_map,
    Neighbour.isPipe_lower, Neighbour.isAddress_lower, Neighbour.hasShape_lower,
    Neighbour.isGlued_lower]

theorem codeKind_lower (shape : Lexeme.Shape) (text : Text) (before after : Option Neighbour) :
    codeKind shape text.lower (before.map Neighbour.lower) (after.map Neighbour.lower) =
      codeKind shape text before after := by
  cases shape with
  | symbol => exact symbolKind_lower text before after
  | number =>
    cases after with
    | none => rfl
    | some n => simp only [codeKind, Option.map_some, Option.any_some, Neighbour.isGlued_lower]
  | _ => rfl

/-- **The category of a piece** is the same in any case. -/
theorem kind?_lower (before after : List Piece) (piece : Piece) :
    piece.lower.kind? (before.map lower) (after.map lower) = piece.kind? before after := by
  cases piece with
  | code shape text =>
    simp only [lower, kind?, neighbour_map_lower, codeKind_lower]
  | _ => rfl

/-! ## Tokens -/

/-- The piece in small letters, in its place. -/
def Located.lower (p : Located) : Located := { p with piece := p.piece.lower }

theorem locate_map_lower (base : Nat) (before pieces : List Piece) :
    locate base (before.map lower) (pieces.map lower) =
      (locate base before pieces).map Located.lower := by
  induction pieces generalizing base before with
  | nil => rfl
  | cons piece rest ih =>
    have hRest := ih (base + piece.text.byteSize) (piece :: before)
    rw [List.map_cons] at hRest
    rw [List.map_cons, locate, kind?_lower, text_lower, Text.byteSize_lower, hRest]
    rfl

theorem extendBack_map_lower (start : Nat) (pieces : List Located) :
    extendBack start (pieces.map Located.lower) = (extendBack start pieces).map Located.lower := by
  cases pieces <;> rfl

end Piece

namespace LineScan

theorem located_lower (line : Text) (base : Nat) (entry : State) (openFrom : Option Nat) :
    located line.lower base entry openFrom =
      (located line base entry openFrom).map Piece.Located.lower := by
  have hPieces := Piece.locate_map_lower base [] (Piece.ofLine entry line)
  rw [List.map_nil] at hPieces
  simp only [located, Piece.ofLine_lower, hPieces]
  cases entry with
  | normal => rfl
  | inside region => exact Piece.extendBack_map_lower _ _

theorem unclosedFrom?_map_lower (pieces : List Piece.Located) :
    unclosedFrom? (pieces.map Piece.Located.lower) = unclosedFrom? pieces := by
  unfold unclosedFrom?
  rw [List.getLast?_map]
  cases pieces.getLast? with
  | none => rfl
  | some p =>
    obtain ⟨piece, kind?, span⟩ := p
    cases piece <;> rfl

theorem ofLine_lower (line : Text) (base : Nat) (entry : State) (openFrom : Option Nat) :
    ofLine line.lower base entry openFrom = ofLine line base entry openFrom := by
  simp only [ofLine, located_lower, unclosedFrom?_map_lower, State.next_lower, List.filterMap_map]
  rfl

end LineScan

theorem scanLines_map_lower (base : Nat) (carry : Carry) (lines : List Text) :
    scanLines base carry (lines.map Text.lower) = scanLines base carry lines := by
  induction lines generalizing base carry with
  | nil => rfl
  | cons line rest ih =>
    simp only [List.map_cons, scanLines, LineScan.ofLine_lower, Text.byteSize_lower, ih]

/-- **A text in small letters** has the same tokens and the same exit. -/
theorem classify_lower (text : Text) (entry : State) :
    classify text.lower entry = classify text entry := by
  simp only [classify, Text.lines_lower, scanLines_map_lower, Text.byteSize_lower]

end RexxEditing
