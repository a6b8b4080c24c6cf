import Mathlib.Data.List.Induction
import RexxEditing.Proofs.Highlight.WholeText
import RexxEditing.Proofs.Indent.Column
import RexxEditing.Proofs.Text.Position

/-! # Categories are local

The category of a token that is neither a comment nor a string follows from its text and from the
tokens next to it on its line. Comments and strings count as something that is there, whatever is in
them, also if they were opened on a line above.

* `Side.ofBefore`, `Side.ofAfter`: what the tokens on either side are to a token.
* `Piece.state_of_side`: the first token of a line has nothing before it only if the line is entered
  in code.
* `classify_local`: the category of every token by the table.
-/

namespace RexxEditing

/-! ## Gaps between tokens -/

/-- What the token is to one that is right next to it. -/
def Token.side (t : Token) (text : Text) : Side :=
  if t.kind.isRegion then .region else .word ((t.text? text).getD []) false

namespace Side

/-- What is on the other side of a gap. A gap with a line feed in it goes to another line. -/
def beyond (gap : Text) (s : Side) : Side :=
  if gap.contains '\n' then .nothing else if gap.isEmpty then s else s.across

theorem beyond_nil (s : Side) : beyond [] s = s := rfl

theorem beyond_nothing (gap : Text) : beyond gap .nothing = .nothing := by
  unfold beyond
  split
  · rfl
  · split <;> rfl

theorem beyond_of_contains {gap : Text} (h : gap.contains '\n' = true) (s : Side) :
    beyond gap s = .nothing :=
  if_pos h

theorem beyond_of_ne_nil {gap : Text} (h : gap.contains '\n' = false) (hne : gap ≠ []) (s : Side) :
    beyond gap s = s.across := by
  have hEmpty : gap.isEmpty = false := by simpa using hne
  rw [beyond, h, hEmpty]
  rfl

theorem across_across (s : Side) : s.across.across = s.across := by
  cases s <;> rfl

theorem eq_nothing_of_across {s : Side} (h : s.across = .nothing) : s = .nothing := by
  cases s with
  | nothing => rfl
  | _ => cases h

theorem eq_region_of_across {s : Side} (h : s.across = .region) : s = .region := by
  cases s with
  | region => rfl
  | _ => cases h

theorem beyond_append (t u : Text) (s : Side) : beyond (t ++ u) s = beyond t (beyond u s) := by
  cases hT : t.contains '\n' with
  | true =>
    rw [beyond_of_contains hT, beyond_of_contains]
    rw [List.contains_append, hT, Bool.true_or]
  | false =>
    cases hU : u.contains '\n' with
    | true =>
      rw [beyond_of_contains hU, beyond_nothing, beyond_of_contains]
      rw [List.contains_append, hU, Bool.or_true]
    | false =>
      have hBoth : (t ++ u).contains '\n' = false := by rw [List.contains_append, hT, hU]; rfl
      by_cases ht : t = []
      · rw [ht, List.nil_append, beyond_nil]
      by_cases hu : u = []
      · rw [hu, List.append_nil, beyond_nil]
      rw [beyond_of_ne_nil hBoth (by simp [ht]), beyond_of_ne_nil hT ht, beyond_of_ne_nil hU hu,
        across_across]

theorem beyond_append_comm (t u : Text) (s : Side) : beyond (t ++ u) s = beyond (u ++ t) s := by
  have hContains : (t ++ u).contains '\n' = (u ++ t).contains '\n' := by
    rw [List.contains_append, List.contains_append, Bool.or_comm]
  have hEmpty : (t ++ u).isEmpty = (u ++ t).isEmpty := by
    cases t <;> cases u <;> rfl
  rw [beyond, beyond, hContains, hEmpty]

/-- What the last of the tokens is to one that starts at byte `start`. -/
def ofBefore (text : Text) (tokens : List Token) (start : Nat) : Side :=
  match tokens.getLast? with
  | none => .nothing
  | some near => beyond ((text.slice? near.span.stop start).getD []) (near.side text)

/-- What the first of the tokens is to one that ends at byte `stop`. -/
def ofAfter (text : Text) (tokens : List Token) (stop : Nat) : Side :=
  match tokens.head? with
  | none => .nothing
  | some near => beyond ((text.slice? stop near.span.start).getD []) (near.side text)

theorem ofBefore_concat (text : Text) (tokens : List Token) (t : Token) (start : Nat) :
    ofBefore text (tokens ++ [t]) start =
      beyond ((text.slice? t.span.stop start).getD []) (t.side text) := by
  rw [ofBefore, List.getLast?_concat]

theorem ofAfter_cons (text : Text) (t : Token) (tokens : List Token) (stop : Nat) :
    ofAfter text (t :: tokens) stop =
      beyond ((text.slice? stop t.span.start).getD []) (t.side text) := rfl

end Side

/-! ## Pieces and tokens -/

namespace Piece

theorem side_blank {gap : Text} (h : gap ≠ []) (pieces : List Piece) :
    side (blank gap :: pieces) = (side pieces).beyond gap := by
  rw [side]
  split
  · rename_i hFeed
    rw [Side.beyond_of_contains hFeed]
  · rename_i hFeed
    rw [Side.beyond_of_ne_nil (by simpa using hFeed) h]

/-- The token of a piece is to its neighbours what the piece is. -/
theorem side_of_cuts {piece : Piece} {before after : List Piece} {t : Token}
    (hKind : piece.category? before after = some t.kind) {text front rest : Text}
    (hCuts : t.Cuts text front piece.text rest) (pieces : List Piece) :
    t.side text = side (piece :: pieces) := by
  have hRegion {region : Region} (h : region.kind = t.kind) : t.side text = .region := by
    rw [Token.side, ← h]
    cases region <;> rfl
  have hWord {word : Text} (hText : t.text? text = some word)
      (h : priority word (side before) (side after) (side before == .nothing) = t.kind) :
      t.side text = .word word false := by
    rw [Token.side, ← h, priority_isRegion, hText]
    rfl
  have hText := hCuts.text?
  cases piece with
  | blank word => cases hKind
  | closed region word => exact hRegion (Option.some.inj hKind)
  | lineComment word =>
    rw [Token.side, ← Option.some.inj hKind]
    rfl
  | unclosed region word =>
    rw [category?] at hKind
    split at hKind
    · cases hKind
    · exact hRegion (Option.some.inj hKind)
  | unknown word => exact hWord hText (Option.some.inj hKind)
  | code shape word => exact hWord hText (Option.some.inj hKind)

/-- A piece that is not blank has a token, unless nothing of it is there. -/
theorem exists_category? {piece : Piece} (hBlank : piece.isBlank = false) (hText : piece.text ≠ [])
    (before after : List Piece) : ∃ kind, piece.category? before after = some kind := by
  cases piece with
  | blank word => cases hBlank
  | unclosed region word =>
    have hWord : word ≠ [] := hText
    exact ⟨region.kind, by simp [category?, hWord]⟩
  | _ => exact ⟨_, rfl⟩

theorem tokensOf_blank (base : Nat) (before : List Piece) (word : Text)
    (pieces after : List Piece) :
    tokensOf base before (blank word :: pieces) after =
      tokensOf (base + word.byteSize) (blank word :: before) pieces after := rfl

/-- A piece that is not blank is a token, and is to its neighbours what the token is. -/
theorem tokensOf_cons_of_not_isBlank {piece : Piece} (hBlank : piece.isBlank = false)
    (hne : piece.text ≠ []) {text front rest : Text} (hText : text = front ++ piece.text ++ rest)
    (before pieces after : List Piece) :
    ∃ t : Token, tokensOf front.byteSize before (piece :: pieces) after =
        t :: tokensOf (front.byteSize + piece.text.byteSize) (piece :: before) pieces after ∧
      t.span = ⟨front.byteSize, front.byteSize + piece.text.byteSize⟩ ∧
      ∀ others, side (piece :: others) = t.side text := by
  obtain ⟨kind, hKind⟩ := exists_category? hBlank hne before (pieces ++ after)
  refine ⟨⟨kind, front.byteSize, front.byteSize + piece.text.byteSize⟩, ?_, rfl, ?_⟩
  · rw [tokensOf, hKind]
    rfl
  · intro others
    exact (side_of_cuts hKind ⟨hText, rfl⟩ others).symm

/-- What the tokens in front of a gap are to what is behind it. -/
theorem ofBefore_tokensOf {text gap rest : Text} {xs : List Piece}
    (hText : text = xs.flatMap Piece.text ++ gap ++ rest) (hne : ∀ p ∈ xs, p.text ≠ [])
    (after : List Piece) :
    Side.ofBefore text (tokensOf 0 [] xs after)
        (Text.byteSize (xs.flatMap Piece.text) + gap.byteSize) =
      (side xs.reverse).beyond gap := by
  induction xs using List.reverseRecOn generalizing gap after with
  | nil => exact (Side.beyond_nothing gap).symm
  | append_singleton xs piece ih =>
    obtain ⟨hXs, hPiece⟩ := List.forall_mem_append.1 hne
    have hne' : piece.text ≠ [] := hPiece piece List.mem_cons_self
    rw [List.flatMap_append, List.flatMap_singleton] at hText ⊢
    have hReverse : (xs ++ [piece]).reverse = piece :: xs.reverse := by simp
    rw [tokensOf_append, hReverse, Nat.zero_add, List.append_nil]
    cases hBlank : piece.isBlank with
    | true =>
      cases piece with
      | blank word =>
        have hGap : text = xs.flatMap Piece.text ++ (word ++ gap) ++ rest := by
          rw [hText]
          simp [Piece.text]
        have hBefore := ih hGap hXs ([blank word] ++ after)
        rw [Text.byteSize_append, ← Nat.add_assoc] at hBefore
        have hWord : word ≠ [] := hne'
        rw [side_blank hWord, ← Side.beyond_append, Side.beyond_append_comm, tokensOf_blank,
          tokensOf, List.append_nil, Text.byteSize_append]
        exact hBefore
      | _ => cases hBlank
    | false =>
      have hFront : text = xs.flatMap Piece.text ++ piece.text ++ (gap ++ rest) := by
        rw [hText, List.append_assoc]
      obtain ⟨t, hTokens, hSpan, hSide⟩ :=
        tokensOf_cons_of_not_isBlank hBlank hne' hFront xs.reverse [] after
      have hSlice := Text.slice?_append (xs.flatMap Piece.text ++ piece.text) gap rest
      rw [← hText] at hSlice
      rw [hTokens, tokensOf, Side.ofBefore_concat, hSide, hSpan, ← Text.byteSize_append, hSlice]
      rfl

/-- What the tokens behind a gap are to what is in front of it. -/
theorem ofAfter_tokensOf {text front gap : Text} {ys : List Piece}
    (hText : text = front ++ gap ++ ys.flatMap Piece.text) (hne : ∀ p ∈ ys, p.text ≠ [])
    (before : List Piece) :
    Side.ofAfter text (tokensOf (front.byteSize + gap.byteSize) before ys []) front.byteSize =
      (side ys).beyond gap := by
  induction ys generalizing gap before with
  | nil => exact (Side.beyond_nothing gap).symm
  | cons piece ys ih =>
    obtain ⟨hPiece, hYs⟩ := List.forall_mem_cons.1 hne
    rw [List.flatMap_cons] at hText
    cases hBlank : piece.isBlank with
    | true =>
      cases piece with
      | blank word =>
        have hGap : text = front ++ (gap ++ word) ++ ys.flatMap Piece.text := by
          rw [hText]
          simp [Piece.text]
        have hAfter := ih hGap hYs (blank word :: before)
        rw [Text.byteSize_append, ← Nat.add_assoc] at hAfter
        have hWord : word ≠ [] := hPiece
        rw [side_blank hWord, ← Side.beyond_append, tokensOf_blank]
        exact hAfter
      | _ => cases hBlank
    | false =>
      rw [← List.append_assoc] at hText
      obtain ⟨t, hTokens, hSpan, hSide⟩ :=
        tokensOf_cons_of_not_isBlank hBlank hPiece hText before ys []
      have hSlice := Text.slice?_append front gap (piece.text ++ ys.flatMap Piece.text)
      rw [← List.append_assoc, ← hText] at hSlice
      rw [← Text.byteSize_append, hTokens, Side.ofAfter_cons, hSide, hSpan, Text.byteSize_append,
        hSlice]
      rfl

end Piece

/-! ## The line of a token -/

theorem Lexeme.text_eq_newline {c : Char} {cs : Text} (hSpace : (first c cs).isSpace = true)
    (h : '\n' ∈ (first c cs).text) : (first c cs).text = ['\n'] := by
  have hc : Text.isSeparator c = true := by
    rw [isSeparator_eq_isSpace List.mem_cons_self, hSpace]
  rw [Text.isSeparator, Bool.or_eq_true, beq_iff_eq] at hc
  rcases hc with hBlank | rfl
  · -- a run of blanks has no line feed
    rw [first, extent_of_isBlank hBlank] at h
    rcases List.mem_cons.1 h with hFeed | hFeed
    · rw [← hFeed] at hBlank
      cases hBlank
    · have hRun := of_mem_take_runLength hFeed
      cases hRun
  · rfl

namespace Piece

/-- A piece has some text, and a blank with a line feed in it is that line feed. -/
def IsCut : Piece → Prop
  | blank word => word ≠ [] ∧ ('\n' ∈ word → word = ['\n'])
  | piece => piece.text ≠ []

theorem IsCut.text_ne_nil {piece : Piece} (h : piece.IsCut) : piece.text ≠ [] := by
  cases piece with
  | blank word => exact h.1
  | _ => exact h

theorem isCut_ofText (t : Text) : ∀ p ∈ ofText t, p.IsCut := by
  fun_induction ofText t with
  | case1 => simp
  | case2 c cs lexeme rest _ ih => exact List.forall_mem_cons.2 ⟨List.cons_ne_nil _ _, ih⟩
  | case3 c cs lexeme rest _ _ _ _ n _ ih =>
    exact List.forall_mem_cons.2 ⟨List.cons_ne_nil _ _, ih⟩
  | case4 => exact List.forall_mem_singleton.2 (List.cons_ne_nil _ _)
  | case5 c cs lexeme rest _ _ _ _ ih => exact List.forall_mem_cons.2 ⟨List.cons_ne_nil _ _, ih⟩
  | case6 c cs lexeme rest shape hShape _ _ hSpace ih =>
    refine List.forall_mem_cons.2 ⟨⟨List.cons_ne_nil _ _, ?_⟩, ih⟩
    apply Lexeme.text_eq_newline
    rw [Lexeme.isSpace, show (Lexeme.first c cs).shape? = some shape from hShape]
    exact hSpace
  | case7 c cs lexeme rest _ _ _ _ _ ih => exact List.forall_mem_cons.2 ⟨List.cons_ne_nil _ _, ih⟩

theorem text_ne_nil {t : Text} {piece : Piece} (h : piece ∈ ofText t) : piece.text ≠ [] :=
  (isCut_ofText t piece h).text_ne_nil

theorem isCut_ofTextIn (entry : State) {t : Text} (h : t ≠ []) :
    ∀ p ∈ ofTextIn entry t, p.IsCut := by
  cases entry with
  | normal => exact isCut_ofText t
  | inside region =>
    simp only [ofTextIn, resume, List.nil_append]
    cases hLength : region.length? t with
    | none => exact List.forall_mem_singleton.2 h
    | some n =>
      refine List.forall_mem_cons.2 ⟨?_, isCut_ofText _⟩
      have hPos := (Region.length?_bounds hLength).1
      show t.take n ≠ []
      rw [ne_eq, List.take_eq_nil_iff, not_or]
      exact ⟨by omega, h⟩

/-- A blank on one line. -/
def IsGap (piece : Piece) : Prop := ∃ word, piece = blank word ∧ '\n' ∉ word

theorem newline_notMem_of_isGap {pieces : List Piece} (h : ∀ p ∈ pieces, p.IsGap) :
    '\n' ∉ pieces.flatMap text := by
  intro hMem
  obtain ⟨p, hp, hFeed⟩ := List.mem_flatMap.1 hMem
  obtain ⟨word, rfl, hWord⟩ := h p hp
  exact hWord hFeed

theorem side_eq_region_of_isGap {gaps pieces : List Piece} (hGaps : ∀ p ∈ gaps, p.IsGap)
    (h : side (gaps ++ pieces) = .region) : side pieces = .region := by
  induction gaps with
  | nil => exact h
  | cons gap gaps ih =>
    obtain ⟨⟨word, rfl, hWord⟩, hRest⟩ := List.forall_mem_cons.1 hGaps
    rw [List.cons_append, side, if_neg (by simpa using hWord)] at h
    exact ih hRest (Side.eq_region_of_across h)

/-- Where there is nothing on one side, there are only blanks up to a line feed or to the end. -/
theorem gaps_of_side_eq_nothing {pieces : List Piece} (h : side pieces = .nothing) :
    (∀ p ∈ pieces, p.IsGap) ∨
      ∃ gaps word rest, pieces = gaps ++ blank word :: rest ∧ '\n' ∈ word ∧
        ∀ p ∈ gaps, p.IsGap := by
  induction pieces with
  | nil => exact Or.inl (by simp)
  | cons piece pieces ih =>
    cases piece with
    | blank word =>
      by_cases hWord : '\n' ∈ word
      · exact Or.inr ⟨[], word, pieces, rfl, hWord, by simp⟩
      · rw [side, if_neg (by simpa using hWord)] at h
        rcases ih (Side.eq_nothing_of_across h) with hAll | ⟨gaps, feed, rest, rfl, hFeed, hGaps⟩
        · exact Or.inl (List.forall_mem_cons.2 ⟨⟨word, rfl, hWord⟩, hAll⟩)
        · exact Or.inr ⟨blank word :: gaps, feed, rest, rfl, hFeed,
            List.forall_mem_cons.2 ⟨⟨word, rfl, hWord⟩, hGaps⟩⟩
    | _ => cases h

theorem exists_resume (region : Region) (waiting t : Text) :
    ∃ piece rest, resume region waiting t = piece :: rest ∧ piece.isBlank = false ∧
      waiting.length ≤ piece.text.length := by
  unfold resume
  cases region.length? t with
  | none => exact ⟨_, _, rfl, rfl, by simp [text]⟩
  | some n => exact ⟨_, _, rfl, rfl, by simp [text]⟩

/-- A line feed in a region is no blank between pieces. -/
theorem not_isBlank_of_feed {init xs ys : List Piece} {region : Region} {word gap more : Text}
    (hInit : ∀ p ∈ init, p.isComplete = true) (hGap : gap ≠ [])
    (hText : (init ++ [unclosed region word]).flatMap text = xs.flatMap text) :
    feed more (init ++ [unclosed region word]) ≠ xs ++ blank gap :: ys := by
  intro h
  obtain ⟨piece, rest, hResume, hBlank, hLength⟩ := exists_resume region (word ++ ['\n']) more
  rw [feed_append_of_isComplete hInit, feed, hResume] at h
  have hSizes := congrArg List.length hText
  rw [List.flatMap_append, List.flatMap_singleton, List.length_append] at hSizes
  have hWord : (unclosed region word).text.length = word.length := rfl
  rw [List.length_append, List.length_singleton] at hLength
  rcases List.append_eq_append_iff.1 h with ⟨mid, rfl, hMid⟩ | ⟨mid, rfl, hMid⟩
  · cases mid with
    | nil =>
      obtain ⟨rfl, -⟩ := List.cons.inj hMid
      cases hBlank
    | cons p mid =>
      obtain ⟨rfl, -⟩ := List.cons.inj hMid
      rw [List.flatMap_append, List.flatMap_cons, List.length_append, List.length_append] at hSizes
      omega
  · cases mid with
    | nil =>
      obtain ⟨rfl, -⟩ := List.cons.inj hMid
      cases hBlank
    | cons p mid =>
      obtain ⟨rfl, -⟩ := List.cons.inj hMid
      have hPos : 0 < (blank gap).text.length := List.length_pos_of_ne_nil hGap
      rw [List.flatMap_append, List.flatMap_cons, List.length_append, List.length_append] at hSizes
      omega

end Piece

theorem Text.exists_lines_append {gap : Text} (h : '\n' ∉ gap) (rest : Text) :
    ∃ line more, (gap ++ rest).lines = (gap ++ line) :: more := by
  induction gap with
  | nil => exact exists_lines_eq_cons rest
  | cons c gap ih =>
    rw [List.mem_cons, not_or] at h
    obtain ⟨line, more, hLine⟩ := ih h.2
    exact ⟨line, more, lines_cons_of_ne (Ne.symm h.1) hLine⟩

theorem LineTable.lineOf_gap {text gap rest : Text} {above : List Text}
    (hLines : text.lines = above ++ Text.lines (gap ++ rest)) (hGap : '\n' ∉ gap) :
    (ofText text).lineOf (Text.linesSize above + gap.byteSize) = above.length := by
  obtain ⟨line, more, hLine⟩ := Text.exists_lines_append hGap rest
  rw [hLine] at hLines
  apply lineOf_of_mem
  · rw [hLines]
    simp
  · rw [hLines, List.take_left]
    omega
  · have hTake : (above ++ (gap ++ line) :: more).take (above.length + 1) =
        above ++ [gap ++ line] := by
      simp [List.take_append]
    rw [hLines, hTake, Text.linesSize_append, Text.linesSize_cons, Text.byteSize_append]
    omega

/-- The state in which the line behind a part of the text is entered. -/
theorem lineStates_gap {text gap rest : Text} {above : List Text}
    (hLines : text.lines = above ++ Text.lines (gap ++ rest)) (hGap : '\n' ∉ gap) (entry : State) :
    (lineStates text entry)[
        (LineTable.ofText text).lineOf (Text.linesSize above + gap.byteSize)]? =
      some (entry.after above) := by
  obtain ⟨line, more, hLine⟩ := Text.exists_lines_eq_cons (gap ++ rest)
  have hLast : text.lines[above.length]? = some line := by
    rw [hLines, hLine]
    simp
  rw [LineTable.lineOf_gap hLines hGap, lineStates, State.sequence_getElem? entry hLast, hLines,
    List.take_left]

namespace Piece

theorem after_lines (entry : State) (text : Text) :
    entry.after text.lines = exitState (ofTextIn entry text) := by
  have hExit := congrArg Classification.exit (classify_eq_tokensOf text entry)
  rw [classify_eq] at hExit
  exact hExit

/-- A line feed between pieces is not in a region. -/
theorem after_eq_normal {entry : State} {front more : Text} {xs ys : List Piece} {gap : Text}
    (h : ofTextIn entry (front ++ '\n' :: more) = xs ++ blank gap :: ys) (hGap : gap ≠ [])
    (hText : xs.flatMap text = front) : entry.after front.lines = .normal := by
  rw [after_lines]
  rcases ofTextIn_cases entry front with hComplete | ⟨init, region, word, hParts, hInit⟩
  · exact exitState_of_isComplete hComplete
  · have hFront := flatMap_text_ofTextIn entry front
    rw [ofTextIn_append_newline, hParts] at h
    rw [hParts, ← hText] at hFront
    exact absurd h (not_isBlank_of_feed hInit hGap hFront)

/-- **Nothing in front.** Where a piece has nothing before it on its line, the line is entered in
code, unless the piece is the region that was open. -/
theorem state_of_side {entry : State} {text : Text} {xs ys : List Piece} {piece : Piece}
    (h : ofTextIn entry text = xs ++ piece :: ys) (hPiece : side (piece :: ys) ≠ .region)
    (hSide : side xs.reverse = .nothing) :
    (lineStates text entry)[
        (LineTable.ofText text).lineOf (Text.byteSize (xs.flatMap Piece.text))]? =
      some .normal := by
  have hText := flatMap_text_ofTextIn entry text
  rw [h, List.flatMap_append] at hText
  rcases gaps_of_side_eq_nothing hSide with hAll | ⟨gaps, word, above, hReverse, hWord, hGaps⟩
  · -- the piece is on the first line
    have hXs : ∀ p ∈ xs, p.IsGap := fun p hp => hAll p (List.mem_reverse.2 hp)
    have hLines : text.lines =
        [] ++ Text.lines (xs.flatMap Piece.text ++ (piece :: ys).flatMap Piece.text) := by
      rw [hText, List.nil_append]
    have hState := lineStates_gap hLines (newline_notMem_of_isGap hXs) entry
    rw [Text.linesSize_nil, Nat.zero_add] at hState
    rw [hState]
    cases entry with
    | normal => rfl
    | inside region =>
      have hRegion := side_resume region [] text []
      rw [List.append_nil, show resume region [] text = xs ++ piece :: ys from h] at hRegion
      exact absurd (side_eq_region_of_isGap hXs hRegion) hPiece
  · -- the line of the piece is behind the line feed
    obtain rfl : xs = above.reverse ++ blank word :: gaps.reverse := by
      rw [← List.reverse_reverse xs, hReverse]
      simp
    have hMem : blank word ∈ ofTextIn entry text := by
      rw [h]
      simp
    have hne : text ≠ [] := by
      rw [← flatMap_text_ofTextIn entry text]
      exact List.ne_nil_of_mem (List.mem_flatMap.2 ⟨_, hMem, hWord⟩)
    obtain rfl : word = ['\n'] := (isCut_ofTextIn entry hne _ hMem).2 hWord
    have hGap : '\n' ∉ gaps.reverse.flatMap Piece.text :=
      newline_notMem_of_isGap fun p hp => hGaps p (List.mem_reverse.1 hp)
    have hSplit : text = above.reverse.flatMap Piece.text ++ '\n' ::
        (gaps.reverse.flatMap Piece.text ++ (piece :: ys).flatMap Piece.text) := by
      rw [← hText]
      simp [Piece.text]
    have hLines : text.lines = Text.lines (above.reverse.flatMap Piece.text) ++
        Text.lines (gaps.reverse.flatMap Piece.text ++ (piece :: ys).flatMap Piece.text) := by
      rw [hSplit, Text.lines_append_newline]
    have hSize :
        Text.byteSize ((above.reverse ++ blank ['\n'] :: gaps.reverse).flatMap Piece.text) =
        Text.linesSize (Text.lines (above.reverse.flatMap Piece.text)) +
          Text.byteSize (gaps.reverse.flatMap Piece.text) := by
      rw [List.flatMap_append, List.flatMap_cons, Text.byteSize_append, Text.byteSize_append,
        Text.linesSize_lines, ← Nat.add_assoc]
      rfl
    rw [hSize, lineStates_gap hLines hGap entry]
    rw [hSplit, List.append_assoc] at h
    exact congrArg some (after_eq_normal h (List.cons_ne_nil _ _) rfl)

end Piece

/-- A piece whose category is not that of a region is a word of the code. -/
theorem Piece.eq_priority {piece : Piece} {before after : List Piece} {kind : Kind}
    (h : piece.category? before after = some kind) (hKind : kind.isRegion = false) :
    kind = priority piece.text (side before) (side after) (side before == .nothing) ∧
      ∀ others, side (piece :: others) ≠ .region := by
  have hRegion (region : Region) : region.kind.isRegion = true := by cases region <;> rfl
  cases piece with
  | blank word => cases h
  | closed region word =>
    rw [← Option.some.inj h, hRegion] at hKind
    cases hKind
  | lineComment word =>
    rw [← Option.some.inj h] at hKind
    cases hKind
  | unclosed region word =>
    rw [category?] at h
    split at h
    · cases h
    · rw [← Option.some.inj h, hRegion] at hKind
      cases hKind
  | unknown word => exact ⟨(Option.some.inj h).symm, by simp [side]⟩
  | code shape word => exact ⟨(Option.some.inj h).symm, by simp [side]⟩

/-- **Locality.** A token that is neither a comment nor a string has the category that the table
gives its text, between the token before it and the token after it on its line. It counts as the
first token of its line if there is none before it and the line is entered in code. -/
theorem classify_local {text : Text} {entry : State} {before after : List Token} {t : Token}
    (h : (classify text entry).tokens = before ++ t :: after) (hComment : t.kind ≠ .comment)
    (hString : t.kind ≠ .string) :
    ∃ word, t.text? text = some word ∧
      t.kind = priority word (Side.ofBefore text before t.span.start)
        (Side.ofAfter text after t.span.stop)
        (Side.ofBefore text before t.span.start == .nothing &&
          (lineStates text entry)[(LineTable.ofText text).lineOf t.span.start]? ==
            some .normal) := by
  rw [classify_eq_tokensOf] at h
  have hne : text ≠ [] := by
    rintro rfl
    cases entry <;>
      simp [Piece.ofTextIn, Piece.ofText, Piece.resume, Region.length?_nil, Piece.tokensOf,
        Piece.category?] at h
  obtain ⟨xs, piece, ys, hPieces, hAt⟩ := Piece.exists_tokenAt h
  have hText : (xs ++ piece :: ys).flatMap Piece.text = text := by
    rw [← hPieces, Piece.flatMap_text_ofTextIn]
  have hWords : ∀ p ∈ xs ++ piece :: ys, p.text ≠ [] := by
    rw [← hPieces]
    exact fun p hp => (Piece.isCut_ofTextIn entry hne p hp).text_ne_nil
  have hCuts := hAt.cuts hText
  have hKind : t.kind.isRegion = false := by
    cases hk : t.kind <;> simp_all [Kind.isRegion]
  obtain ⟨hPriority, hWord⟩ := Piece.eq_priority hAt.kind_eq hKind
  have hBefore : Side.ofBefore text before t.span.start = Piece.side xs.reverse := by
    have hGap : text =
        xs.flatMap Piece.text ++ [] ++ (piece.text ++ ys.flatMap Piece.text) := by
      rw [List.append_nil, ← List.append_assoc]
      exact hCuts.text_eq
    have hSide := Piece.ofBefore_tokensOf hGap (List.forall_mem_append.1 hWords).1
      (piece :: ys ++ [])
    rw [← hAt.front_eq] at hSide
    rw [hCuts.span_eq]
    exact hSide
  have hAfter : Side.ofAfter text after t.span.stop = Piece.side ys := by
    have hGap : text = xs.flatMap Piece.text ++ piece.text ++ [] ++ ys.flatMap Piece.text := by
      rw [List.append_nil]
      exact hCuts.text_eq
    have hYs := (List.forall_mem_cons.1 (List.forall_mem_append.1 hWords).2).2
    have hSide := Piece.ofAfter_tokensOf hGap hYs (piece :: (xs.reverse ++ []))
    have hStop : t.span.stop = Text.byteSize (xs.flatMap Piece.text ++ piece.text) := by
      rw [hCuts.span_eq, Text.byteSize_append]
    rw [hAt.back_eq, hStop]
    exact hSide
  refine ⟨piece.text, hCuts.text?, ?_⟩
  rw [hBefore, hAfter, hPriority, List.append_nil, List.append_nil]
  cases hSide : Piece.side xs.reverse with
  | nothing =>
    have hState := Piece.state_of_side hPieces (hWord ys) hSide
    rw [hCuts.span_eq, hState]
    rfl
  | region => rfl
  | word near apart => rfl

/-- The first word behind a string from the line above is no label. -/
theorem classify_local_behind_string :
    let text : Text := "'a\nb' x:".toList
    let string : Token := ⟨.string, 0, 5⟩
    let word : Token := ⟨.plainText, 6, 7⟩
    let colon : Token := ⟨.plainText, 7, 8⟩
    (classify text .normal).tokens = [string] ++ word :: [colon] ∧
      Side.ofBefore text [string] 6 = .region ∧
      ∃ w, word.text? text = some w ∧
        word.kind = priority w (Side.ofBefore text [string] 6) (Side.ofAfter text [colon] 7)
          (Side.ofBefore text [string] 6 == .nothing &&
            (lineStates text .normal)[(LineTable.ofText text).lineOf 6]? == some .normal) := by
  intro text string word colon
  have hTokens : (classify text .normal).tokens = [string] ++ word :: [colon] := by decide +kernel
  exact ⟨hTokens, by decide +kernel, classify_local hTokens (by decide) (by decide)⟩

/-- A token that is first on its line and before a colon is no label if it is no symbol. -/
theorem label_is_symbol :
    let text : Text := "(:".toList
    let mark : Token := ⟨.plainText, 0, 1⟩
    let colon : Token := ⟨.plainText, 1, 2⟩
    (classify text .normal).tokens = [mark, colon] ∧
      mark.text? text = some ['('] ∧
      (Text.isPipe ['('] = false ∧ Text.isNumber ['('] = false ∧ Text.isSymbol ['('] = false) ∧
      Side.ofBefore text [] 0 = .nothing ∧
      (lineStates text .normal)[(LineTable.ofText text).lineOf 0]? = some .normal ∧
      (Side.ofAfter text [colon] 1).holds Text.isColon = true ∧
      mark.kind ≠ .label := by
  decide +kernel

end RexxEditing
