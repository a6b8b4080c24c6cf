import RexxEditing.Proofs.Highlight.Scan
import RexxEditing.Proofs.Lexeme

/-! # Tokens tile the text

The tokens of a text and the separators between them are the text. This is a relation between the
two (`Tiles`) that is built up along the scan: a line tiles the part of it that is complete, and an
open region waits until its end is found.

* `ofLine_tiles`: one line, with the text of the region that waits.
* `tokensFrom_tiles`: all lines from some line on.
* `classify_tiles`: the tokens of a text tile it.
-/

namespace RexxEditing

open Text (isSeparator)

/-- Comments and strings may hold separators. -/
def Kind.isRegion : Kind → Bool
  | .comment | .string => true
  | _ => false

/-- `Tiles start tokens text`: the text starts at byte `start` and consists of the tokens in their
places and of separators. No token is empty, and only comments and strings have separators in
them. -/
inductive Tiles : Nat → List Token → Text → Prop
  | nil (start : Nat) : Tiles start [] []
  | gap {start : Nat} {tokens : List Token} {c : Char} {rest : Text} :
      isSeparator c = true → Tiles (start + c.utf8Size) tokens rest →
      Tiles start tokens (c :: rest)
  | token {start : Nat} {kind : Kind} {text rest : Text} {tokens : List Token} :
      text ≠ [] → (kind.isRegion = true ∨ ∀ c ∈ text, isSeparator c = false) →
      Tiles (start + text.byteSize) tokens rest →
      Tiles start (⟨kind, start, start + text.byteSize⟩ :: tokens) (text ++ rest)

namespace Tiles

variable {start : Nat} {tokens : List Token} {text : Text}

/-! ## Building tilings -/

theorem append {tokens' : List Token} {text' : Text} (h : Tiles start tokens text)
    (h' : Tiles (start + text.byteSize) tokens' text') :
    Tiles start (tokens ++ tokens') (text ++ text') := by
  induction h with
  | nil start => exact h'
  | gap hc _ ih =>
    refine .gap hc (ih ?_)
    rwa [Nat.add_assoc, ← Text.byteSize_cons]
  | token hText hKind _ ih =>
    rw [List.append_assoc]
    refine .token hText hKind (ih ?_)
    rwa [Nat.add_assoc, ← Text.byteSize_append]

theorem gaps {gap : Text} (hGap : ∀ c ∈ gap, isSeparator c = true)
    (h : Tiles (start + gap.byteSize) tokens text) : Tiles start tokens (gap ++ text) := by
  have hGaps : Tiles start [] gap := by
    clear h
    induction gap generalizing start with
    | nil => exact .nil start
    | cons c cs ih =>
      exact .gap (hGap c List.mem_cons_self) (ih fun d hd => hGap d (List.mem_cons_of_mem c hd))
  exact hGaps.append h

/-! ## Reading tilings -/

/-- The place of a token in the text, and what it covers there. -/
theorem exists_part (h : Tiles start tokens text) {t : Token} (ht : t ∈ tokens) :
    ∃ before part after, text = before ++ part ++ after ∧ part ≠ [] ∧
      t.span = ⟨start + before.byteSize, start + before.byteSize + part.byteSize⟩ ∧
      (t.kind.isRegion = true ∨ ∀ c ∈ part, isSeparator c = false) := by
  induction h with
  | nil => cases ht
  | @gap start tokens c rest _ _ ih =>
    obtain ⟨before, part, after, rfl, hPart, hSpan, hKind⟩ := ih ht
    refine ⟨c :: before, part, after, rfl, hPart, ?_, hKind⟩
    rw [hSpan, Text.byteSize_cons, Nat.add_assoc]
  | @token start kind part rest tokens hPart hKind _ ih =>
    rcases List.mem_cons.1 ht with rfl | ht
    · exact ⟨[], part, rest, rfl, hPart, rfl, hKind⟩
    · obtain ⟨before, part', after, rfl, hPart', hSpan, hKind'⟩ := ih ht
      refine ⟨part ++ before, part', after, by simp, hPart', ?_, hKind'⟩
      rw [hSpan, Text.byteSize_append, Nat.add_assoc]

theorem start_le (h : Tiles start tokens text) {t : Token} (ht : t ∈ tokens) :
    start ≤ t.span.start := by
  obtain ⟨before, part, after, -, -, hSpan, -⟩ := h.exists_part ht
  rw [hSpan]
  exact Nat.le_add_right _ _

/-- Tokens follow each other. -/
theorem pairwise (h : Tiles start tokens text) :
    tokens.Pairwise fun t u => t.span.stop ≤ u.span.start := by
  induction h with
  | nil => exact .nil
  | gap _ _ ih => exact ih
  | token _ _ hRest ih => exact List.pairwise_cons.2 ⟨fun u hu => hRest.start_le hu, ih⟩

/-- Every character that is no separator lies in a token. -/
theorem exists_token (h : Tiles start tokens text) {before after : Text} {c : Char}
    (hText : text = before ++ c :: after) (hc : isSeparator c = false) :
    ∃ t ∈ tokens, t.span.start ≤ start + before.byteSize ∧
      start + before.byteSize + c.utf8Size ≤ t.span.stop := by
  induction h generalizing before with
  | nil => simp at hText
  | @gap start tokens d rest hd _ ih =>
    cases before with
    | nil =>
      obtain ⟨rfl, -⟩ := List.cons.inj hText
      rw [hd] at hc
      cases hc
    | cons e before =>
      obtain ⟨rfl, hRest⟩ := List.cons.inj hText
      obtain ⟨t, ht, hStart, hStop⟩ := ih hRest
      rw [Text.byteSize_cons]
      exact ⟨t, ht, by omega, by omega⟩
  | @token start kind part rest tokens hPart _ _ ih =>
    rcases List.append_eq_append_iff.1 hText with ⟨more, rfl, hRest⟩ | ⟨more, rfl, hRest⟩
    · obtain ⟨t, ht, hStart, hStop⟩ := ih hRest
      rw [Text.byteSize_append]
      exact ⟨t, List.mem_cons_of_mem _ ht, by omega, by omega⟩
    · cases more with
      | nil =>
        obtain ⟨t, ht, hStart, hStop⟩ := ih (show rest = [] ++ c :: after from hRest.symm)
        simp only [List.append_nil, Text.byteSize_nil, Nat.add_zero] at hStart hStop ⊢
        exact ⟨t, List.mem_cons_of_mem _ ht, hStart, hStop⟩
      | cons d more =>
        obtain ⟨rfl, -⟩ := List.cons.inj hRest
        refine ⟨_, List.mem_cons_self, Nat.le_add_right _ _, ?_⟩
        show start + before.byteSize + c.utf8Size ≤ start + Text.byteSize (before ++ c :: more)
        rw [Text.byteSize_append, Text.byteSize_cons]
        omega

end Tiles

/-! ## Pieces of a line -/

/-- What a piece may be made of. -/
def Piece.Fits : Piece → Prop
  | .blank text => ∀ c ∈ text, isSeparator c = true
  | .code _ text | .unknown text => text ≠ [] ∧ ∀ c ∈ text, isSeparator c = false
  | .closed _ text | .lineComment text | .unclosed _ text => text ≠ []

theorem Piece.fits_ofCode (code : Text) : ∀ p ∈ ofCode code, p.Fits := by
  fun_induction ofCode code with
  | case1 => simp
  | case2 c cs lexeme rest hShape ih =>
    refine List.forall_mem_cons.2 ⟨⟨by simp [lexeme, Lexeme.first], fun d hd => ?_⟩, ih⟩
    rw [Lexeme.isSeparator_eq_isSpace hd, Lexeme.isSpace, hShape]
    rfl
  | case3 c cs lexeme rest shape _ region _ n _ ih =>
    exact List.forall_mem_cons.2 ⟨by simp [Fits, lexeme, Lexeme.first], ih⟩
  | case4 c cs lexeme rest => simp [Fits, lexeme, Lexeme.first]
  | case5 c cs lexeme rest => simp [Fits, lexeme, Lexeme.first]
  | case6 c cs lexeme rest shape hShape _ _ hSpace ih =>
    refine List.forall_mem_cons.2 ⟨fun d hd => ?_, ih⟩
    rw [Lexeme.isSeparator_eq_isSpace hd, Lexeme.isSpace, hShape]
    exact hSpace
  | case7 c cs lexeme rest shape hShape _ _ hSpace ih =>
    refine List.forall_mem_cons.2 ⟨⟨by simp [lexeme, Lexeme.first], fun d hd => ?_⟩, ih⟩
    rw [Lexeme.isSeparator_eq_isSpace hd, Lexeme.isSpace, hShape]
    simpa using hSpace

/-- A complete piece is a gap, or it is the text of a token. -/
theorem Piece.kind?_cases {piece : Piece} (hFits : piece.Fits) (hComplete : piece.isComplete = true)
    (before after : List Piece) :
    (piece.kind? before after = none ∧ ∀ c ∈ piece.text, isSeparator c = true) ∨
      ∃ kind, piece.kind? before after = some kind ∧ piece.text ≠ [] ∧
        (kind.isRegion = true ∨ ∀ c ∈ piece.text, isSeparator c = false) := by
  cases piece with
  | blank text => exact Or.inl ⟨rfl, hFits⟩
  | code shape text => exact Or.inr ⟨_, rfl, hFits.1, Or.inr hFits.2⟩
  | unknown text => exact Or.inr ⟨_, rfl, hFits.1, Or.inr hFits.2⟩
  | closed region text => exact Or.inr ⟨_, rfl, hFits, Or.inl (by cases region <;> rfl)⟩
  | lineComment text => exact Or.inr ⟨_, rfl, hFits, Or.inl rfl⟩
  | unclosed region text => cases hComplete

/-- The tokens of complete pieces tile their text, whatever pieces without a token follow. -/
theorem Piece.locate_tiles {init tail : List Piece}
    (hInit : ∀ p ∈ init, p.Fits ∧ p.isComplete = true)
    (hTail : ∀ base before, (locate base before tail).filterMap Located.token? = [])
    (base : Nat) (before : List Piece) :
    Tiles base ((locate base before (init ++ tail)).filterMap Located.token?)
      (init.flatMap text) := by
  induction init generalizing base before with
  | nil =>
    rw [List.nil_append, hTail]
    exact .nil base
  | cons piece rest ih =>
    obtain ⟨⟨hFits, hComplete⟩, hRest⟩ := List.forall_mem_cons.1 hInit
    have hTiles := ih hRest (base + piece.text.byteSize) (piece :: before)
    rw [List.cons_append, locate, List.filterMap_cons, List.flatMap_cons]
    rcases kind?_cases hFits hComplete before (rest ++ tail) with
      ⟨hKind, hGap⟩ | ⟨kind, hKind, hText, hContent⟩
    · simp only [Located.token?, hKind, Option.map_none]
      exact hTiles.gaps hGap
    · simp only [Located.token?, hKind, Option.map_some]
      exact .token hText hContent hTiles

/-! ## Lines -/

/-- `carry.Waits start base waiting`: before byte `base`, the text `waiting` from byte `start` on is
in no token yet. It is the open region, or nothing. -/
def Carry.Waits (carry : Carry) (start base : Nat) (waiting : Text) : Prop :=
  start + waiting.byteSize = base ∧
    (carry.state = .normal ∧ waiting = [] ∨ ∃ region, carry = ⟨.inside region, some start⟩)

theorem LineScan.ofCode_tiles (code : Text) (base : Nat) (before : List Piece) :
    ∃ done waiting, code = done ++ waiting ∧
      Tiles base (ofCode code base before).tokens done ∧
      (ofCode code base before).carry.Waits (base + done.byteSize) (base + code.byteSize)
        waiting := by
  have hFits := Piece.fits_ofCode code
  have hText := Piece.flatMap_text_ofCode code
  rcases ofCode_cases code base before with
    ⟨hExit, -, hComplete⟩ | ⟨init, region, text, hCode, -, hInit, hExit, hOpen⟩
  · refine ⟨code, [], by simp, ?_, rfl, Or.inl ⟨hExit, rfl⟩⟩
    have hTiles := Piece.locate_tiles (fun p hp => ⟨hFits p hp, hComplete p hp⟩)
      (fun _ _ => rfl : ∀ base before,
        (Piece.locate base before []).filterMap Piece.Located.token? = []) base before
    rwa [List.append_nil, hText] at hTiles
  · rw [hCode, List.flatMap_append] at hText
    have hParts : code = init.flatMap Piece.text ++ text := by simpa [Piece.text] using hText.symm
    refine ⟨init.flatMap Piece.text, text, hParts, ?_, ?_, Or.inr ⟨region, ?_⟩⟩
    · have hInit' : ∀ p ∈ init, p.Fits ∧ p.isComplete = true := fun p hp =>
        ⟨hFits p (hCode ▸ List.mem_append_left _ hp), hInit p hp⟩
      have hTiles := Piece.locate_tiles hInit' (fun _ _ => rfl : ∀ base before,
        (Piece.locate base before [.unclosed region text]).filterMap Piece.Located.token? = [])
        base before
      rwa [← hCode] at hTiles
    · rw [hParts, Text.byteSize_append, Nat.add_assoc]
    · rw [carry, hExit, hOpen]

/-- **One line.** What waited before the line and the line itself are tiled up to the region that
waits after it. -/
theorem LineScan.ofLine_tiles (line : Text) {carry : Carry} {start base : Nat} {waiting : Text}
    (h : carry.Waits start base waiting) :
    let scan := ofLine line base carry.state carry.openFrom
    ∃ done waiting', waiting ++ line = done ++ waiting' ∧ Tiles start scan.tokens done ∧
      scan.carry.Waits (start + done.byteSize) (base + line.byteSize) waiting' := by
  obtain ⟨hBase, ⟨hState, rfl⟩ | ⟨region, rfl⟩⟩ := h
  · obtain rfl : start = base := by simpa using hBase
    rw [hState]
    exact ofCode_tiles line start []
  · simp only
    cases hLength : region.length? line with
    | none =>
      rw [ofLine_unclosed hLength]
      refine ⟨[], waiting ++ line, rfl, .nil start, ?_, Or.inr ⟨region, rfl⟩⟩
      rw [Text.byteSize_append]
      simp only [Text.byteSize_nil]
      omega
    | some n =>
      rw [ofLine_closed hLength]
      obtain ⟨hPos, hLe⟩ := Region.length?_bounds hLength
      -- the region is one token, from where it waited to its end on this line
      have hStop : start + Text.byteSize (waiting ++ line.take n) =
          base + Text.byteSize (line.take n) := by
        rw [Text.byteSize_append]
        omega
      obtain ⟨done, waiting', hCode, hTiles, hWaits⟩ :=
        ofCode_tiles (line.drop n) (base + Text.byteSize (line.take n))
          [.closed region (line.take n)]
      have hSize : Text.byteSize (line.take n) + Text.byteSize (line.drop n) = line.byteSize := by
        rw [← Text.byteSize_append, List.take_append_drop]
      refine ⟨waiting ++ line.take n ++ done, waiting', ?_, ?_, ?_⟩
      · rw [List.append_assoc, ← hCode, List.append_assoc, List.take_append_drop]
      · have hNe : waiting ++ line.take n ≠ [] := by
          intro hNil
          have := congrArg List.length hNil
          simp only [List.length_append, List.length_take, List.length_nil] at this
          omega
        have hKind : region.kind.isRegion = true := by cases region <;> rfl
        rw [← hStop] at hTiles
        have hToken := Tiles.token hNe (Or.inl hKind) hTiles
        rwa [hStop] at hToken
      · rw [Text.byteSize_append, ← Nat.add_assoc, hStop, ← hSize, ← Nat.add_assoc]
        exact hWaits

/-- What waits at the end of the text becomes its last token. -/
theorem Carry.openToken?_tiles {carry : Carry} {start stop : Nat} {waiting : Text}
    (h : carry.Waits start stop waiting) :
    Tiles start (carry.openToken? stop).toList waiting := by
  obtain ⟨rfl, ⟨hState, rfl⟩ | ⟨region, rfl⟩⟩ := h
  · have hNone : carry.openToken? start = none := by
      cases hOpen : carry.openFrom <;> simp [openToken?, hOpen, hState, State.kind?]
    simpa [hNone] using Tiles.nil start
  · by_cases hWaiting : waiting = []
    · subst hWaiting
      simpa [openToken?, State.kind?] using Tiles.nil start
    · have hKind : region.kind.isRegion = true := by cases region <;> rfl
      have hLt : start < start + waiting.byteSize :=
        Nat.lt_add_of_pos_right (Text.byteSize_pos hWaiting)
      have hTiles := Tiles.token hWaiting (Or.inl hKind) (.nil (start + waiting.byteSize))
      rwa [List.append_nil, ← Option.toList_some, ← openToken?_inside hLt] at hTiles

/-- **All lines.** From any line on, the tokens tile what waited and the lines with their line
feeds. -/
theorem tokensFrom_tiles {lines : List Text} (hne : lines ≠ []) {carry : Carry} {start base : Nat}
    {waiting : Text} (h : carry.Waits start base waiting) :
    Tiles start (tokensFrom base carry lines (base + Text.byteSize (Text.ofLines lines)))
      (waiting ++ Text.ofLines lines) := by
  induction lines generalizing carry start base waiting with
  | nil => exact absurd rfl hne
  | cons line rest ih =>
    obtain ⟨done, waiting', hText, hTiles, hWaits⟩ := LineScan.ofLine_tiles line h
    rw [tokensFrom_cons]
    by_cases hRest : rest = []
    · subst hRest
      simp only [Text.ofLines]
      rw [hText]
      exact hTiles.append (Carry.openToken?_tiles hWaits)
    · have hSize : base + Text.byteSize (line ++ '\n' :: Text.ofLines rest) =
          base + line.byteSize + 1 + Text.byteSize (Text.ofLines rest) := by
        have hFeed : Char.utf8Size '\n' = 1 := rfl
        rw [Text.byteSize_append, Text.byteSize_cons, hFeed]
        omega
      rw [Text.ofLines_cons hRest, hSize, ← List.append_assoc, hText, List.append_assoc]
      refine hTiles.append ?_
      obtain ⟨hStop, ⟨hState, rfl⟩ | ⟨region, hCarry⟩⟩ := hWaits
      · -- in code, the line feed is a separator
        have hNext : Carry.Waits _ (start + done.byteSize + 1) (base + line.byteSize + 1) [] :=
          ⟨congrArg (· + 1) hStop, Or.inl ⟨hState, rfl⟩⟩
        exact .gap rfl (ih hRest hNext)
      · -- in a region, the line feed waits with it
        have hNext : (LineScan.ofLine line base carry.state carry.openFrom).carry.Waits
            (start + done.byteSize) (base + line.byteSize + 1) (waiting' ++ ['\n']) := by
          refine ⟨?_, Or.inr ⟨region, hCarry⟩⟩
          rw [Text.byteSize_append, ← Nat.add_assoc, hStop]
          rfl
        have hBelow := ih hRest hNext
        rwa [List.append_assoc] at hBelow

/-- **Tiling.** The tokens of a text and the separators between them are the text. -/
theorem classify_tiles (text : Text) (entry : State) :
    Tiles 0 (classify text entry).tokens text := by
  have hWaits : Carry.Waits ⟨entry, some 0⟩ 0 0 [] := by
    cases entry with
    | normal => exact ⟨rfl, Or.inl ⟨rfl, rfl⟩⟩
    | inside region => exact ⟨rfl, Or.inr ⟨region, rfl⟩⟩
  have hTiles := tokensFrom_tiles (Text.lines_ne_nil text) hWaits
  rw [← tokensFrom_none (Text.lines_ne_nil text), Text.ofLines_lines, Nat.zero_add] at hTiles
  rw [classify_eq]
  exact hTiles

end RexxEditing
