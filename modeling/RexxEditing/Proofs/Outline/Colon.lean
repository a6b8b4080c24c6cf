import RexxEditing.Proofs.Highlight.Partition
import RexxEditing.Proofs.Highlight.Respacing
import RexxEditing.Proofs.Outline.Routines

/-! # The colon of a label

The colon behind the name of a routine is a token of its own. There is one exception: the name may
start with a number sign that opens a comment, and then the colon is in the comment.

* `Piece.exists_hasColon`: the piece with the colon behind the characters of a name.
* `Declares.exists_colon`: the colon of a routine in its text.
* `exists_comment_of_hasColon`, `exists_behind_of_hasColon`: its token, and the tokens behind it.
-/

namespace RexxEditing

open Lexeme (isSymbolStart isSymbolRest)

/-! ## Lexemes in a name -/

theorem Text.le_length_of_take {p : Char → Bool} {u v : Text} {k : Nat}
    (hk : k ≤ (u ++ v).length) (hTake : ∀ d ∈ (u ++ v).take k, p d = true)
    (hv : ∀ d, v.head? = some d → p d = false) : k ≤ u.length := by
  by_contra hLt
  obtain ⟨n, rfl⟩ : ∃ n, k = u.length + (n + 1) := ⟨k - u.length - 1, by omega⟩
  cases v with
  | nil =>
    rw [List.append_nil] at hk
    omega
  | cons d ds =>
    have hMem : d ∈ (u ++ d :: ds).take (u.length + (n + 1)) := by
      rw [List.take_length_add_append, List.take_succ_cons]
      exact List.mem_append_right u List.mem_cons_self
    have hd := hTake d hMem
    rw [hv d rfl] at hd
    cases hd

theorem Lexeme.not_newline_of {p : Char → Bool} (hp : p '\n' = false) {c : Char}
    (hc : p c = true) : (c != '\n') = true := by
  rw [bne_iff_ne]
  rintro rfl
  rw [hp] at hc
  cases hc

/-- A lexeme that starts in a run of the characters of a name ends in it. -/
theorem Lexeme.extent_run {c : Char} {run tail : Text} (hc : isSymbolRest c = true)
    (hTail : ∀ d, tail.head? = some d → isSymbolRest d = false) :
    (extent c (run ++ tail)).2 ≤ run.length ∧
      (extent c (run ++ tail)).1 ∈ [none, some .number, some .symbol, some .hash] := by
  have hDigit {d : Char} (hd : d.isDigit = true) : isSymbolRest d = true := by
    simp [isSymbolRest, Char.isAlphanum, hd]
  have hLe (h : ∀ d ∈ (run ++ tail).take (extent c (run ++ tail)).2, isSymbolRest d = true) :
      (extent c (run ++ tail)).2 ≤ run.length :=
    Text.le_length_of_take (extent_le c _) h hTail
  rcases extent_cases c (run ++ tail) with ⟨-, hExtent⟩ | ⟨-, hExtent⟩ | ⟨hBlank, -⟩ |
    ⟨d, ds, -, hCons, -, hExtent⟩ | ⟨hMark, hExtent⟩
  · refine ⟨hLe fun d hd => ?_, by simp [hExtent]⟩
    rw [hExtent] at hd
    rcases of_mem_take_numberLength hd with hd | rfl
    · exact hDigit hd
    · rfl
  · refine ⟨hLe fun d hd => ?_, by simp [hExtent]⟩
    rw [hExtent] at hd
    exact of_mem_take_runLength hd
  · have hNot : isSymbolRest c = false := not_of_isBlank (by decide) hBlank
    rw [hc] at hNot
    cases hNot
  · refine ⟨hLe fun e he => ?_, by simp [hExtent]⟩
    rw [hExtent] at he
    exact hDigit (of_mem_take_runLength he)
  · -- a number sign or a point
    rw [← Outline.isNameRest_eq, Outline.isNameRest, Outline.isNameStart_eq, hMark.symbol,
      hMark.digit, Bool.false_or, Bool.or_false, Bool.or_eq_true, beq_iff_eq, beq_iff_eq] at hc
    rw [hExtent]
    rcases hc with rfl | rfl <;> simp [mark]

/-! ## Pieces with a colon -/

namespace Piece

/-- A name is one piece. -/
theorem ofText_symbol {c : Char} (hc : isSymbolStart c = true) (cs : Text) :
    ofText (c :: cs) =
      code .symbol (c :: cs.takeWhile isSymbolRest) :: ofText (cs.dropWhile isSymbolRest) := by
  have hExtent := Lexeme.extent_of_isSymbolStart hc cs
  have hCode := ofText_code (show (Lexeme.first c cs).shape? = some .symbol by
    rw [Lexeme.first, hExtent]) rfl (by simp [Lexeme.Shape.isLineCommentOpener]) (by decide)
  rw [Lexeme.first, Lexeme.rest, hExtent, Lexeme.take_runLength, Lexeme.drop_runLength] at hCode
  exact hCode

/-- The piece has the colon that follows `front`. -/
def HasColon (front : Text) (piece : Piece) (pieces : List Piece) : Prop :=
  ∃ xs ys u v, pieces = xs ++ piece :: ys ∧ piece.text = u ++ ':' :: v ∧
    xs.flatMap text ++ u = front

theorem HasColon.append {front : Text} {piece : Piece} {pieces : List Piece}
    (h : HasColon front piece pieces) (zs : List Piece) :
    HasColon (zs.flatMap text ++ front) piece (zs ++ pieces) := by
  obtain ⟨xs, ys, u, v, rfl, hText, rfl⟩ := h
  refine ⟨zs ++ xs, ys, u, v, ?_, hText, ?_⟩
  · rw [List.append_assoc]
  · rw [List.flatMap_append, List.append_assoc]

theorem isSymbolRest_gap_colon {gap : Text} (hGap : ∀ c ∈ gap, Text.isBlank c = true)
    (rest : Text) : ∀ d, (gap ++ ':' :: rest).head? = some d → isSymbolRest d = false := by
  intro d hd
  cases gap with
  | nil =>
    obtain rfl := Option.some.inj hd
    rfl
  | cons b gap =>
    obtain rfl := Option.some.inj hd
    exact Lexeme.not_of_isBlank (by decide) (hGap b List.mem_cons_self)

theorem HasColon.blank_append {gap front t : Text} {piece : Piece}
    (h : HasColon front piece (ofText t)) (hGap : ∀ c ∈ gap, Text.isBlank c = true)
    (ht : ∀ c, t.head? = some c → Text.isBlank c = false) :
    HasColon (gap ++ front) piece (ofText (gap ++ t)) := by
  by_cases hNil : gap = []
  · rwa [hNil]
  · rw [ofText_blank_append hNil hGap ht]
    have hBehind := h.append [blank gap]
    rwa [List.flatMap_singleton] at hBehind

/-- Behind blanks a colon is a piece of its own. -/
theorem hasColon_gap {gap : Text} (hGap : ∀ c ∈ gap, Text.isBlank c = true) (rest : Text) :
    HasColon gap (code .colon [':']) (ofText (gap ++ ':' :: rest)) := by
  have hColon : ofText (':' :: rest) = code .colon [':'] :: ofText rest := by
    rw [ofText]
    rfl
  have hHere : HasColon [] (code .colon [':']) (ofText (':' :: rest)) :=
    ⟨[], ofText rest, [], [], hColon, rfl, rfl⟩
  have hBehind := hHere.blank_append hGap (by rintro c ⟨⟩; rfl)
  rwa [List.append_nil] at hBehind

/-- The first piece of a run of the characters of a name is a lexeme that ends in the run, or a
comment. -/
theorem ofText_run {c : Char} {run tail : Text} (hc : isSymbolRest c = true)
    (hTail : ∀ d, tail.head? = some d → isSymbolRest d = false) :
    ∃ k, (∃ piece, ofText (c :: (run ++ tail)) = piece :: ofText (run.drop k ++ tail) ∧
        piece.text = c :: run.take k) ∨
      ∃ pieces, ofText (c :: (run ++ tail)) =
        lineComment (c :: run.take k ++ (run.drop k ++ tail).takeWhile (· != '\n')) :: pieces := by
  obtain ⟨hLe, hShape⟩ := Lexeme.extent_run hc hTail
  have hText : (Lexeme.first c (run ++ tail)).text =
      c :: run.take (Lexeme.extent c (run ++ tail)).2 := by
    rw [Lexeme.first, List.take_append_of_le_length hLe]
  have hRest : Lexeme.rest c (run ++ tail) =
      run.drop (Lexeme.extent c (run ++ tail)).2 ++ tail := by
    rw [Lexeme.rest, List.drop_append_of_le_length hLe]
  refine ⟨(Lexeme.extent c (run ++ tail)).2, ?_⟩
  rw [← hText, ← hRest]
  have hOpener (shape : Lexeme.Shape) (h : shape.isLineCommentOpener = false) :
      ¬ (shape.isLineCommentOpener && Region.startsLineComment (Lexeme.rest c (run ++ tail))) =
        true := by
    rw [h]
    exact Bool.false_ne_true
  simp only [List.mem_cons, List.not_mem_nil, or_false] at hShape
  rcases hShape with hShape | hShape | hShape | hShape
  · exact Or.inl ⟨_, ofText_unknown hShape, rfl⟩
  · exact Or.inl ⟨_, ofText_code hShape rfl (hOpener _ rfl) (by decide), rfl⟩
  · exact Or.inl ⟨_, ofText_code hShape rfl (hOpener _ rfl) (by decide), rfl⟩
  · cases hComment : Region.startsLineComment (Lexeme.rest c (run ++ tail)) with
    | false => exact Or.inl ⟨_, ofText_code hShape rfl (by simp [hComment]) (by decide), rfl⟩
    | true => exact Or.inr ⟨_, ofText_lineComment hShape rfl (by rw [hComment]; rfl)⟩

/-- Behind the characters of a name a colon is a piece of its own, unless a number sign among them
opens a comment. -/
theorem exists_hasColon {run gap : Text} (hRun : ∀ c ∈ run, isSymbolRest c = true)
    (hGap : ∀ c ∈ gap, Text.isBlank c = true) (rest : Text) :
    ∃ piece, HasColon (run ++ gap) piece (ofText (run ++ (gap ++ ':' :: rest))) ∧
      (piece = code .colon [':'] ∨ piece.isComment = true) := by
  have hLine : (gap ++ ':' :: rest).takeWhile (· != '\n') =
      gap ++ ':' :: rest.takeWhile (· != '\n') := by
    rw [List.takeWhile_append_of_pos, List.takeWhile_cons_of_pos (by decide)]
    intro b hb
    exact Lexeme.not_newline_of (by decide) (hGap b hb)
  generalize hLength : run.length = n
  induction n using Nat.strongRecOn generalizing run with
  | ind n ih =>
    cases run with
    | nil => exact ⟨_, hasColon_gap hGap rest, Or.inl rfl⟩
    | cons c cs =>
      obtain ⟨hc, hcs⟩ := List.forall_mem_cons.1 hRun
      obtain ⟨k, ⟨first, hStep, hFirst⟩ | ⟨pieces, hStep⟩⟩ :=
        ofText_run hc (isSymbolRest_gap_colon hGap rest)
      · have hLess : (cs.drop k).length < n := by
          rw [← hLength, List.length_drop, List.length_cons]
          omega
        obtain ⟨piece, hColon, hPiece⟩ :=
          ih _ hLess (fun d hd => hcs d (List.mem_of_mem_drop hd)) rfl
        have hBehind := hColon.append [first]
        rw [List.flatMap_singleton, hFirst, ← List.append_assoc, List.cons_append,
          List.take_append_drop] at hBehind
        exact ⟨piece, hStep ▸ hBehind, hPiece⟩
      · refine ⟨_, ⟨[], pieces, c :: cs ++ gap, rest.takeWhile (· != '\n'), hStep, ?_, rfl⟩,
          Or.inr rfl⟩
        have hDrop : ∀ d ∈ cs.drop k, (d != '\n') = true := fun d hd =>
          Lexeme.not_newline_of (by decide) (hcs d (List.mem_of_mem_drop hd))
        rw [text, List.takeWhile_append_of_pos hDrop, hLine, ← List.append_assoc,
          List.cons_append, List.take_append_drop, ← List.append_assoc]

end Piece

/-! ## Lines above -/

theorem Text.feed_eq_ofLines {lines : List Text} (h : lines ≠ []) :
    feed lines = ofLines lines ++ ['\n'] := by
  rcases List.eq_nil_or_concat lines with hNil | ⟨above, line, rfl⟩
  · exact absurd hNil h
  · rw [List.concat_eq_append, ofLines_append above (List.cons_ne_nil line [])]
    simp [feed, ofLines]

/-- Lines that leave no region open are cut apart from the lines below. -/
theorem Piece.exists_ofText_feed {above : List Text} (hLines : ∀ line ∈ above, '\n' ∉ line)
    (hEntry : State.after .normal above = .normal) (more : Text) :
    ∃ xs, ofText (Text.feed above ++ more) = xs ++ ofText more ∧
      xs.flatMap text = Text.feed above := by
  by_cases hNil : above = []
  · subst hNil
    exact ⟨[], rfl, rfl⟩
  · have hState := after_lines .normal (Text.ofLines above)
    rw [Text.lines_ofLines hNil hLines, hEntry] at hState
    have hComplete : ∀ p ∈ ofText (Text.ofLines above), p.isComplete = true := by
      rcases ofTextIn_cases .normal (Text.ofLines above) with hAll | ⟨init, region, word, hParts, -⟩
      · exact hAll
      · rw [hParts, exitState, List.getLast?_concat] at hState
        cases hState
    refine ⟨ofText (Text.ofLines above) ++ [blank ['\n']], ?_, ?_⟩
    · have hFeed := feed_append_of_isComplete hComplete [] more
      rw [List.append_nil] at hFeed
      rw [Text.feed_eq_ofLines hNil, List.append_assoc, List.singleton_append,
        ofText_append_newline, hFeed, List.append_assoc]
      rfl
    · rw [List.flatMap_append, flatMap_text_ofText, Text.feed_eq_ofLines hNil]
      rfl

/-! ## The colon of a routine -/

namespace Outline

/-- The byte of the colon of a routine. -/
def Routine.colon (text : Text) (r : Routine) : Nat :=
  let behind := ((text.cut? r.range.span.stop).map Prod.snd).getD []
  r.range.span.stop + Text.byteSize (behind.takeWhile isGap)

/-- The colon of a label is a piece of its own, unless a number sign at the start of its name opens
a comment. -/
theorem Label.IsOf.exists_hasColon {label : Label} {line between : Text}
    (h : label.IsOf line between) (rest : Text) :
    ∃ piece, Piece.HasColon (label.name ++ between) piece
        (Piece.ofText (label.name ++ (between ++ ':' :: rest))) ∧
      (piece = .code .colon [':'] ∨ piece.isComment = true ∧ label.name.head? = some '#') := by
  obtain ⟨c, cs, hName, hc, hcs⟩ := h.name
  have hBetween : ∀ d ∈ between, Text.isBlank d = true := fun d hd =>
    isBlank_of_isGap d (h.between d hd)
  rw [isNameStart_eq, Bool.or_eq_true, beq_iff_eq] at hc
  rw [hName]
  rcases hc with hStart | rfl
  · have hRun := Lexeme.runLength_append_iff.2
      ⟨hcs, Piece.isSymbolRest_gap_colon hBetween rest⟩
    have hSymbol := Piece.ofText_symbol hStart (cs ++ (between ++ ':' :: rest))
    rw [← Lexeme.take_runLength, ← Lexeme.drop_runLength, hRun, List.take_left,
      List.drop_left] at hSymbol
    have hColon := (Piece.hasColon_gap hBetween rest).append [.code .symbol (c :: cs)]
    rw [List.flatMap_singleton] at hColon
    exact ⟨_, hSymbol ▸ hColon, Or.inl rfl⟩
  · have hRun : ∀ d ∈ '#' :: cs, isSymbolRest d = true := List.forall_mem_cons.2 ⟨rfl, hcs⟩
    obtain ⟨piece, hColon, hPiece⟩ := Piece.exists_hasColon hRun hBetween rest
    exact ⟨piece, hColon, hPiece.imp_right fun hComment => ⟨hComment, rfl⟩⟩

theorem Label.IsOf.not_isBlank_head {label : Label} {line between : Text}
    (h : label.IsOf line between) (t : Text) :
    ∀ c, (label.name ++ t).head? = some c → Text.isBlank c = false := by
  obtain ⟨c, cs, hName, hStart, -⟩ := h.name
  rw [hName]
  rintro d ⟨⟩
  rw [Bool.eq_false_iff]
  intro hBlank
  have hNot : isNameStart c = false := Lexeme.not_of_isBlank (by decide) hBlank
  rw [hStart] at hNot
  cases hNot

namespace Declares

variable {text line between : Text} {r : Routine} {above below : List Text} {label : Label}

theorem colon_eq (h : Declares text r above line below label) (hParts : label.IsOf line between) :
    r.colon text = (Text.feed above ++ label.gap ++ label.name ++ between).byteSize := by
  have hStop : r.range.span.stop = (Text.feed above ++ label.gap ++ label.name).byteSize := by
    rw [h.range_eq, Text.byteSize_append, Text.byteSize_append, Text.byteSize_feed]
    rfl
  have hGap : (between ++ ':' :: (label.rest ++ Text.feedBefore below)).takeWhile isGap =
      between := by
    rw [List.takeWhile_append_of_pos hParts.between, List.takeWhile_cons_of_neg (by decide),
      List.append_nil]
  rw [Routine.colon, hStop, h.text_eq hParts, Text.cut?_append, Option.map_some, Option.getD_some,
    hGap, ← Text.byteSize_append]

/-- **The colon of a routine** and the piece that it is in. -/
theorem exists_colon (h : Declares text r above line below label) :
    ∃ front piece, text = front ++ ':' :: (label.rest ++ Text.feedBefore below) ∧
      r.colon text = front.byteSize ∧ Piece.HasColon front piece (Piece.ofText text) ∧
      (piece = .code .colon [':'] ∨ piece.isComment = true ∧ r.name.head? = some '#') := by
  obtain ⟨between, hParts⟩ := Label.exists_isOf h.label_eq
  have hText := h.text_eq hParts
  have hAbove : ∀ line ∈ above, '\n' ∉ line := fun l hl =>
    Text.newline_notMem_of_mem_lines (h.lines_eq ▸ List.mem_append_left _ hl)
  obtain ⟨piece, hColon, hPiece⟩ := hParts.exists_hasColon (label.rest ++ Text.feedBefore below)
  obtain ⟨xs, hXs, hFeed⟩ := Piece.exists_ofText_feed hAbove h.entry (label.gap ++ (label.name ++
    (between ++ ':' :: (label.rest ++ Text.feedBefore below))))
  refine ⟨_, piece, hText.trans (List.append_assoc _ _ _).symm, h.colon_eq hParts, ?_, ?_⟩
  · have hBlank : ∀ c ∈ label.gap, Text.isBlank c = true := fun c hc =>
      isBlank_of_isGap c (hParts.gap c hc)
    have hBehind := (hColon.blank_append hBlank (hParts.not_isBlank_head _)).append xs
    rw [← hXs, hFeed] at hBehind
    simpa only [hText, List.append_assoc] using hBehind
  · rw [h.name_eq]
    exact hPiece

end Declares

/-! ## Its token -/

theorem filter_start_lt {text : Text} {entry : State} {ts back : List Token} {t : Token}
    (h : (classify text entry).tokens = ts ++ t :: back) :
    (classify text entry).tokens.filter (t.span.start < ·.span.start) = back := by
  have hOrder := (classify_tiles text entry).ordered
  rw [h, List.pairwise_append, List.pairwise_cons] at hOrder
  obtain ⟨-, ⟨hBack, -⟩, hFront⟩ := hOrder
  have hNone : ts.filter (t.span.start < ·.span.start) = [] := by
    rw [List.filter_eq_nil_iff]
    intro u hu
    have hLess := (hFront u hu t List.mem_cons_self).1
    simp only [decide_eq_true_eq]
    omega
  have hAll : back.filter (t.span.start < ·.span.start) = back := by
    rw [List.filter_eq_self]
    exact fun u hu => decide_eq_true (hBack u hu).1
  rw [h, List.filter_append, List.filter_cons_of_neg (by simp), hNone, hAll, List.nil_append]

theorem tokens_eq_of_ofText {text : Text} {xs ys : List Piece} {piece : Piece} {kind : Kind}
    (hPieces : Piece.ofText text = xs ++ piece :: ys)
    (hKind : piece.category? xs.reverse ys = some kind) :
    let start := Text.byteSize (xs.flatMap Piece.text)
    let stop := start + piece.text.byteSize
    (classify text .normal).tokens = Piece.tokensOf 0 [] xs (piece :: ys) ++
      ⟨kind, start, stop⟩ :: Piece.tokensOf stop (piece :: xs.reverse) ys [] := by
  rw [classify_eq_tokensOf]
  simp only [Piece.ofTextIn, hPieces, Piece.tokensOf_append, Piece.tokensOf, List.append_nil,
    Nat.zero_add, hKind, Option.map_some, Option.toList_some, List.singleton_append]

theorem exists_comment_of_hasColon {text front : Text} {piece : Piece}
    (h : Piece.HasColon front piece (Piece.ofText text)) (hPiece : piece.isComment = true) :
    ∃ t ∈ (classify text .normal).tokens, t.Covers front.byteSize ∧ t.kind = .comment := by
  obtain ⟨xs, ys, u, v, hPieces, hText, rfl⟩ := h
  have hKind : piece.category? xs.reverse ys = some .comment := by
    cases piece with
    | lineComment => rfl
    | closed region =>
      cases region with
      | comment => rfl
      | string => cases hPiece
    | _ => cases hPiece
  have hTokens := tokens_eq_of_ofText hPieces hKind
  refine ⟨_, by rw [hTokens]; exact List.mem_append_right _ List.mem_cons_self, ?_, rfl⟩
  rw [hText, Text.byteSize_append, Text.byteSize_append, Text.byteSize_cons]
  have hColon : Char.utf8Size ':' = 1 := rfl
  constructor
  · exact Nat.le_add_right _ _
  · show _ < _ + _
    omega

/-- A colon that is a piece of its own has a token, and the tokens behind it are those of the text
behind it. -/
theorem exists_behind_of_hasColon {text front rest : Text}
    (h : Piece.HasColon front (.code .colon [':']) (Piece.ofText text))
    (hText : text = front ++ ':' :: rest) :
    (∃ t ∈ (classify text .normal).tokens, t.span = ⟨front.byteSize, front.byteSize + 1⟩) ∧
      ∃ xs, (classify text .normal).tokens.filter (front.byteSize < ·.span.start) =
        Piece.tokensOf (front.byteSize + 1) (.code .colon [':'] :: xs) (Piece.ofText rest) [] := by
  obtain ⟨xs, ys, u, v, hPieces, hColon, hFront⟩ := h
  obtain rfl : u = [] := by
    have hLength := congrArg List.length hColon
    simp only [Piece.text, List.length_append, List.length_cons, List.length_nil] at hLength
    exact List.length_eq_zero_iff.1 (by omega)
  rw [List.append_nil] at hFront
  have hRest : Piece.ofText rest = ys := by
    have hSuffix := Piece.ofText_suffix (hPieces.trans (List.append_cons xs _ ys))
    have hWhole := Piece.flatMap_text_ofText text
    rw [hPieces, List.flatMap_append, hFront, List.flatMap_cons, hText] at hWhole
    have hYs : ys.flatMap Piece.text = rest :=
      (List.cons.inj (List.append_cancel_left hWhole)).2
    rwa [hYs] at hSuffix
  have hTokens := tokens_eq_of_ofText hPieces rfl
  rw [hFront] at hTokens
  refine ⟨⟨_, by rw [hTokens]; exact List.mem_append_right _ List.mem_cons_self, rfl⟩,
    xs.reverse, ?_⟩
  rw [hRest]
  exact filter_start_lt hTokens

end Outline

end RexxEditing
