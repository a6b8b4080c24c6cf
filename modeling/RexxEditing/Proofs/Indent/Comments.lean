import RexxEditing.Proofs.Indent.Nearest
import RexxEditing.Proofs.Text.Word

/-! # Comments and indentation

The code of a line is one stretch of it, so the comments in front of its last piece of code are read
like code. Here that stretch is compared with the line without its comments. They open the same
block unless a comment in front of code holds a word that opens one, a comment stands in front of a
leading `else`, or a comment cuts off a string that does not end on the line.

* `holdsOpener_flatMap_text`: the words of a comment come on top of the words around it.
* `leadingWord_flatMap_text`: a comment in front hides the leading word.
* `column_uncommented`: the column of a plain line, by the line above without its comments.
* `column_steered_by_comment`: a comment that opens a block.
-/

namespace RexxEditing

namespace Piece

/-! ## Comments with a piece behind them -/

/-- Whether the piece stands between two slashes. -/
def IsEnclosed (piece : Piece) : Prop := ∃ body, piece.text = '/' :: (body ++ ['/'])

/-- Whether the piece may have another piece behind it. -/
def mayGoOn : Piece → Bool
  | lineComment _ | unclosed _ _ => false
  | _ => true

theorem pairwise_mayGoOn_ofCode (code : Text) :
    (ofCode code).Pairwise fun piece _ => piece.mayGoOn = true := by
  fun_induction ofCode code with
  | case1 => exact .nil
  | case2 c cs _ _ _ ih => exact .cons (fun _ _ => rfl) ih
  | case3 c cs _ _ _ _ _ _ _ _ ih => exact .cons (fun _ _ => rfl) ih
  | case4 => exact List.pairwise_singleton ..
  | case5 => exact List.pairwise_singleton ..
  | case6 c cs _ _ _ _ _ _ _ ih => exact .cons (fun _ _ => rfl) ih
  | case7 c cs _ _ _ _ _ _ _ ih => exact .cons (fun _ _ => rfl) ih

theorem isEnclosed_of_isRemark {piece : Piece} (hDelimited : piece.Delimited)
    (hGoesOn : piece.mayGoOn = true) (hRemark : piece.isRemark = true) : piece.IsEnclosed := by
  cases piece with
  | closed region text =>
    cases region with
    | comment =>
      obtain ⟨body, rfl, hLast⟩ := hDelimited
      obtain ⟨init, rfl⟩ := List.getLast?_eq_some_iff.1 (hLast rfl)
      exact ⟨'*' :: init, rfl⟩
    | string quote => cases hRemark
  | lineComment text => cases hGoesOn
  | unclosed region text => cases hGoesOn
  | blank text => cases hRemark
  | code shape text => cases hRemark
  | unknown text => cases hRemark

theorem isRemark_of_isCode {piece : Piece} (h : piece.isCode = true) : piece.isRemark = false := by
  unfold isCode at h
  split at h
  · rfl
  · rfl
  · rfl
  · cases h

/-- **Comments in front of code** end on the line. -/
theorem isEnclosed_of_mem_codePart? {pieces part : List Piece}
    (hDelimited : ∀ p ∈ pieces, p.Delimited)
    (hPairwise : pieces.Pairwise fun piece _ => piece.mayGoOn = true)
    (h : codePart? pieces = some part) : ∀ p ∈ part, p.isRemark = true → p.IsEnclosed := by
  induction pieces generalizing part with
  | nil => cases h
  | cons piece rest ih =>
    obtain ⟨hPiece, hRest⟩ := List.forall_mem_cons.1 hDelimited
    obtain ⟨hGoesOn, hPairwise⟩ := List.pairwise_cons.1 hPairwise
    rw [codePart?] at h
    cases hPart : codePart? rest with
    | some part' =>
      rw [hPart] at h
      cases h
      refine List.forall_mem_cons.2 ⟨?_, ih hRest hPairwise hPart⟩
      -- there is code behind the piece
      cases rest with
      | nil => cases hPart
      | cons next rest => exact isEnclosed_of_isRemark hPiece (hGoesOn next List.mem_cons_self)
    | none =>
      rw [hPart] at h
      cases hCode : piece.isCode with
      | false => simp [hCode] at h
      | true =>
        simp only [hCode, if_true, Option.some.injEq] at h
        subst h
        have hNot : ∀ p ∈ piece :: rest.takeWhile (!·.isRemark), p.isRemark = false := by
          refine List.forall_mem_cons.2 ⟨isRemark_of_isCode hCode, ?_⟩
          intro p hp
          simpa using List.all_eq_true.1 List.all_takeWhile p hp
        intro p hp hRemark
        rw [hNot p hp] at hRemark
        cases hRemark

/-! ## Lines without their comments -/

/-- The text of a piece. A comment is a space. -/
def uncommentedText (piece : Piece) : Text := if piece.isRemark then [' '] else piece.text

/-- The text of pieces with a space in place of each comment. -/
def uncommented (pieces : List Piece) : Text := pieces.flatMap uncommentedText

/-- Whether only white space stands in front of the first comment. -/
def leadsWithRemark : List Piece → Bool
  | [] => false
  | piece :: rest => piece.isRemark || piece.text.isAllWhite && leadsWithRemark rest

theorem uncommented_nil : uncommented [] = [] := rfl

theorem uncommented_cons_remark {piece : Piece} (h : piece.isRemark = true) (rest : List Piece) :
    uncommented (piece :: rest) = ' ' :: uncommented rest := by
  rw [uncommented, List.flatMap_cons, uncommentedText, if_pos h]
  rfl

theorem uncommented_cons_text {piece : Piece} (h : piece.isRemark = false) (rest : List Piece) :
    uncommented (piece :: rest) = piece.text ++ uncommented rest := by
  rw [uncommented, List.flatMap_cons, uncommentedText, h]
  rfl

theorem uncommented_append (front behind : List Piece) :
    uncommented (front ++ behind) = uncommented front ++ uncommented behind :=
  List.flatMap_append

end Piece

namespace Indent

open Piece (codePart? uncommented leadsWithRemark uncommented_cons_remark uncommented_cons_text)
open Text (isWordChar)

/-! ## Words of comments -/

/-- Whether a word of the text opens a block wherever it stands. -/
def holdsOpener (text : Text) : Bool :=
  text.words.any fun word => blockOpeners.contains (Text.fold word)

/-- Whether a word of a comment does. -/
def remarksHoldOpener (pieces : List Piece) : Bool :=
  pieces.any fun p => p.isRemark && holdsOpener p.text

theorem opensBlock_eq (code : Text) :
    opensBlock code = (startsWith code "else" || holdsOpener code) := rfl

theorem holdsOpener_nil : holdsOpener [] = false := rfl

theorem holdsOpener_cons_break {c : Char} (hc : isWordChar c = false) (t : Text) :
    holdsOpener (c :: t) = holdsOpener t := by
  rw [holdsOpener, Text.words_cons_of_not hc, holdsOpener]

theorem holdsOpener_append_break {c : Char} (hc : isWordChar c = false) (s t : Text) :
    holdsOpener (s ++ c :: t) = (holdsOpener s || holdsOpener t) := by
  rw [holdsOpener, Text.words_append_break hc, List.any_append, holdsOpener, holdsOpener]

/-- A comment between other texts is a break, and its words are words of its own. -/
theorem holdsOpener_append_enclosed {piece : Piece} (h : piece.IsEnclosed) (s t : Text) :
    holdsOpener (s ++ (piece.text ++ t)) =
      (holdsOpener s || (holdsOpener piece.text || holdsOpener t)) := by
  obtain ⟨body, hText⟩ := h
  have hSlash : isWordChar '/' = false := by decide
  have hInside : holdsOpener piece.text = holdsOpener body := by
    rw [hText, holdsOpener_cons_break hSlash, holdsOpener_append_break hSlash, holdsOpener_nil,
      Bool.or_false]
  rw [hInside, hText, List.cons_append, List.append_assoc, holdsOpener_append_break hSlash,
    List.singleton_append, holdsOpener_append_break hSlash]

/-- **Words with comments between them.** -/
theorem holdsOpener_flatMap_text {pieces : List Piece}
    (h : ∀ p ∈ pieces, p.isRemark = true → p.IsEnclosed) (front : Text) :
    holdsOpener (front ++ pieces.flatMap Piece.text) =
      (holdsOpener (front ++ uncommented pieces) || remarksHoldOpener pieces) := by
  induction pieces generalizing front with
  | nil => simp [uncommented, remarksHoldOpener]
  | cons piece rest ih =>
    obtain ⟨hPiece, hRest⟩ := List.forall_mem_cons.1 h
    rw [List.flatMap_cons, remarksHoldOpener, List.any_cons, ← remarksHoldOpener]
    cases hRemark : piece.isRemark with
    | false =>
      have hBehind := ih hRest (front ++ piece.text)
      rw [List.append_assoc, List.append_assoc] at hBehind
      rw [uncommented_cons_text hRemark, hBehind]
      rfl
    | true =>
      have hSpace : isWordChar ' ' = false := by decide
      have hBehind := ih hRest []
      rw [List.nil_append, List.nil_append] at hBehind
      rw [uncommented_cons_remark hRemark, holdsOpener_append_enclosed (hPiece hRemark), hBehind,
        holdsOpener_append_break hSpace, Bool.true_and]
      ac_rfl

/-! ## The leading word -/

theorem leadingWord_white_append {front : Text} (h : front.isAllWhite = true) (t : Text) :
    leadingWord (front ++ t) = leadingWord t := by
  rw [leadingWord, leadingWord, Text.trimStart_white_append (List.all_eq_true.1 h)]

theorem leadingWord_append_congr {front s t : Text} (h : front.isAllWhite = false)
    (hst : s.takeWhile isLeadingWordChar = t.takeWhile isLeadingWordChar) :
    leadingWord (front ++ s) = leadingWord (front ++ t) := by
  have hNe : (front.dropWhile Text.isWhite).isEmpty = false := by
    rw [List.isEmpty_eq_false_iff]
    intro hNil
    rw [Text.trimStart_eq_nil_iff.1 hNil] at h
    cases h
  have hTrim (u : Text) : (front ++ u).trimStart = front.trimStart ++ u := by
    rw [Text.trimStart, List.dropWhile_append, hNe]
    rfl
  rw [leadingWord, leadingWord, hTrim, hTrim, List.takeWhile_append, List.takeWhile_append, hst]

theorem leadingWord_of_isEnclosed {piece : Piece} (h : piece.IsEnclosed) (t : Text) :
    leadingWord (piece.text ++ t) = [] := by
  obtain ⟨body, hText⟩ := h
  rw [hText, leadingWord, List.cons_append, Text.trimStart_cons_of_not (by decide)]
  rfl

section LeadingWord

variable {tail : List Piece} (hTail : ∀ p, tail.head? = some p → p.isRemark = true)

include hTail

/-- The leading word goes on to the first comment at most. -/
theorem takeWhile_flatMap_text {part : List Piece}
    (h : ∀ p ∈ part, p.isRemark = true → p.IsEnclosed) :
    (part.flatMap Piece.text).takeWhile isLeadingWordChar =
      (uncommented (part ++ tail)).takeWhile isLeadingWordChar := by
  induction part with
  | nil =>
    cases tail with
    | nil => rfl
    | cons comment behind =>
      rw [List.nil_append, uncommented_cons_remark (hTail comment rfl)]
      rfl
  | cons piece rest ih =>
    obtain ⟨hPiece, hRest⟩ := List.forall_mem_cons.1 h
    rw [List.flatMap_cons, List.cons_append]
    cases hRemark : piece.isRemark with
    | true =>
      obtain ⟨body, hText⟩ := hPiece hRemark
      rw [uncommented_cons_remark hRemark, hText]
      rfl
    | false =>
      rw [uncommented_cons_text hRemark, List.takeWhile_append, List.takeWhile_append, ih hRest]

/-- **A comment in front** hides the leading word. -/
theorem leadingWord_flatMap_text {part : List Piece}
    (h : ∀ p ∈ part, p.isRemark = true → p.IsEnclosed) :
    leadingWord (part.flatMap Piece.text) =
      if leadsWithRemark (part ++ tail) then [] else leadingWord (uncommented (part ++ tail)) := by
  induction part with
  | nil =>
    cases tail with
    | nil => rfl
    | cons comment behind => simp [leadsWithRemark, hTail comment rfl, leadingWord]
  | cons piece rest ih =>
    obtain ⟨hPiece, hRest⟩ := List.forall_mem_cons.1 h
    rw [List.flatMap_cons, List.cons_append, leadsWithRemark]
    cases hRemark : piece.isRemark with
    | true => exact leadingWord_of_isEnclosed (hPiece hRemark) _
    | false =>
      rw [uncommented_cons_text hRemark, Bool.false_or]
      cases hWhite : piece.text.isAllWhite with
      | true =>
        rw [leadingWord_white_append hWhite, leadingWord_white_append hWhite, ih hRest,
          Bool.true_and]
      | false => exact leadingWord_append_congr hWhite (takeWhile_flatMap_text hTail hRest)

theorem startsWith_else_flatMap_text {part : List Piece}
    (h : ∀ p ∈ part, p.isRemark = true → p.IsEnclosed) :
    startsWith (part.flatMap Piece.text) "else" =
      (startsWith (uncommented (part ++ tail)) "else" && !leadsWithRemark (part ++ tail)) := by
  rw [startsWith, leadingWord_flatMap_text hTail h]
  cases leadsWithRemark (part ++ tail) with
  | true =>
    rw [Bool.not_true, Bool.and_false]
    rfl
  | false =>
    rw [Bool.not_false, Bool.and_true]
    rfl

end LeadingWord

/-! ## Blocks -/

/-- The pieces of a line that are read for its code: those up to the last piece of code, and those
after it up to the next comment. -/
def readPart (pieces : List Piece) : List Piece := (codePart? pieces).getD []

/-- The pieces of a line that are not read. -/
def unreadPart (pieces : List Piece) : List Piece := pieces.drop (readPart pieces).length

/-- Whether a line opens a block, by its pieces. What is not read opens none, a leading `else`
counts only if no comment stands in front of it, and a comment that is read counts with its
words. -/
def piecesOpen (pieces : List Piece) : Bool :=
  startsWith (uncommented pieces) "else" && !leadsWithRemark pieces ||
    holdsOpener (uncommented (readPart pieces)) || remarksHoldOpener (readPart pieces)

/-- Whether the comments of a line have no say in whether it opens a block. -/
structure IsQuiet (pieces : List Piece) : Prop where
  /-- No comment stands in front of a leading `else`. -/
  start : startsWith (uncommented pieces) "else" = true → leadsWithRemark pieces = false
  /-- No comment in front of code holds a word that opens a block. -/
  inside : remarksHoldOpener (readPart pieces) = false
  /-- No comment cuts off such a word. -/
  behind : holdsOpener (uncommented (unreadPart pieces)) = false

instance (pieces : List Piece) : Decidable (IsQuiet pieces) :=
  decidable_of_iff (_ ∧ _ ∧ _)
    ⟨fun h => ⟨h.1, h.2.1, h.2.2⟩, fun h => ⟨h.start, h.inside, h.behind⟩⟩

section Blocks

variable {pieces part : List Piece} (hPart : codePart? pieces = some part)

include hPart

theorem exists_unreadPart :
    pieces = part ++ unreadPart pieces ∧
      ∀ p, (unreadPart pieces).head? = some p → p.isRemark = true := by
  obtain ⟨tail, hPieces, -, hTail⟩ := Piece.exists_of_codePart? hPart
  have hUnread : unreadPart pieces = tail := by
    rw [unreadPart, readPart, hPart, Option.getD_some, hPieces, List.drop_left]
  rw [hUnread]
  exact ⟨hPieces, hTail⟩

/-- **Blocks by pieces.** -/
theorem opensBlock_flatMap_text {code : Text} (hCode : pieces = Piece.ofCode code) :
    opensBlock (part.flatMap Piece.text) = piecesOpen pieces := by
  obtain ⟨hPieces, hTail⟩ := exists_unreadPart hPart
  have hEnclosed := Piece.isEnclosed_of_mem_codePart? (hCode ▸ Piece.delimited_ofCode code)
    (hCode ▸ Piece.pairwise_mayGoOn_ofCode code) hPart
  have hElse := startsWith_else_flatMap_text hTail hEnclosed
  have hWords := holdsOpener_flatMap_text hEnclosed []
  rw [← hPieces] at hElse
  rw [opensBlock_eq, hElse, ← List.nil_append (part.flatMap Piece.text), hWords, piecesOpen,
    readPart, hPart, Bool.or_assoc]
  rfl

theorem holdsOpener_uncommented :
    holdsOpener (uncommented pieces) =
      (holdsOpener (uncommented part) || holdsOpener (uncommented (unreadPart pieces))) := by
  obtain ⟨hPieces, hTail⟩ := exists_unreadPart hPart
  have hSpace : isWordChar ' ' = false := by decide
  conv_lhs => rw [hPieces, Piece.uncommented_append]
  cases hUnread : unreadPart pieces with
  | nil => rw [Piece.uncommented_nil, List.append_nil, holdsOpener_nil, Bool.or_false]
  | cons comment behind =>
    rw [hUnread] at hTail
    rw [uncommented_cons_remark (hTail comment rfl), holdsOpener_append_break hSpace,
      holdsOpener_cons_break hSpace]

/-- Quiet comments can be left out. -/
theorem piecesOpen_of_isQuiet (h : IsQuiet pieces) :
    piecesOpen pieces = opensBlock (uncommented pieces) := by
  have hRead : readPart pieces = part := by rw [readPart, hPart, Option.getD_some]
  have hElse : (startsWith (uncommented pieces) "else" && !leadsWithRemark pieces) =
      startsWith (uncommented pieces) "else" := by
    cases hStarts : startsWith (uncommented pieces) "else" with
    | false => rfl
    | true => rw [h.start hStarts, Bool.not_false, Bool.and_true]
  rw [piecesOpen, opensBlock_eq, hElse, h.inside, hRead, Bool.or_false,
    holdsOpener_uncommented hPart, h.behind, Bool.or_false]

end Blocks

/-! ## Columns -/

/-- A code line that is found is a line of the buffer. -/
theorem line?_of_findCodeLine? {b : Buffer} {i : Nat} {states : List State} {above : CodeLine}
    (h : findCodeLine? (b.linesBefore i) states = some above) :
    b.line? above.index = some above.text ∧
      CodeLine.ofLine? above.index above.text (states.getD above.index .normal) = some above := by
  obtain ⟨⟨k, line⟩, hMem, hFound⟩ := List.exists_of_findSome?_eq_some h
  obtain ⟨j, -, hLine⟩ := List.mem_filterMap.1 hMem
  obtain ⟨line', hBuffer, hPair⟩ := Option.map_eq_some_iff.1 hLine
  obtain ⟨rfl, rfl⟩ := Prod.mk.inj hPair
  have hIs := CodeLine.eq_of_ofLine? hFound
  rw [hIs.1, hIs.2]
  exact ⟨hBuffer, hFound⟩

/-- **Comments and the column below.** Let `above` be the code line above a plain line, and `own`
its pieces without what belongs to a region from an earlier line. The plain line is one level deeper
than `above` if the pieces say so, and else it has the same column. If the comments on `above` are
quiet, then all this is as if each of them were a space. -/
theorem column_uncommented {b : Buffer} {i : Nat} {above : CodeLine} (hKind : b.kind i = .plain)
    (hAbove : findCodeLine? (b.linesBefore i) (b.entryStates (min i b.count)) = some above)
    (offset : Nat) :
    let entry := (b.entryStates (min i b.count)).getD above.index .normal
    let own := Piece.own entry above.text
    let start := columnOf above.text
    b.line? above.index = some above.text ∧
      column b i offset = (if piecesOpen own then start + offset else start) ∧
      (IsQuiet own →
        column b i offset = if opensBlock (uncommented own) then start + offset else start) := by
  intro entry own start
  obtain ⟨hLine, hFound⟩ := line?_of_findCodeLine? hAbove
  rw [CodeLine.ofLine?_eq] at hFound
  obtain ⟨part, hPart, hIs⟩ := Option.map_eq_some_iff.1 hFound
  obtain ⟨code, hOwn⟩ := exists_ofCode_own entry above.text
  have hOpens : opensBlock above.code = piecesOpen own := by
    rw [← hIs]
    exact opensBlock_flatMap_text hPart hOwn
  have hColumn : column b i offset = if piecesOpen own then start + offset else start := by
    rw [column, columnWith, hAbove, ← hOpens, hKind]
    rfl
  refine ⟨hLine, hColumn, ?_⟩
  intro hQuiet
  rw [hColumn, piecesOpen_of_isQuiet hPart hQuiet]

/-- A comment between code and one behind it, the second with words that open blocks. -/
theorem column_uncommented_sum :
    let b := Buffer.ofLines ["  a = b /* sum */ + c -- then do".toList, "d".toList]
    column b 1 3 = 2 := by
  intro b
  have hAbove : findCodeLine? (b.linesBefore 1) (b.entryStates (min 1 b.count)) =
      some ⟨0, "  a = b /* sum */ + c -- then do".toList, "  a = b /* sum */ + c ".toList⟩ := by
    decide +kernel
  exact ((column_uncommented (by decide +kernel) hAbove 3).2.2 (by decide +kernel)).trans
    (by decide +kernel)

/-- A comment between code opens a block with its words. -/
theorem column_steered_by_comment :
    let line := "x = 1 /* do */ + 2".toList
    let b := Buffer.ofLines [line, "y".toList]
    let own := Piece.own .normal line
    b.kind 1 = .plain ∧
      (findCodeLine? (b.linesBefore 1) (b.entryStates 1)).map CodeLine.index = some 0 ∧
      column b 1 2 ≠
        if opensBlock (uncommented own) then columnOf line + 2 else columnOf line := by
  decide +kernel

end Indent

end RexxEditing
