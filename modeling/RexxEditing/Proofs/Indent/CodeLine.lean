import Mathlib.Data.List.TakeDrop
import RexxEditing.Proofs.Indent.Preservation

/-! # The code of a line

A code line is found by the tokens of the line, and its code is a span of bytes. Here both are read
off the pieces of the line: the line holds code if one of its own pieces is code, and its code is
the text up to the comments that no code follows. A string that does not end on its line has no
token, so it does not make the line a code line, and a comment in front of it may be taken for the
last thing on the line.

* `codeSpan?_eq`: the span of the code, by the sizes of the pieces.
* `CodeLine.ofLine?_eq`: the code line of a line, by its pieces. The span cuts no character.
* `CodeLine.ofLine?_blank_append`: blanks in front of a line go to its code.
-/

namespace RexxEditing

namespace Piece

/-! ## Pieces of code and comments -/

/-- Whether the piece is a comment, be it open at the end of the line or not. -/
def isRemark : Piece → Bool
  | closed .comment _ | lineComment _ | unclosed .comment _ => true
  | _ => false

/-- Whether the piece makes its line a code line. -/
def isCode : Piece → Bool
  | code _ _ | unknown _ | closed (.string _) _ => true
  | _ => false

/-- The pieces of a line that do not belong to a region from an earlier line. -/
def own (entry : State) (line : Text) : List Piece :=
  match entry with
  | .normal => ofCode line
  | .inside region =>
    match region.length? line with
    | some n => ofCode (line.drop n)
    | none => []

/-- The pieces up to the last piece of code, and those after it up to the next comment. -/
def codePart? : List Piece → Option (List Piece)
  | [] => none
  | piece :: rest =>
    match codePart? rest with
    | some part => some (piece :: part)
    | none => if piece.isCode then some (piece :: rest.takeWhile (!·.isRemark)) else none

theorem codePart?_cons_of_not {piece : Piece} (h : piece.isCode = false) (rest : List Piece) :
    codePart? (piece :: rest) = (codePart? rest).map (piece :: ·) := by
  rw [codePart?]
  cases codePart? rest <;> simp [h]

theorem codePart?_cons_of_isCode {piece : Piece} (h : piece.isCode = true) (rest : List Piece) :
    codePart? (piece :: rest) =
      some (piece :: (codePart? rest).getD (rest.takeWhile (!·.isRemark))) := by
  rw [codePart?]
  cases codePart? rest <;> simp [h]

theorem codePart?_eq_none_iff {pieces : List Piece} :
    codePart? pieces = none ↔ ∀ p ∈ pieces, p.isCode = false := by
  induction pieces with
  | nil => simp [codePart?]
  | cons piece rest ih =>
    rw [List.forall_mem_cons, ← ih]
    cases hPiece : piece.isCode with
    | true => simp [codePart?_cons_of_isCode hPiece]
    | false => simp [codePart?_cons_of_not hPiece]

/-- The code of a line and what follows it: nothing, or a comment and pieces that are not code. -/
theorem exists_of_codePart? {pieces part : List Piece} (h : codePart? pieces = some part) :
    ∃ tail, pieces = part ++ tail ∧ (∀ p ∈ tail, p.isCode = false) ∧
      (∀ p, tail.head? = some p → p.isRemark = true) := by
  induction pieces generalizing part with
  | nil => cases h
  | cons piece rest ih =>
    cases hRest : codePart? rest with
    | some part' =>
      obtain ⟨tail, rfl, hTail⟩ := ih hRest
      simp only [codePart?, hRest, Option.some.injEq] at h
      exact ⟨tail, by rw [← h, List.cons_append], hTail⟩
    | none =>
      cases hPiece : piece.isCode with
      | false =>
        rw [codePart?_cons_of_not hPiece, hRest] at h
        cases h
      | true =>
        rw [codePart?_cons_of_isCode hPiece, hRest, Option.getD_none, Option.some.injEq] at h
        refine ⟨rest.dropWhile (!·.isRemark), ?_, ?_, ?_⟩
        · rw [← h, List.cons_append, List.takeWhile_append_dropWhile]
        · intro p hp
          exact codePart?_eq_none_iff.1 hRest p ((List.dropWhile_sublist _).mem hp)
        · intro p hp
          have hHead := List.head?_dropWhile_not (!·.isRemark) rest
          rw [hp] at hHead
          simpa using hHead

end Piece

namespace Indent

/-! ## Tokens -/

/-- Where the code of a line stops, by the tokens of the line. What is no token stops at `stop`. -/
def codeStop? (stop : Nat) : List Token → Option Nat
  | [] => none
  | t :: rest =>
    match codeStop? stop rest with
    | some n => some n
    | none => if t.kind == .comment then none else some ((rest.head?.map (·.span.start)).getD stop)

theorem codeStop?_eq (stop : Nat) (tokens : List Token) :
    codeStop? stop tokens =
      if (tokens.reverse.dropWhile (·.kind == .comment)).isEmpty then none
      else some (((tokens.reverse.takeWhile (·.kind == .comment)).getLast?.map
        (·.span.start)).getD stop) := by
  induction tokens with
  | nil => rfl
  | cons t rest ih =>
    rw [codeStop?, ih, List.reverse_cons, List.dropWhile_append, List.takeWhile_append]
    cases hDrop : rest.reverse.dropWhile (·.kind == .comment) with
    | cons u more =>
      -- the last code is behind `t`
      have hLength :
          (rest.reverse.takeWhile (·.kind == .comment)).length ≠ rest.reverse.length := by
        intro hLength
        have hParts := congrArg List.length
          (List.takeWhile_append_dropWhile (p := (·.kind == Kind.comment)) (l := rest.reverse))
        rw [hDrop, List.length_append, List.length_cons] at hParts
        omega
      simp only [List.isEmpty_cons, Bool.false_eq_true, if_false, hLength, List.cons_append]
    | nil =>
      have hTake : rest.reverse.takeWhile (·.kind == .comment) = rest.reverse := by
        have hParts := List.takeWhile_append_dropWhile (p := (·.kind == Kind.comment))
          (l := rest.reverse)
        rwa [hDrop, List.append_nil] at hParts
      rw [hTake]
      cases hKind : t.kind == .comment with
      | true => simp [hKind]
      | false => simp [hKind]

/-- Where a line stops, a comment that stays open left out. -/
def codeEnd (scan : LineScan) (size : Nat) : Nat :=
  match scan.exit with
  | .inside .comment => scan.openFrom.getD size
  | _ => size

/-- The span of the code, by the place where it stops. -/
theorem codeSpan?_eq_codeStop? (line : Text) (entry : State) :
    codeSpan? line entry =
      let scan := LineScan.ofLine line 0 entry none
      (ownTokens? entry scan.tokens).bind fun own =>
        (codeStop? (codeEnd scan line.byteSize) own.2).map (⟨own.1, ·⟩) := by
  unfold codeSpan?
  simp only [Option.bind_eq_bind, List.span_eq_takeWhile_dropWhile, codeStop?_eq]
  congr 1
  funext own
  split
  · rfl
  · simp only [codeEnd]
    cases (own.2.reverse.takeWhile (·.kind == .comment)).getLast? <;> rfl

/-! ## Tokens of pieces -/

open Piece (isRemark isCode codePart?)

/-- The number of bytes of the pieces. -/
def piecesSize (pieces : List Piece) : Nat := Text.byteSize (pieces.flatMap Piece.text)

theorem piecesSize_cons (piece : Piece) (rest : List Piece) :
    piecesSize (piece :: rest) = piece.text.byteSize + piecesSize rest := by
  rw [piecesSize, List.flatMap_cons, Text.byteSize_append, piecesSize]

/-- Whether the piece is a comment that stays open. -/
def isOpenComment : Piece → Bool
  | .unclosed .comment _ => true
  | _ => false

/-- The tokens of pieces from byte `base` on. -/
def tokensOf (base : Nat) (before pieces : List Piece) : List Token :=
  (Piece.locate base before pieces).filterMap Piece.Located.token?

theorem tokensOf_cons (base : Nat) (before : List Piece) (piece : Piece) (rest : List Piece) :
    tokensOf base before (piece :: rest) =
      ((piece.kind? before rest).map (⟨·, base, base + piece.text.byteSize⟩)).toList ++
        tokensOf (base + piece.text.byteSize) (piece :: before) rest := by
  rw [tokensOf, Piece.locate, List.filterMap_cons]
  cases hKind : piece.kind? before rest with
  | none => simp [Piece.Located.token?, tokensOf]
  | some kind => simp [Piece.Located.token?, tokensOf]

theorem kind?_of_isCode {piece : Piece} (h : piece.isCode = true) (before after : List Piece) :
    ∃ kind, piece.kind? before after = some kind ∧ (kind == .comment) = false := by
  cases piece with
  | code shape text =>
    refine ⟨_, rfl, ?_⟩
    have hRegion := Piece.isRegion_codeKind shape text (Piece.neighbour before)
      (Piece.neighbour after)
    rw [beq_eq_false_iff_ne]
    intro hKind
    rw [hKind] at hRegion
    cases hRegion
  | unknown text => exact ⟨_, rfl, rfl⟩
  | closed region text =>
    cases region with
    | comment => cases h
    | string quote => exact ⟨_, rfl, rfl⟩
  | blank text => cases h
  | lineComment text => cases h
  | unclosed region text => cases h

theorem kind?_of_not_isCode {piece : Piece} (h : piece.isCode = false) (before after : List Piece) :
    piece.kind? before after = none ∨ piece.kind? before after = some .comment := by
  cases piece with
  | code shape text => cases h
  | unknown text => cases h
  | closed region text =>
    cases region with
    | comment => exact Or.inr rfl
    | string quote => cases h
  | blank text => exact Or.inl rfl
  | lineComment text => exact Or.inr rfl
  | unclosed region text => exact Or.inl rfl

theorem onlyLastOpen_cons_cases {piece : Piece} {rest : List Piece}
    (h : Piece.OnlyLastOpen (piece :: rest)) :
    piece.isComplete = true ∧ Piece.OnlyLastOpen rest ∨
      rest = [] ∧ ∃ region text, piece = .unclosed region text := by
  rcases h with hAll | ⟨init, region, text, hPieces, hText, hInit⟩
  · obtain ⟨hPiece, hRest⟩ := List.forall_mem_cons.1 hAll
    exact Or.inl ⟨hPiece, Or.inl hRest⟩
  · cases init with
    | nil =>
      obtain ⟨rfl, rfl⟩ := List.cons.inj hPieces
      exact Or.inr ⟨rfl, region, text, rfl⟩
    | cons first init =>
      obtain ⟨rfl, rfl⟩ := List.cons.inj hPieces
      obtain ⟨hPiece, hInit⟩ := List.forall_mem_cons.1 hInit
      exact Or.inl ⟨hPiece, Or.inr ⟨init, region, text, rfl, hText, hInit⟩⟩

/-- Behind the code, the first token starts where the first comment does. -/
theorem head?_tokensOf {pieces : List Piece} (hCode : ∀ p ∈ pieces, p.isCode = false)
    (hOpen : Piece.OnlyLastOpen pieces) (base : Nat) (before : List Piece) :
    ((tokensOf base before pieces).head?.map (·.span.start)).getD
        (base + piecesSize (pieces.filter (!isOpenComment ·))) =
      base + piecesSize (pieces.takeWhile (!·.isRemark)) := by
  induction pieces generalizing base before with
  | nil => rfl
  | cons piece rest ih =>
    obtain ⟨hPiece, hRest⟩ := List.forall_mem_cons.1 hCode
    rcases onlyLastOpen_cons_cases hOpen with ⟨hComplete, hRestOpen⟩ | ⟨rfl, region, text, rfl⟩
    · rw [tokensOf_cons]
      cases piece with
      | blank text =>
        have hBelow := ih hRest hRestOpen (base + text.byteSize) (.blank text :: before)
        simp only [Nat.add_assoc] at hBelow
        simpa [Piece.kind?, Piece.text, isOpenComment, isRemark, piecesSize_cons] using hBelow
      | closed region text =>
        cases region with
        | comment => rfl
        | string quote => cases hPiece
      | lineComment text => rfl
      | code shape text => cases hPiece
      | unknown text => cases hPiece
      | unclosed region text => cases hComplete
    · cases region <;> rfl

/-- **Where the code stops.** -/
theorem codeStop?_tokensOf {pieces : List Piece} (hOpen : Piece.OnlyLastOpen pieces) (base : Nat)
    (before : List Piece) :
    codeStop? (base + piecesSize (pieces.filter (!isOpenComment ·)))
        (tokensOf base before pieces) =
      (codePart? pieces).map (base + piecesSize ·) := by
  induction pieces generalizing base before with
  | nil => rfl
  | cons piece rest ih =>
    rcases onlyLastOpen_cons_cases hOpen with ⟨hComplete, hRestOpen⟩ | ⟨rfl, region, text, rfl⟩
    · -- the tokens behind the piece, seen from its start
      have hRest := ih hRestOpen (base + piece.text.byteSize) (piece :: before)
      have hKept : (piece :: rest).filter (!isOpenComment ·) =
          piece :: rest.filter (!isOpenComment ·) := by
        cases piece <;> first | rfl | cases hComplete
      rw [hKept, piecesSize_cons, ← Nat.add_assoc, tokensOf_cons]
      have hParts : (codePart? rest).map (base + piece.text.byteSize + piecesSize ·) =
          ((codePart? rest).map (piece :: ·)).map (base + piecesSize ·) := by
        simp [Function.comp_def, piecesSize_cons, Nat.add_assoc]
      cases hCode : piece.isCode with
      | true =>
        obtain ⟨kind, hKind, hComment⟩ := kind?_of_isCode hCode before rest
        rw [Piece.codePart?_cons_of_isCode hCode, hKind]
        simp only [Option.map_some, Option.toList_some, List.singleton_append, codeStop?, hRest,
          hComment]
        cases hPart : codePart? rest with
        | some part => simp [piecesSize_cons, Nat.add_assoc]
        | none =>
          have hHead := head?_tokensOf (Piece.codePart?_eq_none_iff.1 hPart) hRestOpen
            (base + piece.text.byteSize) (piece :: before)
          simp only [hHead, Option.map_none, Option.getD_none, piecesSize_cons,
            Bool.false_eq_true, if_false]
          rw [Nat.add_assoc]
      | false =>
        rw [Piece.codePart?_cons_of_not hCode, ← hParts, ← hRest]
        rcases kind?_of_not_isCode hCode before rest with hKind | hKind
        · rw [hKind]
          rfl
        · rw [hKind, Option.map_some, Option.toList_some, List.singleton_append, codeStop?]
          cases codeStop? _ (tokensOf (base + piece.text.byteSize) (piece :: before) rest) <;> rfl
    · cases region <;> rfl

/-! ## Code of a line -/

/-- The bytes of a line in front of its own pieces. -/
def ownStart (entry : State) (line : Text) : Nat :=
  match entry with
  | .normal => 0
  | .inside region => ((region.length? line).map fun n => Text.byteSize (line.take n)).getD 0

theorem codeEnd_ofCode (code : Text) (base : Nat) (before : List Piece) :
    codeEnd (LineScan.ofCode code base before) (base + code.byteSize) =
      base + piecesSize ((Piece.ofCode code).filter (!isOpenComment ·)) := by
  have hParts := Piece.flatMap_text_ofCode code
  have hKept (pieces : List Piece) (h : ∀ p ∈ pieces, p.isComplete = true) :
      pieces.filter (!isOpenComment ·) = pieces := by
    rw [List.filter_eq_self]
    intro p hp
    have hComplete := h p hp
    cases p <;> first | rfl | cases hComplete
  rcases LineScan.ofCode_cases code base before with
    ⟨hExit, -, hComplete⟩ | ⟨init, region, text, hCode, -, hInit, hExit, hOpen⟩
  · rw [codeEnd, hExit, hKept _ hComplete, piecesSize, hParts]
  · rw [hCode, List.filter_append, hKept _ hInit, codeEnd, hExit, hOpen]
    cases region with
    | comment => simp [isOpenComment, piecesSize]
    | string quote =>
      rw [hCode] at hParts
      simp only [isOpenComment]
      rw [piecesSize, List.filter_cons_of_pos rfl, List.filter_nil, hParts]

theorem codeStop?_ofCode (code : Text) (base : Nat) (before : List Piece) :
    let scan := LineScan.ofCode code base before
    codeStop? (codeEnd scan (base + code.byteSize)) scan.tokens =
      (codePart? (Piece.ofCode code)).map (base + piecesSize ·) := by
  intro scan
  rw [codeEnd_ofCode]
  exact codeStop?_tokensOf (Piece.onlyLastOpen_ofCode code) base before

/-- **The span of the code.** -/
theorem codeSpan?_eq (line : Text) (entry : State) :
    codeSpan? line entry =
      (codePart? (Piece.own entry line)).map fun part =>
        ⟨ownStart entry line, ownStart entry line + piecesSize part⟩ := by
  rw [codeSpan?_eq_codeStop?]
  cases entry with
  | normal =>
    have hStop := codeStop?_ofCode line 0 []
    rw [Nat.zero_add] at hStop
    simp only [LineScan.ofLine_normal, ownTokens?, Option.bind_some, hStop, Option.map_map]
    rfl
  | inside region =>
    cases hLength : region.length? line with
    | none =>
      simp only [LineScan.ofLine_unclosed hLength, ownTokens?, Option.bind_none, Piece.own, hLength]
      rfl
    | some n =>
      have hStop := codeStop?_ofCode (line.drop n) (Text.byteSize (line.take n))
        [.closed region (line.take n)]
      rw [← Text.byteSize_append, List.take_append_drop] at hStop
      simp only [LineScan.ofLine_closed hLength, Nat.zero_add, ownTokens?, Option.bind_some,
        Piece.own, ownStart, hLength, Option.map_some, Option.getD_some]
      exact (congrArg (Option.map _) hStop).trans (Option.map_map ..)

/-- What stands in front of the own pieces of a line belongs to a region from above. -/
theorem exists_front_own {entry : State} {line : Text} (h : Piece.own entry line ≠ []) :
    ∃ front, line = front ++ (Piece.own entry line).flatMap Piece.text ∧
      front.byteSize = ownStart entry line := by
  cases entry with
  | normal => exact ⟨[], (Piece.flatMap_text_ofCode line).symm, rfl⟩
  | inside region =>
    cases hLength : region.length? line with
    | none => simp [Piece.own, hLength] at h
    | some n =>
      refine ⟨line.take n, ?_, by simp [ownStart, hLength]⟩
      simp only [Piece.own, hLength, Piece.flatMap_text_ofCode, List.take_append_drop]

/-- **The code line of a line**, by its pieces. -/
theorem CodeLine.ofLine?_eq (index : Nat) (line : Text) (entry : State) :
    CodeLine.ofLine? index line entry =
      (codePart? (Piece.own entry line)).map fun part =>
        ⟨index, line, part.flatMap Piece.text⟩ := by
  rw [CodeLine.ofLine?, codeSpan?_eq]
  cases hPart : codePart? (Piece.own entry line) with
  | none => rfl
  | some part =>
    obtain ⟨tail, hOwn, -, -⟩ := Piece.exists_of_codePart? hPart
    have hNe : Piece.own entry line ≠ [] := by
      intro hNil
      rw [hNil] at hPart
      cases hPart
    obtain ⟨front, hLine, hFront⟩ := exists_front_own hNe
    -- the code is a part of the line, so its span cuts no character
    have hSlice := Text.slice?_append front (part.flatMap Piece.text) (tail.flatMap Piece.text)
    rw [List.append_assoc, ← List.flatMap_append, ← hOwn, ← hLine, hFront] at hSlice
    simp only [Option.map_some, Option.bind_eq_bind, Option.bind_some, Span.text?]
    rw [piecesSize, hSlice]
    rfl

theorem ofCode_blank_append {front : Text} (hFront : ∀ c ∈ front, Text.isBlank c = true)
    {body : Text} (hBody : ∀ c, body.head? = some c → Text.isBlank c = false) (hNe : front ≠ []) :
    Piece.ofCode (front ++ body) = .blank front :: Piece.ofCode body := by
  obtain ⟨c, cs, rfl⟩ := List.exists_cons_of_ne_nil hNe
  obtain ⟨hc, hcs⟩ := List.forall_mem_cons.1 hFront
  have hStop : body.takeWhile Text.isBlank = [] ∧ body.dropWhile Text.isBlank = body := by
    cases body with
    | nil => exact ⟨rfl, rfl⟩
    | cons d ds => simp [hBody d rfl]
  rw [List.cons_append, Piece.ofCode_cons_blank hc, List.takeWhile_append_of_pos hcs,
    List.dropWhile_append_of_pos hcs, hStop.1, hStop.2, List.append_nil]

/-- Blanks in front of a line go to its code. -/
theorem CodeLine.ofLine?_blank_append {front : Text}
    (hFront : ∀ c ∈ front, Text.isBlank c = true) {body : Text}
    (hBody : ∀ c, body.head? = some c → Text.isBlank c = false) (index : Nat) :
    CodeLine.ofLine? index (front ++ body) .normal =
      (CodeLine.ofLine? index body .normal).map fun below =>
        ⟨index, front ++ body, front ++ below.code⟩ := by
  rw [CodeLine.ofLine?_eq, CodeLine.ofLine?_eq, Option.map_map]
  by_cases hNe : front = []
  · subst hNe
    rfl
  · rw [Piece.own, Piece.own, ofCode_blank_append hFront hBody hNe,
      Piece.codePart?_cons_of_not rfl, Option.map_map]
    rfl

end Indent

end RexxEditing
