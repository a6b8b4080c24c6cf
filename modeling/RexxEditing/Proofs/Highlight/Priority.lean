import RexxEditing.Highlight.Category
import RexxEditing.Proofs.Lexeme.Lookahead

/-! # The table of categories

The category of a token that is neither a comment nor a string can be told from three words: its own
and those next to it on its line. What counts of a word is whether it is a number, a symbol, a pipe
or a colon, and that can be read off its characters. So there is no need to know how the line was
cut.

* `priority`: the rules in their order.
* `Lexeme.spells_first`: what the text of a lexeme says about its shape.
* `Piece.kind?_eq_category?`: the category of a piece, by the texts of its neighbours.
-/

namespace RexxEditing

/-! ## Words -/

namespace Text

/-- Digits with at most one decimal point. -/
def isNumber (t : Text) : Bool :=
  t.any Char.isDigit && t.all (fun c => c.isDigit || c == '.') && t.count '.' ≤ 1

/-- A name: letters, digits and some marks, the first of them no digit. -/
def isSymbol : Text → Bool
  | [] => false
  | c :: cs => Lexeme.isSymbolStart c && cs.all Lexeme.isSymbolRest

def isPipe (t : Text) : Bool := t == ['|'] || t == ['|', '|']

def isColon (t : Text) : Bool := t == [':']

/-- The word `address`, in any case of its letters. -/
def isAddress (t : Text) : Bool := t.isSymbol && t.eqIgnoreCase "address".toList

end Text

/-- What a token has next to it on its line. -/
inductive Side where
  | nothing
  /-- A comment or a string. -/
  | region
  /-- Any other token, and whether there are blanks in between. -/
  | word (text : Text) (apart : Bool)
  deriving DecidableEq, Repr

namespace Side

/-- Whether there is a word of the given sort. -/
def holds (sort : Text → Bool) : Side → Bool
  | word text _ => sort text
  | _ => false

/-- Whether there is a word of the given sort with nothing in between. -/
def isGlued (sort : Text → Bool) : Side → Bool
  | word text apart => sort text && !apart
  | _ => false

/-- Whether there is a word of the given sort with blanks in between. -/
def isApart (sort : Text → Bool) : Side → Bool
  | word text apart => sort text && apart
  | _ => false

/-- The same with blanks in between. -/
def across : Side → Side
  | word text _ => word text true
  | side => side

end Side

/-- The category of a word between its neighbours: the first rule that matches. `first` is for the
first token of a line that is entered in code. -/
def priority (word : Text) (before after : Side) (first : Bool) : Kind :=
  if word.isPipe then .pipeOperator
  else if word.isNumber then
    if after.isGlued Text.isSymbol then .plainText else .number
  else if word.isSymbol && before.isGlued Text.isNumber then .plainText
  else if word.isSymbol && before.holds Text.isPipe && Vocabulary.stages.contains word then
    .pipeStageName
  else if word.isSymbol && before.holds Text.isPipe && after.holds Text.isColon then
    .pipeStageLabel
  else if word.isSymbol && Vocabulary.keywords.contains word then .keyword
  else if word.isSymbol && first && after.holds Text.isColon then .label
  else if word.isSymbol && Vocabulary.builtins.contains word then .builtin
  else if word.isSymbol && before.isApart Text.isAddress then .addressTarget
  else .plainText

/-! ## Words and shapes -/

/-- The text says whether the shape is one of those that the rules ask for. -/
structure Text.Spells (text : Text) (shape? : Option Lexeme.Shape) : Prop where
  number : text.isNumber = (shape? == some .number)
  symbol : text.isSymbol = (shape? == some .symbol)
  pipe : text.isPipe = shape?.any Lexeme.Shape.isPipe
  colon : text.isColon = (shape? == some .colon)

namespace Lexeme

open Text (isBlank isNumber isSymbol isPipe isColon)

theorem isSymbolStart_of_isDigit {c : Char} (h : c.isDigit = true) : isSymbolStart c = false := by
  rw [Bool.eq_false_iff]
  intro hStart
  have hNumber := extent_of_isDigit h []
  rw [extent_of_isSymbolStart hStart] at hNumber
  cases hNumber

section Digits

variable {u v : Text}

theorem isDigit_or_point (hu : ∀ d ∈ u, d.isDigit = true) :
    u.all (fun d => d.isDigit || d == '.') = true := by
  rw [List.all_eq_true]
  intro d hd
  rw [hu d hd, Bool.true_or]

theorem count_point (hu : ∀ d ∈ u, d.isDigit = true) : u.count '.' = 0 := by
  rw [List.count_eq_zero]
  intro hMem
  have hPoint := hu '.' hMem
  cases hPoint

theorem any_isDigit (hu : ∀ d ∈ u, d.isDigit = true) (h : u ≠ []) :
    u.any Char.isDigit = true := by
  obtain ⟨d, ds, rfl⟩ := List.exists_cons_of_ne_nil h
  exact List.any_eq_true.2 ⟨d, List.mem_cons_self, hu d List.mem_cons_self⟩

theorem isNumber_of_digits (hu : ∀ d ∈ u, d.isDigit = true) (h : u ≠ []) : isNumber u = true := by
  simp [isNumber, any_isDigit hu h, isDigit_or_point hu, count_point hu]

theorem isNumber_of_point (hu : ∀ d ∈ u, d.isDigit = true) (hv : ∀ d ∈ v, d.isDigit = true)
    (h : u ++ v ≠ []) : isNumber (u ++ '.' :: v) = true := by
  have hAny : (u ++ '.' :: v).any Char.isDigit = true := by
    have hDigits := any_isDigit (List.forall_mem_append.2 ⟨hu, hv⟩) h
    rw [List.any_append] at hDigits
    rw [List.any_append, List.any_cons]
    exact hDigits
  simp [isNumber, hAny, isDigit_or_point hu, isDigit_or_point hv, count_point hu, count_point hv]

end Digits

section FirstCharacter

variable {c : Char} {w : Text}

theorem isNumber_cons_eq_false (hDigit : c.isDigit = false) (hPoint : c ≠ '.') :
    isNumber (c :: w) = false := by
  simp [isNumber, hDigit, hPoint]

theorem isSymbol_cons_eq_false (h : isSymbolStart c = false) : isSymbol (c :: w) = false := by
  simp [isSymbol, h]

theorem isPipe_cons_eq_false (h : c ≠ '|') : isPipe (c :: w) = false := by
  simp [isPipe, h]

theorem isColon_cons_eq_false (h : c ≠ ':') : isColon (c :: w) = false := by
  simp [isColon, h]

theorem spells_number (h : isNumber (c :: w) = true) (hc : c.isDigit = true ∨ c = '.') :
    Text.Spells (c :: w) (some .number) := by
  refine ⟨h, isSymbol_cons_eq_false ?_, isPipe_cons_eq_false ?_, isColon_cons_eq_false ?_⟩
  · rcases hc with hc | rfl
    · exact isSymbolStart_of_isDigit hc
    · rfl
  · rintro rfl
    rcases hc with hc | hc <;> cases hc
  · rintro rfl
    rcases hc with hc | hc <;> cases hc

theorem spells_symbol (hc : isSymbolStart c = true) (hw : ∀ d ∈ w, isSymbolRest d = true) :
    Text.Spells (c :: w) (some .symbol) := by
  have hDigit : c.isDigit = false := by
    rw [Bool.eq_false_iff]
    intro hDigit
    rw [isSymbolStart_of_isDigit hDigit] at hc
    cases hc
  refine ⟨isNumber_cons_eq_false hDigit ?_, ?_, isPipe_cons_eq_false ?_, isColon_cons_eq_false ?_⟩
  · rintro rfl
    cases hc
  · simpa [isSymbol, hc] using hw
  · rintro rfl
    cases hc
  · rintro rfl
    cases hc

theorem spells_none (hNumber : isNumber (c :: w) = false) (hStart : isSymbolStart c = false)
    (hPipe : c ≠ '|') (hColon : c ≠ ':') : Text.Spells (c :: w) none :=
  ⟨hNumber, isSymbol_cons_eq_false hStart, isPipe_cons_eq_false hPipe,
    isColon_cons_eq_false hColon⟩

end FirstCharacter

/-- Whether the rules ask for the shape. -/
def Shape.isAsked : Shape → Bool
  | .number | .symbol | .pipe | .doublePipe | .colon => true
  | _ => false

theorem spells_of_not_isAsked {text : Text} {shape : Shape} (hShape : shape.isAsked = false)
    (h : text.Spells none) : text.Spells (some shape) := by
  cases shape <;> cases hShape
  -- the shapes that are left are like no shape at all
  all_goals exact ⟨h.number, h.symbol, h.pipe, h.colon⟩

theorem spells_mark {c : Char} {cs : Text} (h : IsMark c cs) :
    Text.Spells (c :: cs.take (extent c cs).2) (extent c cs).1 := by
  have hNumber : isNumber [c] = false := by simp [isNumber, h.digit]
  rw [extent_of_isMark h]
  generalize hNext : peek cs = next
  fun_cases mark c next
  case case8 =>
    -- the second bar is the next character
    obtain ⟨rest, rfl⟩ := List.head?_eq_some_iff.1 (peek_eq_some_iff.1 hNext).1
    exact ⟨rfl, rfl, rfl, rfl⟩
  case case9 => exact ⟨rfl, rfl, rfl, rfl⟩
  case case10 => exact ⟨rfl, rfl, rfl, rfl⟩
  case case11 hPipe hColon _ _ _ _ => exact spells_none hNumber h.symbol hPipe hColon
  all_goals
    exact spells_of_not_isAsked rfl
      (spells_none (isNumber_cons_eq_false rfl (by decide)) rfl (by decide) (by decide))

/-- **The text of a lexeme** says what its shape is. -/
theorem spells_first (c : Char) (cs : Text) : (first c cs).text.Spells (first c cs).shape? := by
  show Text.Spells (c :: cs.take (extent c cs).2) (extent c cs).1
  rcases extent_cases c cs with ⟨hDigit, hExtent⟩ | ⟨hStart, hExtent⟩ | ⟨hBlank, hExtent⟩ |
    ⟨d, ds, rfl, rfl, hd, hExtent⟩ | ⟨hMark, -⟩
  · have hLe := extent_le c cs
    rw [hExtent] at hLe ⊢
    refine spells_number ?_ (Or.inl hDigit)
    obtain ⟨w, rest, rfl, hw⟩ : ∃ w rest, cs = w ++ rest ∧ numberLength cs = w.length :=
      ⟨_, _, (List.take_append_drop (numberLength cs) cs).symm,
        (List.length_take_of_le hLe).symm⟩
    rw [hw, List.take_left]
    rcases number_cases hw with ⟨hDigits, -⟩ | ⟨u, v, rfl, hu, hv, -⟩
    · exact isNumber_of_digits (List.forall_mem_cons.2 ⟨hDigit, hDigits⟩) (by simp)
    · exact isNumber_of_point (List.forall_mem_cons.2 ⟨hDigit, hu⟩) hv (by simp)
  · rw [hExtent]
    exact spells_symbol hStart fun d hd => of_mem_take_runLength hd
  · rw [hExtent]
    have hNot {d : Char} (hd : isBlank d = false) : c ≠ d := by
      rintro rfl
      rw [hBlank] at hd
      cases hd
    exact spells_of_not_isAsked rfl (spells_none
      (isNumber_cons_eq_false (not_of_isBlank (by decide) hBlank) (hNot rfl))
      (not_of_isBlank (by decide) hBlank) (hNot rfl) (hNot rfl))
  · rw [hExtent]
    refine spells_number ?_ (Or.inr rfl)
    refine isNumber_of_point (u := []) (by simp) (fun e he => of_mem_take_runLength he) ?_
    simp [runLength, hd]
  · exact spells_mark hMark

end Lexeme

/-! ## Pieces -/

namespace Piece

/-- What a word has next to it when the pieces follow it. A line feed ends the line. -/
def side : List Piece → Side
  | [] => .nothing
  | blank text :: pieces => if text.contains '\n' then .nothing else (side pieces).across
  | code _ text :: _ | unknown text :: _ => .word text false
  | closed _ _ :: _ | lineComment _ :: _ | unclosed _ _ :: _ => .region

theorem side_append_congr {more more' : List Piece} (h : side more = side more')
    (pieces : List Piece) : side (pieces ++ more) = side (pieces ++ more') := by
  induction pieces with
  | nil => exact h
  | cons piece rest ih =>
    cases piece with
    | blank text => simp only [List.cons_append, side, ih]
    | _ => rfl

/-- The category of a piece by the texts next to it, the pieces before it being listed from the
nearest on. A region that does not end has one, unless nothing of it is there. -/
def category? (before after : List Piece) : Piece → Option Kind
  | blank _ => none
  | closed region _ => some region.kind
  | lineComment _ => some .comment
  | unclosed region text => if text.isEmpty then none else some region.kind
  | unknown text | code _ text =>
    some (priority text (side before) (side after) (side before == .nothing))

/-- Whether the text of the piece says what it is, and that it is on one line. -/
def IsSpelled : Piece → Prop
  | blank text => '\n' ∉ text
  | code shape text => text.Spells (some shape)
  | unknown text => text.Spells none
  | _ => True

namespace Neighbour

/-- The neighbour by its text alone. -/
def side (n : Neighbour) : Side :=
  match n.piece with
  | blank _ => .nothing
  | code _ text | unknown text => .word text n.apart
  | closed _ _ | lineComment _ | unclosed _ _ => .region

variable {n : Neighbour}

/-- What the text of a neighbour says about its shape. -/
theorem holds_side {sort : Text → Bool} {test : Option Lexeme.Shape → Bool}
    (hNone : test none = false)
    (hSort : ∀ {text : Text} {shape?}, text.Spells shape? → sort text = test shape?)
    (hn : n.piece.IsSpelled) : n.side.holds sort = test n.piece.shape? := by
  obtain ⟨piece, apart⟩ := n
  cases piece with
  | code shape text => exact hSort hn
  | unknown text => exact hSort hn
  | _ => exact hNone.symm

theorem isGlued_side (sort : Text → Bool) :
    n.side.isGlued sort = (n.side.holds sort && !n.apart) := by
  obtain ⟨piece, apart⟩ := n
  cases piece <;> rfl

theorem isAddress_side (hn : n.piece.IsSpelled) : n.isAddress = n.side.isApart Text.isAddress := by
  obtain ⟨piece, apart⟩ := n
  cases piece with
  | code shape text =>
    have hSymbol : text.isSymbol = (some shape == some .symbol) := hn.symbol
    simp only [isAddress, hasShape, Piece.shape?, Piece.text, side, Side.isApart, Text.isAddress,
      hSymbol, Bool.and_right_comm]
  | unknown text =>
    have hSymbol : text.isSymbol = false := hn.symbol
    simp [isAddress, hasShape, Piece.shape?, side, Side.isApart, Text.isAddress, hSymbol]
  | _ => rfl

/-- The side tells the rules what the neighbour tells them. -/
structure IsReadBy (n? : Option Neighbour) (s : Side) : Prop where
  pipe : n?.any isPipe = s.holds Text.isPipe
  colon : n?.any (·.hasShape .colon) = s.holds Text.isColon
  number : n?.any (·.isGlued .number) = s.isGlued Text.isNumber
  symbol : n?.any (·.isGlued .symbol) = s.isGlued Text.isSymbol
  address : n?.any isAddress = s.isApart Text.isAddress
  isNone : n?.isNone = (s == .nothing)

theorem isReadBy_side (hn : n.piece.IsSpelled) (hBlank : n.piece.isBlank = false) :
    IsReadBy (some n) n.side := by
  refine ⟨?_, ?_, ?_, ?_, isAddress_side hn, ?_⟩
  · exact (holds_side rfl Text.Spells.pipe hn).symm
  · exact (holds_side rfl Text.Spells.colon hn).symm
  · rw [isGlued_side, holds_side rfl Text.Spells.number hn]
    rfl
  · rw [isGlued_side, holds_side rfl Text.Spells.symbol hn]
    rfl
  · obtain ⟨piece, apart⟩ := n
    cases piece with
    | blank text => cases hBlank
    | _ => rfl

theorem side_apart (n : Neighbour) : side { n with apart := true } = n.side.across := by
  obtain ⟨piece, apart⟩ := n
  cases piece <;> rfl

end Neighbour

section OneLine

variable {pieces : List Piece}

theorem neighbour_isSpelled (h : ∀ p ∈ pieces, p.IsSpelled) {n : Neighbour}
    (hn : neighbour pieces = some n) : n.piece.IsSpelled ∧ n.piece.isBlank = false := by
  induction pieces generalizing n with
  | nil => cases hn
  | cons piece rest ih =>
    obtain ⟨hPiece, hRest⟩ := List.forall_mem_cons.1 h
    cases piece with
    | blank text =>
      obtain ⟨m, hm, rfl⟩ := Option.map_eq_some_iff.1 hn
      have hRead := ih hRest hm
      exact hRead
    | _ =>
      obtain rfl := Option.some.inj hn
      exact ⟨hPiece, rfl⟩

theorem side_eq_neighbour (h : ∀ p ∈ pieces, p.IsSpelled) :
    side pieces = ((neighbour pieces).map Neighbour.side).getD .nothing := by
  induction pieces with
  | nil => rfl
  | cons piece rest ih =>
    obtain ⟨hPiece, hRest⟩ := List.forall_mem_cons.1 h
    cases piece with
    | blank text =>
      have hNot : '\n' ∉ text := hPiece
      have hFeed : text.contains '\n' = false := by simpa using hNot
      rw [side, hFeed, ih hRest, neighbour]
      cases neighbour rest with
      | none => rfl
      | some n => exact n.side_apart.symm
    | _ => rfl

theorem isReadBy_neighbour (h : ∀ p ∈ pieces, p.IsSpelled) :
    Neighbour.IsReadBy (neighbour pieces) (side pieces) := by
  rw [side_eq_neighbour h]
  cases hn : neighbour pieces with
  | none => exact ⟨rfl, rfl, rfl, rfl, rfl, rfl⟩
  | some n =>
    obtain ⟨hSpelled, hBlank⟩ := neighbour_isSpelled h hn
    exact Neighbour.isReadBy_side hSpelled hBlank

end OneLine

theorem codeKind_eq_priority {before? after? : Option Neighbour} {before after : Side}
    (hBefore : Neighbour.IsReadBy before? before) (hAfter : Neighbour.IsReadBy after? after)
    {shape : Lexeme.Shape} {text : Text} (h : text.Spells (some shape)) :
    codeKind shape text before? after? = priority text before after (before == .nothing) := by
  obtain ⟨hNumber, hSymbol, hPipe, -⟩ := h
  cases shape with
  | pipe => simp [codeKind, priority, hPipe, Lexeme.Shape.isPipe]
  | doublePipe => simp [codeKind, priority, hPipe, Lexeme.Shape.isPipe]
  | number => simp [codeKind, priority, hPipe, hNumber, hAfter.symbol, Lexeme.Shape.isPipe]
  | symbol =>
    simp [codeKind, symbolKind, priority, hPipe, hNumber, hSymbol, hBefore.pipe, hBefore.number,
      hBefore.address, hBefore.isNone, hAfter.colon, Lexeme.Shape.isPipe]
  | _ => simp [codeKind, priority, hPipe, hNumber, hSymbol, Lexeme.Shape.isPipe]

/-- **Category of a piece** that is complete on its line. -/
theorem kind?_eq_category? {before after : List Piece} (hBefore : ∀ p ∈ before, p.IsSpelled)
    (hAfter : ∀ p ∈ after, p.IsSpelled) {piece : Piece} (hPiece : piece.IsSpelled)
    (hComplete : ∀ region text, piece ≠ unclosed region text) :
    piece.kind? before after = piece.category? before after := by
  cases piece with
  | code shape text =>
    exact congrArg some (codeKind_eq_priority (isReadBy_neighbour hBefore)
      (isReadBy_neighbour hAfter) hPiece)
  | unknown text =>
    have hNumber : text.isNumber = false := hPiece.number
    have hSymbol : text.isSymbol = false := hPiece.symbol
    have hPipe : text.isPipe = false := hPiece.pipe
    simp [kind?, category?, priority, hNumber, hSymbol, hPipe]
  | unclosed region text => exact absurd rfl (hComplete region text)
  | _ => rfl

theorem isSpelled_ofCode {code : Text} (h : '\n' ∉ code) : ∀ p ∈ ofCode code, p.IsSpelled := by
  fun_induction ofCode code with
  | case1 => simp
  | case2 c cs lexeme rest hShape ih =>
    refine List.forall_mem_cons.2 ⟨?_, ih (Lexeme.newline_notMem h).2⟩
    have hSpells := Lexeme.spells_first c cs
    rw [show (Lexeme.first c cs).shape? = none from hShape] at hSpells
    exact hSpells
  | case3 c cs lexeme rest shape hShape region hRegion n hLength ih =>
    refine List.forall_mem_cons.2 ⟨trivial, ih ?_⟩
    intro hMem
    exact (Lexeme.newline_notMem h).2 (List.mem_of_mem_drop hMem)
  | case4 => exact List.forall_mem_singleton.2 trivial
  | case5 => exact List.forall_mem_singleton.2 trivial
  | case6 c cs lexeme rest shape hShape hRegion hComment hSpace ih =>
    exact List.forall_mem_cons.2 ⟨(Lexeme.newline_notMem h).1, ih (Lexeme.newline_notMem h).2⟩
  | case7 c cs lexeme rest shape hShape hRegion hComment hSpace ih =>
    refine List.forall_mem_cons.2 ⟨?_, ih (Lexeme.newline_notMem h).2⟩
    have hSpells := Lexeme.spells_first c cs
    rw [show (Lexeme.first c cs).shape? = some shape from hShape] at hSpells
    exact hSpells

end Piece

end RexxEditing
