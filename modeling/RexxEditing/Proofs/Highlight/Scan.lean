import RexxEditing.Highlight.Document
import RexxEditing.Proofs.Region
import RexxEditing.Proofs.Text.Lines

/-! # Scanning lines

What the scan of one line gives, by the state in which the line is entered, and what the scan of
many lines hands on.

A line is entered in code, or its region ends on it and code follows, or the region goes on
(`ofLine_normal`, `ofLine_closed`, `ofLine_unclosed`). So the tokens of code are the only case in
which pieces are looked at.

* `Piece.onlyLastOpen_ofCode`: of the pieces of code only the last can go on after the line.
* `scanLines_append`: lines are scanned one part after the other.
* `scanLines_shift`: the scan does not depend on where the text starts.
* `scanLines_carry`: a region that is handed on was opened before, and code hands on no start.
-/

namespace RexxEditing

/-! ## Complete pieces -/

/-- Whether the piece ends on its line. -/
def Piece.isComplete : Piece → Bool
  | .unclosed _ _ => false
  | _ => true

/-- All pieces are complete, or the last one alone is not, and is not empty. -/
def Piece.OnlyLastOpen (pieces : List Piece) : Prop :=
  (∀ p ∈ pieces, p.isComplete = true) ∨
    ∃ init region text, pieces = init ++ [unclosed region text] ∧ text ≠ [] ∧
      ∀ p ∈ init, p.isComplete = true

theorem Piece.OnlyLastOpen.cons {piece : Piece} {pieces : List Piece}
    (hPiece : piece.isComplete = true) (h : OnlyLastOpen pieces) :
    OnlyLastOpen (piece :: pieces) := by
  rcases h with hAll | ⟨init, region, text, rfl, hText, hInit⟩
  · exact Or.inl (List.forall_mem_cons.2 ⟨hPiece, hAll⟩)
  · exact Or.inr ⟨piece :: init, region, text, rfl, hText,
      List.forall_mem_cons.2 ⟨hPiece, hInit⟩⟩

/-- **The pieces of code.** Only the last piece can go on after the line. -/
theorem Piece.onlyLastOpen_ofCode (code : Text) : OnlyLastOpen (ofCode code) := by
  fun_induction ofCode code with
  | case1 => exact Or.inl (by simp)
  | case2 c cs _ _ _ ih => exact ih.cons rfl
  | case3 c cs _ _ _ _ _ _ n _ ih => exact ih.cons rfl
  | case4 c cs lexeme rest _ _ region _ _ =>
    exact Or.inr ⟨[], region, lexeme.text ++ rest, rfl, by simp [lexeme, Lexeme.first], by simp⟩
  | case5 => exact Or.inl (by simp [isComplete])
  | case6 c cs _ _ _ _ _ _ _ ih => exact ih.cons rfl
  | case7 c cs _ _ _ _ _ _ _ ih => exact ih.cons rfl

theorem Piece.exitState_of_isComplete {pieces : List Piece}
    (h : ∀ p ∈ pieces, p.isComplete = true) : exitState pieces = .normal := by
  unfold exitState
  split
  · rename_i region text hLast
    have := h _ (List.mem_of_getLast? hLast)
    simp [isComplete] at this
  · rfl

theorem Piece.exitState_concat_unclosed (init : List Piece) (region : Region) (text : Text) :
    exitState (init ++ [unclosed region text]) = .inside region := by
  simp [exitState]

theorem Piece.exitState_cons {piece : Piece} (h : piece.isComplete = true) (pieces : List Piece) :
    exitState (piece :: pieces) = exitState pieces := by
  cases pieces with
  | nil => exact exitState_of_isComplete (by simpa using h)
  | cons next rest => simp [exitState, List.getLast?_cons_cons]

/-! ## Places of pieces -/

theorem Piece.locate_ne_nil {pieces : List Piece} (h : pieces ≠ []) (base : Nat)
    (before : List Piece) : locate base before pieces ≠ [] := by
  obtain ⟨piece, rest, rfl⟩ := List.exists_cons_of_ne_nil h
  simp [locate]

theorem Piece.mem_of_mem_locate {pieces : List Piece} {base : Nat} {before : List Piece}
    {p : Piece.Located} (h : p ∈ locate base before pieces) : p.piece ∈ pieces := by
  induction pieces generalizing base before with
  | nil => simp [locate] at h
  | cons piece rest ih =>
    rcases List.mem_cons.1 h with rfl | h
    · exact List.mem_cons_self
    · exact List.mem_cons_of_mem _ (ih h)

/-- The last piece starts after the texts of all others. -/
theorem Piece.getLast?_locate_concat (base : Nat) (before init : List Piece) (piece : Piece) :
    ∃ kind?, (locate base before (init ++ [piece])).getLast? =
      some ⟨piece, kind?, base + Text.byteSize (init.flatMap text),
        base + Text.byteSize (init.flatMap text) + piece.text.byteSize⟩ := by
  induction init generalizing base before with
  | nil => exact ⟨piece.kind? before [], by simp [locate]⟩
  | cons first rest ih =>
    obtain ⟨kind?, h⟩ := ih (base + first.text.byteSize) (first :: before)
    refine ⟨kind?, ?_⟩
    rw [List.cons_append, locate, List.getLast?_cons_of_ne_nil (locate_ne_nil (by simp) _ _), h]
    simp only [List.flatMap_cons, Text.byteSize_append, Nat.add_assoc]

theorem LineScan.unclosedFrom?_of_isComplete {pieces : List Piece}
    (h : ∀ p ∈ pieces, p.isComplete = true) (base : Nat) (before : List Piece) :
    unclosedFrom? (Piece.locate base before pieces) = none := by
  unfold unclosedFrom?
  split
  · rename_i region text kind? span hLast
    have := h _ (Piece.mem_of_mem_locate (List.mem_of_getLast? hLast))
    simp [Piece.isComplete] at this
  · rfl

theorem LineScan.unclosedFrom?_concat_unclosed (base : Nat) (before init : List Piece)
    (region : Region) (text : Text) :
    unclosedFrom? (Piece.locate base before (init ++ [.unclosed region text])) =
      some (base + Text.byteSize (init.flatMap Piece.text)) := by
  obtain ⟨kind?, h⟩ := Piece.getLast?_locate_concat base before init (.unclosed region text)
  simp [unclosedFrom?, h]

theorem LineScan.unclosedFrom?_cons {first : Piece.Located} (h : first.piece.isComplete = true)
    (pieces : List Piece.Located) : unclosedFrom? (first :: pieces) = unclosedFrom? pieces := by
  cases pieces with
  | nil =>
    obtain ⟨piece, kind?, span⟩ := first
    cases piece <;> simp_all [unclosedFrom?, Piece.isComplete]
  | cons next rest => simp [unclosedFrom?, List.getLast?_cons_cons]

/-! ## One line -/

namespace LineScan

/-- The scan of code that starts at byte `base` of the text, with the pieces `before` in front of it
on its line. -/
def ofCode (code : Text) (base : Nat) (before : List Piece) : LineScan :=
  let pieces := Piece.locate base before (Piece.ofCode code)
  { tokens := pieces.filterMap Piece.Located.token?
    exit := Piece.exitState (Piece.ofCode code)
    openFrom := unclosedFrom? pieces }

theorem ofLine_normal (line : Text) (base : Nat) (openFrom : Option Nat) :
    ofLine line base .normal openFrom = ofCode line base [] := rfl

/-- A region that does not end on the line is handed on with its start. -/
theorem ofLine_unclosed {region : Region} {line : Text} (h : region.length? line = none)
    (base : Nat) (openFrom : Option Nat) :
    ofLine line base (.inside region) openFrom =
      ⟨[], .inside region, some (openFrom.getD base)⟩ := by
  simp [ofLine, located, Piece.ofLine, h, Piece.locate, Piece.extendBack, Piece.kind?,
    Piece.Located.token?, State.next, Piece.exitState, unclosedFrom?]

/-- A region that ends on the line is its first token, and code follows. -/
theorem ofLine_closed {region : Region} {line : Text} {n : Nat} (h : region.length? line = some n)
    (base : Nat) (openFrom : Option Nat) :
    ofLine line base (.inside region) openFrom =
      let stop := base + Text.byteSize (line.take n)
      let code := ofCode (line.drop n) stop [.closed region (line.take n)]
      ⟨⟨region.kind, openFrom.getD base, stop⟩ :: code.tokens, code.exit, code.openFrom⟩ := by
  simp only [ofLine, located, Piece.ofLine, h, Piece.locate, Piece.extendBack, Piece.text,
    Piece.kind?, Piece.Located.token?, State.next, ofCode, List.filterMap_cons, Option.map_some]
  rw [Piece.exitState_cons rfl, unclosedFrom?_cons rfl]

/-- What code hands on: nothing, or a region that starts after its complete pieces. -/
theorem ofCode_cases (code : Text) (base : Nat) (before : List Piece) :
    ((ofCode code base before).exit = .normal ∧ (ofCode code base before).openFrom = none ∧
        ∀ p ∈ Piece.ofCode code, p.isComplete = true) ∨
      ∃ init region text, Piece.ofCode code = init ++ [.unclosed region text] ∧ text ≠ [] ∧
        (∀ p ∈ init, p.isComplete = true) ∧
        (ofCode code base before).exit = .inside region ∧
        (ofCode code base before).openFrom =
          some (base + Text.byteSize (init.flatMap Piece.text)) := by
  rcases Piece.onlyLastOpen_ofCode code with hAll | ⟨init, region, text, hCode, hText, hInit⟩
  · exact Or.inl ⟨Piece.exitState_of_isComplete hAll, unclosedFrom?_of_isComplete hAll _ _, hAll⟩
  · refine Or.inr ⟨init, region, text, hCode, hText, hInit, ?_, ?_⟩
    · simp only [ofCode, hCode, Piece.exitState_concat_unclosed]
    · simp only [ofCode, hCode, unclosedFrom?_concat_unclosed]

end LineScan

/-! ## What lines hand on -/

/-- The carry of a line that ends at byte `stop`: code has no start, and a region starts at `stop`
or before. -/
def Carry.IsOpenBy (carry : Carry) (stop : Nat) : Prop :=
  (carry.state = .normal ∧ carry.openFrom = none) ∨
    ∃ region start, carry = ⟨.inside region, some start⟩ ∧ start ≤ stop

theorem Carry.openToken?_inside {start stop : Nat} (h : start < stop) (region : Region) :
    openToken? ⟨.inside region, some start⟩ stop = some ⟨region.kind, start, stop⟩ := by
  simp [openToken?, State.kind?, h]

/-- The carry after a line. -/
def LineScan.carry (scan : LineScan) : Carry := ⟨scan.exit, scan.openFrom⟩

theorem LineScan.ofCode_carry (code : Text) (base : Nat) (before : List Piece) :
    (ofCode code base before).carry.IsOpenBy (base + code.byteSize) := by
  rcases ofCode_cases code base before with
    ⟨hExit, hOpen, -⟩ | ⟨init, region, text, hCode, -, -, hExit, hOpen⟩
  · exact Or.inl ⟨hExit, hOpen⟩
  · refine Or.inr ⟨region, _, by rw [carry, hExit, hOpen], ?_⟩
    have hText := Piece.flatMap_text_ofCode code
    rw [hCode, List.flatMap_append] at hText
    rw [← hText, Text.byteSize_append]
    omega

/-- One line hands on a carry that fits its end, if it was given one that fits its start. -/
theorem LineScan.ofLine_carry (line : Text) {base : Nat} (entry : State) {openFrom : Option Nat}
    (h : openFrom.getD base ≤ base) :
    (ofLine line base entry openFrom).carry.IsOpenBy (base + line.byteSize) := by
  cases entry with
  | normal => exact ofCode_carry line base []
  | inside region =>
    cases hLength : region.length? line with
    | none =>
      rw [ofLine_unclosed hLength]
      exact Or.inr ⟨region, _, rfl, by omega⟩
    | some n =>
      rw [ofLine_closed hLength]
      have hCode := ofCode_carry (line.drop n) (base + Text.byteSize (line.take n))
        [.closed region (line.take n)]
      rwa [Nat.add_assoc, ← Text.byteSize_append, List.take_append_drop] at hCode

/-! ## Moving along the text -/

/-- The piece moved `n` bytes on. -/
def Piece.Located.shift (p : Piece.Located) (n : Nat) : Piece.Located :=
  { p with span := p.span.shift n }

/-- The scan of the same line `n` bytes on. -/
def LineScan.shift (scan : LineScan) (n : Nat) : LineScan :=
  ⟨scan.tokens.map (·.shift n), scan.exit, scan.openFrom.map (· + n)⟩

/-- The carry `n` bytes on. -/
def Carry.shift (carry : Carry) (n : Nat) : Carry := ⟨carry.state, carry.openFrom.map (· + n)⟩

theorem Piece.locate_shift (base n : Nat) (before pieces : List Piece) :
    locate (base + n) before pieces = (locate base before pieces).map (·.shift n) := by
  induction pieces generalizing base before with
  | nil => rfl
  | cons piece rest ih =>
    simp only [locate, List.map_cons, Nat.add_right_comm base n piece.text.byteSize, ih]
    rfl

theorem Piece.Located.token?_shift (p : Piece.Located) (n : Nat) :
    (p.shift n).token? = p.token?.map (·.shift n) := by
  simp [token?, Located.shift, Token.shift, Function.comp_def]

theorem Piece.filterMap_token?_shift (pieces : List Piece.Located) (n : Nat) :
    (pieces.map (·.shift n)).filterMap Piece.Located.token? =
      (pieces.filterMap Piece.Located.token?).map (·.shift n) := by
  rw [List.filterMap_map, List.map_filterMap]
  congr 1
  funext p
  exact p.token?_shift n

theorem LineScan.unclosedFrom?_shift (pieces : List Piece.Located) (n : Nat) :
    unclosedFrom? (pieces.map (·.shift n)) = (unclosedFrom? pieces).map (· + n) := by
  simp only [unclosedFrom?, List.getLast?_map]
  cases pieces.getLast? with
  | none => rfl
  | some p =>
    obtain ⟨piece, kind?, span⟩ := p
    cases piece <;> rfl

theorem Piece.extendBack_shift (start n : Nat) (pieces : List Piece.Located) :
    extendBack (start + n) (pieces.map (·.shift n)) =
      (extendBack start pieces).map (·.shift n) := by
  cases pieces <;> rfl

theorem LineScan.located_shift (line : Text) (base n : Nat) (entry : State)
    (openFrom : Option Nat) :
    located line (base + n) entry (openFrom.map (· + n)) =
      (located line base entry openFrom).map (·.shift n) := by
  cases entry with
  | normal => exact Piece.locate_shift base n [] _
  | inside region =>
    have hStart : (openFrom.map (· + n)).getD (base + n) = openFrom.getD base + n := by
      cases openFrom <;> rfl
    simp only [located, hStart, Piece.locate_shift, Piece.extendBack_shift]

theorem LineScan.ofLine_shift (line : Text) (base n : Nat) (entry : State)
    (openFrom : Option Nat) :
    ofLine line (base + n) entry (openFrom.map (· + n)) =
      (ofLine line base entry openFrom).shift n := by
  simp only [ofLine, located_shift, Piece.filterMap_token?_shift, unclosedFrom?_shift, shift]

theorem Carry.openToken?_shift (carry : Carry) (stop n : Nat) :
    (carry.shift n).openToken? (stop + n) = (carry.openToken? stop).map (·.shift n) := by
  obtain ⟨state, _ | start⟩ := carry
  · rfl
  · cases state with
    | normal => rfl
    | inside region =>
      by_cases h : start < stop
      · simp [shift, openToken?, State.kind?, h, Token.shift, Span.shift]
      · simp [shift, openToken?, State.kind?, h]

/-! ## Many lines -/

/-- The state after lines that are entered in the given state. -/
def State.after (entry : State) (lines : List Text) : State := lines.foldl State.next entry

theorem State.next_nil (entry : State) : entry.next [] = entry := by
  cases entry with
  | normal => simp [next, Piece.ofLine, Piece.ofCode, Piece.exitState]
  | inside region => simp [next, Piece.ofLine, Region.length?_nil, Piece.exitState]

theorem State.sequence_append (entry : State) (xs ys : List Text) :
    entry.sequence (xs ++ ys) = entry.sequence xs ++ (entry.after xs).sequence ys := by
  induction xs generalizing entry with
  | nil => rfl
  | cons line rest ih => simp [sequence, ih, after]

theorem scanLines_cons (base : Nat) (carry : Carry) (line : Text) (rest : List Text) :
    scanLines base carry (line :: rest) =
      let scan := LineScan.ofLine line base carry.state carry.openFrom
      let below := scanLines (base + line.byteSize + 1) scan.carry rest
      (scan.tokens ++ below.1, below.2) := rfl

/-- Lines are scanned one part after the other. -/
theorem scanLines_append (base : Nat) (carry : Carry) (xs ys : List Text) :
    scanLines base carry (xs ++ ys) =
      let above := scanLines base carry xs
      let below := scanLines (base + Text.linesSize xs) above.2 ys
      (above.1 ++ below.1, below.2) := by
  induction xs generalizing base carry with
  | nil => simp [scanLines]
  | cons line rest ih =>
    have hBase : base + line.byteSize + 1 + Text.linesSize rest =
        base + Text.linesSize (line :: rest) := by
      simp only [Text.linesSize_cons]
      omega
    simp only [List.cons_append, scanLines_cons, ih, hBase, List.append_assoc]

theorem scanLines_shift (base n : Nat) (carry : Carry) (lines : List Text) :
    scanLines (base + n) (carry.shift n) lines =
      ((scanLines base carry lines).1.map (·.shift n), (scanLines base carry lines).2.shift n) := by
  induction lines generalizing base carry with
  | nil => rfl
  | cons line rest ih =>
    have hBase : base + n + line.byteSize + 1 = base + line.byteSize + 1 + n := by omega
    have hLine : LineScan.ofLine line (base + n) (carry.shift n).state (carry.shift n).openFrom =
        (LineScan.ofLine line base carry.state carry.openFrom).shift n :=
      LineScan.ofLine_shift line base n carry.state carry.openFrom
    have hCarry (scan : LineScan) : (scan.shift n).carry = scan.carry.shift n := rfl
    simp only [scanLines_cons, hLine, hCarry, hBase, ih]
    simp [LineScan.shift]

theorem scanLines_state (base : Nat) (carry : Carry) (lines : List Text) :
    (scanLines base carry lines).2.state = carry.state.after lines := by
  induction lines generalizing base carry with
  | nil => rfl
  | cons line rest ih =>
    rw [scanLines_cons]
    exact ih _ _

/-- **Carry invariant.** After lines, code hands on no start, and an open region started before
their end. -/
theorem scanLines_carry {lines : List Text} (hne : lines ≠ []) (base : Nat) (carry : Carry)
    (h : carry.openFrom.getD base ≤ base) :
    (scanLines base carry lines).2.IsOpenBy (base + Text.linesSize lines - 1) := by
  induction lines generalizing base carry with
  | nil => exact absurd rfl hne
  | cons line rest ih =>
    have hLine := LineScan.ofLine_carry line carry.state h
    rw [scanLines_cons]
    by_cases hRest : rest = []
    · subst hRest
      simpa [scanLines, Text.linesSize] using hLine
    · have hNext : (LineScan.ofLine line base carry.state carry.openFrom).carry.openFrom.getD
          (base + line.byteSize + 1) ≤ base + line.byteSize + 1 := by
        rcases hLine with ⟨-, hNone⟩ | ⟨region, start, hSome, hStart⟩
        · simp [hNone]
        · rw [hSome]
          exact Nat.le_succ_of_le hStart
      have hBase : base + line.byteSize + 1 + Text.linesSize rest - 1 =
          base + Text.linesSize (line :: rest) - 1 := by
        simp only [Text.linesSize_cons]
        omega
      exact hBase ▸ ih hRest _ _ hNext

/-! ## All tokens of a text -/

/-- The tokens of lines that follow each other from byte `base` up to byte `stop`, where the text
ends. -/
def tokensFrom (base : Nat) (carry : Carry) (lines : List Text) (stop : Nat) : List Token :=
  (scanLines base carry lines).1 ++ ((scanLines base carry lines).2.openToken? stop).toList

theorem classify_eq (text : Text) (entry : State) :
    classify text entry =
      ⟨tokensFrom 0 ⟨entry, none⟩ text.lines text.byteSize, entry.after text.lines⟩ := by
  rw [← scanLines_state 0 ⟨entry, none⟩]
  rfl

theorem tokensFrom_cons (base : Nat) (carry : Carry) (line : Text) (rest : List Text)
    (stop : Nat) :
    tokensFrom base carry (line :: rest) stop =
      let scan := LineScan.ofLine line base carry.state carry.openFrom
      scan.tokens ++ tokensFrom (base + line.byteSize + 1) scan.carry rest stop := by
  simp only [tokensFrom, scanLines_cons, List.append_assoc]

/-- Without a start, a region starts with the first line. -/
theorem tokensFrom_none {lines : List Text} (hne : lines ≠ []) (base : Nat) (state : State)
    (stop : Nat) :
    tokensFrom base ⟨state, none⟩ lines stop = tokensFrom base ⟨state, some base⟩ lines stop := by
  obtain ⟨line, rest, rfl⟩ := List.exists_cons_of_ne_nil hne
  have hLine :
      LineScan.ofLine line base state none = LineScan.ofLine line base state (some base) := by
    simp only [LineScan.ofLine, LineScan.located, Option.getD_none, Option.getD_some]
  simp only [tokensFrom_cons, hLine]

end RexxEditing
