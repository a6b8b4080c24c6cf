import Mathlib.Data.List.Induction
import RexxEditing.Proofs.Indent.Stream

/-! # Blank lines and comments between other lines

A line without code hands on what it was given: neither the search for a code line nor the pass that
indents a text takes anything from it. So a block of such lines may be put between any two lines
that are parted in code, and all other lines keep their columns and their places.

* `lacksCode_of_tokens`: a line whose tokens are comments has no code.
* `lacksCode_place`: it has none in its place either, with or without a carriage return.
* `run_take_insertAt`: a pass over the lines above another line does not see the block.
* `insertAt_transparent`: columns and indented lines around a block of comments.
-/

namespace RexxEditing

open Text (isWhite isBlank spaces)

/-! ## Lines without code -/

namespace Piece

/-- Whether a piece of code is among the pieces. -/
def holdCode (pieces : List Piece) : Bool := pieces.any isCode

theorem holdCode_blank (t : Text) (pieces : List Piece) :
    holdCode (blank t :: pieces) = holdCode pieces := rfl

/-- Whether there is code from a lexeme on, when `rest` follows it. -/
def holdCodeAfter (shape? : Option Lexeme.Shape) (rest : Text) : Bool :=
  match shape? with
  | none => true
  | some shape =>
    match shape.region? with
    | some region =>
      match region.length? rest with
      | some n => region != .comment || holdCode (ofCode (rest.drop n))
      | none => false
    | none =>
      if shape.isLineCommentOpener && Region.startsLineComment rest then false
      else !shape.isSpace || holdCode (ofCode rest)

theorem holdCode_ofCode_cons (c : Char) (cs : Text) :
    holdCode (ofCode (c :: cs)) = holdCodeAfter (Lexeme.extent c cs).1 (Lexeme.rest c cs) := by
  have hFirst : (Lexeme.first c cs).shape? = (Lexeme.extent c cs).1 := rfl
  have hOfCode := ofCode.eq_2 c cs
  simp only [hFirst] at hOfCode
  rw [hOfCode]
  generalize Lexeme.rest c cs = rest
  generalize (Lexeme.first c cs).text = text
  generalize (Lexeme.extent c cs).1 = shape?
  cases shape? with
  | none => rfl
  | some shape =>
    simp only [holdCodeAfter]
    cases shape.region? with
    | none =>
      simp only
      split
      · rfl
      · cases shape.isSpace <;> rfl
    | some region =>
      simp only
      cases region.length? rest with
      | none => rfl
      | some n => cases region <;> rfl

/-- A blank at the end is no code and hides none. -/
theorem holdCode_append_blank {b : Char} (hb : Text.isBlank b = true) (code : Text) :
    holdCode (ofCode (code ++ [b])) = holdCode (ofCode code) := by
  induction hLength : code.length using Nat.strongRecOn generalizing code with
  | ind length ih =>
    subst hLength
    cases code with
    | nil => rw [List.nil_append, ofCode_cons_blank hb]; rfl
    | cons c cs =>
      rw [List.cons_append, holdCode_ofCode_cons, holdCode_ofCode_cons]
      obtain ⟨hShape, hRest | hRest⟩ := Lexeme.rest_append_blank hb c cs
      · have hLess := Lexeme.length_rest_lt c cs
        have hWhole := ih _ hLess (Lexeme.rest c cs) rfl
        have hPart (region : Region) (n : Nat)
            (hEnd : region.length? (Lexeme.rest c cs) = some n) :
            holdCode (ofCode ((Lexeme.rest c cs ++ [b]).drop n)) =
              holdCode (ofCode ((Lexeme.rest c cs).drop n)) := by
          rw [List.drop_append_of_le_length (Region.length?_bounds hEnd).2]
          refine ih _ ?_ _ rfl
          rw [List.length_drop]
          omega
        rw [hShape, hRest]
        unfold holdCodeAfter
        cases (Lexeme.extent c cs).1 with
        | none => rfl
        | some shape =>
          simp only [Region.length?_append_blank hb, Region.startsLineComment_append_blank hb,
            hWhole]
          cases shape.region? with
          | none => rfl
          | some region =>
            cases hEnd : region.length? (Lexeme.rest c cs) with
            | none => simp only [hEnd]
            | some n => simp only [hEnd, hPart region n hEnd]
      · rw [hShape, hRest]

/-- Where no code is found with white space in front, none is found without it. -/
theorem holdCode_of_white_append {front : Text} (hFront : ∀ c ∈ front, isWhite c = true)
    {code : Text} (h : holdCode (ofCode (front ++ code)) = false) :
    holdCode (ofCode code) = false := by
  induction front with
  | nil => exact h
  | cons c cs ih =>
    obtain ⟨hc, hcs⟩ := List.forall_mem_cons.1 hFront
    apply ih hcs
    rw [List.cons_append] at h
    by_cases hBlank : Text.isBlank c = true
    · rwa [ofCode_cons_blank hBlank, holdCode_blank,
        ofCode_dropWhile_blank holdCode holdCode_blank] at h
    · by_cases hFeed : c = '\n'
      · rwa [hFeed, ofCode_cons_newline, holdCode_blank] at h
      · -- another white character is a token of its own
        rw [ofCode_cons_white hc (by simp [Text.isSeparator, hBlank, hFeed])] at h
        cases h

end Piece

namespace Indent

/-- Whether none of the pieces that are the line's own is code. -/
def LacksCode (entry : State) (line : Text) : Prop := Piece.holdCode (Piece.own entry line) = false

theorem LacksCode.level {entry : State} {line : Text} (h : LacksCode entry line) :
    Level.ofLine? entry line = none := by
  have hPart : Piece.codePart? (Piece.own entry line) = none := by
    rw [Piece.codePart?_eq_none_iff]
    exact fun p hp => Bool.eq_false_iff.2 (List.any_eq_false.1 h p hp)
  rw [Level.ofLine?, CodeLine.ofLine?_eq, hPart]
  rfl

theorem LacksCode.dropReturn {entry : State} {line : Text} (h : LacksCode entry line) :
    LacksCode entry line.dropReturn := by
  have hLine := line.dropReturn_append_ending
  rcases line.ending_cases with hEnding | hEnding
  · rw [hEnding] at hLine
    generalize line.dropReturn = front at hLine ⊢
    subst hLine
    have hReturn : isBlank '\r' = true := rfl
    cases entry with
    | normal => exact (Piece.holdCode_append_blank hReturn front).symm.trans h
    | inside region =>
      cases hEnd : region.length? front with
      | none => simp only [LacksCode, Piece.own, hEnd, Piece.holdCode, List.any_nil]
      | some n =>
        simp only [LacksCode, Piece.own, Region.length?_append_blank hReturn, hEnd,
          List.drop_append_of_le_length (Region.length?_bounds hEnd).2] at h ⊢
        exact (Piece.holdCode_append_blank hReturn _).symm.trans h
  · rw [hEnding, List.append_nil] at hLine
    rwa [hLine]

/-- A line without code has none in its place. -/
theorem lacksCode_place {c : Carried} {line : Text} (h : LacksCode c.state line) (offset : Nat) :
    LacksCode c.state (c.place offset line.dropReturn) := by
  have hLine := h.dropReturn
  generalize line.dropReturn = line' at hLine ⊢
  cases hState : c.state with
  | inside region =>
    rw [hState] at hLine
    rwa [Carried.place, hState]
  | normal =>
    rw [hState] at hLine
    by_cases hBody : line'.trimStart = []
    · rw [Carried.place_white hState offset hBody, LacksCode, Piece.own, Piece.ofCode]
      rfl
    · rw [Carried.place_body hState offset hBody]
      obtain ⟨front, hFront, hParts⟩ := Text.white_append_trimStart line'
      have hBodyCode : Piece.holdCode (Piece.ofCode line'.trimStart) = false := by
        apply Piece.holdCode_of_white_append hFront
        rw [← hParts]
        exact hLine
      have hSpaces : ∀ d ∈ spaces (c.column offset (LineKind.ofLine line')), isBlank d = true := by
        intro d hd
        rw [List.eq_of_mem_replicate hd]
        rfl
      show Piece.holdCode (Piece.ofCode _) = false
      rwa [Piece.ofCode_white_append Piece.holdCode Piece.holdCode_blank
        (fun d hd => Text.isWhite_of_isBlank (hSpaces d hd)) (Or.inl hSpaces)]

/-! ## Blocks of such lines -/

/-- Whether no line has code when the first is entered in the given state. -/
def AllLackCode (entry : State) : List Text → Prop
  | [] => True
  | line :: rest => LacksCode entry line ∧ AllLackCode (entry.next line) rest

theorem AllLackCode.map_dropReturn {entry : State} {lines : List Text}
    (h : AllLackCode entry lines) : AllLackCode entry (lines.map Text.dropReturn) := by
  induction lines generalizing entry with
  | nil => trivial
  | cons line rest ih =>
    refine ⟨h.1.dropReturn, ?_⟩
    rw [State.next_dropReturn]
    exact ih h.2

theorem exists_token_of_holdCode {pieces : List Piece} (h : Piece.holdCode pieces = true)
    (base : Nat) (before : List Piece) :
    ∃ t ∈ tokensOf base before pieces, t.kind ≠ .comment := by
  induction pieces generalizing base before with
  | nil => cases h
  | cons piece rest ih =>
    rw [tokensOf_cons]
    cases hCode : piece.isCode with
    | true =>
      obtain ⟨kind, hKind, hComment⟩ := kind?_of_isCode hCode before rest
      refine ⟨⟨kind, base, base + piece.text.byteSize⟩, ?_, ne_of_beq_false hComment⟩
      rw [hKind]
      exact List.mem_append_left _ (List.mem_singleton_self _)
    | false =>
      have hRest : Piece.holdCode rest = true := by
        simpa [Piece.holdCode, hCode] using h
      obtain ⟨t, ht, hKind⟩ := ih hRest (base + piece.text.byteSize) (piece :: before)
      exact ⟨t, List.mem_append_right _ ht, hKind⟩

/-- **A line whose tokens are comments** has no code. -/
theorem lacksCode_of_tokens {line : Text} {base : Nat} {entry : State} {openFrom : Option Nat}
    (h : ∀ t ∈ (LineScan.ofLine line base entry openFrom).tokens, t.kind = .comment) :
    LacksCode entry line := by
  have hCode (code : Text) (start : Nat) (before : List Piece)
      (hTokens : ∀ t ∈ (LineScan.ofCode code start before).tokens, t.kind = .comment) :
      Piece.holdCode (Piece.ofCode code) = false := by
    apply Bool.eq_false_iff.2
    intro hHolds
    obtain ⟨t, ht, hKind⟩ := exists_token_of_holdCode hHolds start before
    exact hKind (hTokens t ht)
  cases entry with
  | normal => exact hCode line base [] h
  | inside region =>
    cases hEnd : region.length? line with
    | none => simp only [LacksCode, Piece.own, hEnd, Piece.holdCode, List.any_nil]
    | some n =>
      rw [LineScan.ofLine_closed hEnd] at h
      simp only [LacksCode, Piece.own, hEnd]
      exact hCode _ _ _ fun t ht => h t (List.mem_cons_of_mem _ ht)

theorem allLackCode_of_tokensFrom {base : Nat} {carry : Carry} {lines : List Text} {stop : Nat}
    (h : ∀ t ∈ tokensFrom base carry lines stop, t.kind = .comment) :
    AllLackCode carry.state lines := by
  induction lines generalizing base carry with
  | nil => trivial
  | cons line rest ih =>
    rw [tokensFrom_cons] at h
    have hRest : AllLackCode (LineScan.ofLine line base carry.state carry.openFrom).carry.state
        rest := ih fun t ht => h t (List.mem_append_right _ ht)
    exact ⟨lacksCode_of_tokens fun t ht => h t (List.mem_append_left _ ht), hRest⟩

/-- Lines that hold nothing but blanks and comments, the last of which ends in them. -/
structure CommentsOnly (block : List Text) : Prop where
  lines : ∀ line ∈ block, '\n' ∉ line
  tokens : ∀ t ∈ (classify (Text.ofLines block) .normal).tokens, t.kind = .comment
  exit : (classify (Text.ofLines block) .normal).exit = .normal

instance (block : List Text) : Decidable (CommentsOnly block) :=
  decidable_of_iff
    ((∀ line ∈ block, '\n' ∉ line) ∧
      (∀ t ∈ (classify (Text.ofLines block) .normal).tokens, t.kind = .comment) ∧
      (classify (Text.ofLines block) .normal).exit = .normal)
    ⟨fun ⟨hLines, hTokens, hExit⟩ => ⟨hLines, hTokens, hExit⟩,
      fun ⟨hLines, hTokens, hExit⟩ => ⟨hLines, hTokens, hExit⟩⟩

theorem CommentsOnly.lacks {block : List Text} (h : CommentsOnly block) :
    AllLackCode .normal block ∧ State.normal.after block = .normal := by
  by_cases hEmpty : block = []
  · subst hEmpty
    exact ⟨trivial, rfl⟩
  · obtain ⟨hLines, hTokens, hExit⟩ := h
    rw [classify_eq, Text.lines_ofLines hEmpty hLines] at hTokens hExit
    exact ⟨allLackCode_of_tokensFrom hTokens, hExit⟩

/-! ## Passes over lines -/

/-- What is kept after lines that stay as they are. -/
def Carried.across (c : Carried) : List Text → Carried
  | [] => c
  | line :: rest => across (c.next line line) rest

theorem Carried.across_append (c : Carried) (above below : List Text) :
    c.across (above ++ below) = (c.across above).across below := by
  induction above generalizing c with
  | nil => rfl
  | cons line rest ih => exact ih _

theorem Carried.state_across (c : Carried) (lines : List Text) :
    (c.across lines).state = c.state.after lines := by
  induction lines generalizing c with
  | nil => rfl
  | cons line rest ih => exact ih _

theorem Carried.state_after (offset : Nat) (c : Carried) (lines : List Text) :
    (c.after offset lines).state = c.state.after lines := by
  induction lines generalizing c with
  | nil => rfl
  | cons line rest ih => exact ih _

theorem Carried.next_of_lacksCode (c : Carried) (line : Text) {placed : Text}
    (h : LacksCode c.state placed) : c.next line placed = ⟨c.state.next line, c.level?⟩ := by
  rw [next, h.level, Option.none_or]

/-- Lines without code leave the level as it is, whether they are placed or not. -/
theorem Carried.across_of_allLackCode (c : Carried) {lines : List Text}
    (h : AllLackCode c.state lines) : c.across lines = ⟨c.state.after lines, c.level?⟩ := by
  induction lines generalizing c with
  | nil => rfl
  | cons line rest ih =>
    rw [across, next_of_lacksCode c line h.1]
    exact ih _ h.2

theorem Carried.after_of_allLackCode (offset : Nat) (c : Carried) {lines : List Text}
    (h : AllLackCode c.state lines) :
    c.after offset lines = ⟨c.state.after lines, c.level?⟩ := by
  induction lines generalizing c with
  | nil => rfl
  | cons line rest ih =>
    rw [after, next_of_lacksCode c line (lacksCode_place h.1 offset)]
    exact ih _ h.2

theorem levelAbove_eq_across {states : List State} {above : List Text}
    (h : ∀ k, k < above.length → states.getD k .normal = entryOf above k) :
    levelAbove states above = (Carried.start.across above).level? := by
  induction above using List.reverseRecOn with
  | nil => rfl
  | append_singleton above line ih =>
    have hState : states.getD above.length .normal = (Carried.start.across above).state := by
      rw [h above.length (by simp), entryOf, List.take_left, Carried.state_across]
      rfl
    have hAbove : ∀ k, k < above.length → states.getD k .normal = entryOf above k := by
      intro k hk
      rw [h k (by simp; omega), entryOf, entryOf, List.take_append_of_le_length (Nat.le_of_lt hk)]
    rw [levelAbove_concat, hState, ih hAbove, Carried.across_append]
    rfl

/-- **The column of a line** comes from one pass over the lines above it. -/
theorem column_ofLines {lines : List Text} {i : Nat} {line : Text} (h : lines[i]? = some line)
    (offset : Nat) :
    column (.ofLines lines) i offset =
      (Carried.start.across (lines.take i)).column offset (LineKind.ofLine line) := by
  obtain ⟨hLt, rfl⟩ := List.getElem?_eq_some_iff.1 h
  have hLength : (lines.take i).length = i := by
    rw [List.length_take]
    omega
  have hStates : ∀ k, k < (lines.take i).length →
      ((Buffer.ofLines lines).entryStates i).getD k .normal = entryOf (lines.take i) k := by
    intro k hk
    rw [hLength] at hk
    rw [entryStates_ofLines lines hk (List.getElem?_eq_getElem (by omega)), entryOf, entryOf,
      List.take_take, Nat.min_eq_left (Nat.le_of_lt hk)]
  have hCount : min i (Buffer.ofLines lines).count = i := Nat.min_eq_left (Nat.le_of_lt hLt)
  have hBuffer : lines.take i ++ lines[i] :: lines.drop (i + 1) = lines := by
    rw [List.getElem_cons_drop, List.take_append_drop]
  have hBelow : columnWith (.ofLines (lines.take i ++ lines[i] :: lines.drop (i + 1))) i offset
        ((Buffer.ofLines lines).entryStates i) =
      columnWith (.ofLines (lines.take i ++ [lines[i]])) i offset
        ((Buffer.ofLines lines).entryStates i) :=
    columnWith_ofLines hLength offset rfl fun _ _ => rfl
  rw [hBuffer] at hBelow
  have hPass := columnWith_eq_column offset ((Buffer.ofLines lines).entryStates i) (lines.take i)
    lines[i] (Carried.start.across (lines.take i)).state
  rw [hLength, levelAbove_eq_across hStates] at hPass
  rw [column, hCount, hBelow, hPass]

theorem getElem?_stream (offset : Nat) (c : Carried) {lines : List Text} {i : Nat} {line : Text}
    (h : lines[i]? = some line) :
    (stream offset c lines)[i]? =
      some ((c.after offset (lines.take i)).place offset line.dropReturn ++ line.ending) := by
  induction lines generalizing c i with
  | nil => cases h
  | cons first rest ih =>
    cases i with
    | zero =>
      cases h
      rfl
    | succ i => exact ih _ h

/-! ## Inserting a block -/

/-- The lines with a block put in front of line `k`, or behind the last if there is no such line. -/
def insertAt (k : Nat) (block lines : List Text) : List Text :=
  lines.take k ++ block ++ lines.drop k

/-- The number that line `i` has when `n` lines have been put in front of line `k`. -/
def shifted (k n i : Nat) : Nat := if i < k then i else i + n

theorem getElem?_insertAt {k : Nat} {block lines : List Text} {i : Nat} (hi : i < lines.length) :
    (insertAt k block lines)[shifted k block.length i]? = lines[i]? := by
  unfold insertAt shifted
  split
  · rw [List.append_assoc, List.getElem?_append_left (by rw [List.length_take]; omega),
      List.getElem?_take_of_lt ‹_›]
  · have hLength : (lines.take k ++ block).length = k + block.length := by
      rw [List.length_append, List.length_take, Nat.min_eq_left (by omega)]
    rw [List.getElem?_append_right (by omega), List.getElem?_drop, hLength]
    congr 1
    omega

/-- **A pass does not see the block** if it hands on what it was given. -/
theorem run_take_insertAt {run : Carried → List Text → Carried} {k : Nat}
    {block lines : List Text}
    (hAppend : ∀ c above below, run c (above ++ below) = run (run c above) below)
    (hBlock : run (run .start (lines.take k)) block = run .start (lines.take k)) {i : Nat}
    (hi : i < lines.length) :
    run .start ((insertAt k block lines).take (shifted k block.length i)) =
      run .start (lines.take i) := by
  unfold insertAt shifted
  split
  · rw [List.append_assoc, List.take_append_of_le_length (by rw [List.length_take]; omega),
      List.take_take, Nat.min_eq_left (by omega)]
  · have hLength : (lines.take k ++ block).length = k + block.length := by
      rw [List.length_append, List.length_take, Nat.min_eq_left (by omega)]
    have hAbove : lines.take i = lines.take k ++ (lines.drop k).take (i - k) := by
      rw [← List.take_add, Nat.add_sub_cancel' (by omega)]
    rw [List.take_append, List.take_of_length_le (by omega), hLength, hAppend, hAppend, hBlock,
      hAbove, hAppend]
    congr 2
    omega

section Insertion

variable {lines block : List Text} {k : Nat} (hLacks : AllLackCode .normal block)
  (hExit : State.normal.after block = .normal) (hEntry : entryOf lines k = .normal) {i : Nat}
  (hi : i < lines.length) (offset : Nat)

include hLacks hExit hEntry hi

/-- Columns around a block without code. -/
theorem column_insertAt :
    column (.ofLines (insertAt k block lines)) (shifted k block.length i) offset =
      column (.ofLines lines) i offset := by
  have hLine := List.getElem?_eq_getElem hi
  have hBlock : (Carried.start.across (lines.take k)).across block =
      Carried.start.across (lines.take k) := by
    have hState : (Carried.start.across (lines.take k)).state = .normal := by
      rw [Carried.state_across]
      exact hEntry
    rw [Carried.across_of_allLackCode _ (by rwa [hState]), hState, hExit, ← hState]
  rw [column_ofLines hLine, column_ofLines ((getElem?_insertAt hi).trans hLine),
    run_take_insertAt Carried.across_append hBlock hi]

/-- Lines in their places around a block without code. -/
theorem getElem?_stream_insertAt :
    (stream offset .start (insertAt k block lines))[shifted k block.length i]? =
      (stream offset .start lines)[i]? := by
  have hLine := List.getElem?_eq_getElem hi
  have hBlock : (Carried.start.after offset (lines.take k)).after offset block =
      Carried.start.after offset (lines.take k) := by
    have hState : (Carried.start.after offset (lines.take k)).state = .normal := by
      rw [Carried.state_after]
      exact hEntry
    rw [Carried.after_of_allLackCode _ _ (by rwa [hState]), hState, hExit, ← hState]
  have hPass : Carried.start.after offset
        ((insertAt k block lines).take (shifted k block.length i)) =
      Carried.start.after offset (lines.take i) :=
    run_take_insertAt (Carried.after_append offset) hBlock hi
  rw [getElem?_stream _ _ hLine, getElem?_stream _ _ ((getElem?_insertAt hi).trans hLine), hPass]

end Insertion

theorem newline_notMem_insertAt {k : Nat} {block lines : List Text}
    (hBlock : ∀ line ∈ block, '\n' ∉ line) (hLines : ∀ line ∈ lines, '\n' ∉ line) :
    ∀ line ∈ insertAt k block lines, '\n' ∉ line := by
  intro line hLine
  rcases List.mem_append.1 hLine with hFront | hDrop
  · rcases List.mem_append.1 hFront with hTake | hBlk
    · exact hLines line (List.mem_of_mem_take hTake)
    · exact hBlock line hBlk
  · exact hLines line (List.mem_of_mem_drop hDrop)

theorem map_insertAt (f : Text → Text) (k : Nat) (block lines : List Text) :
    (insertAt k block lines).map f = insertAt k (block.map f) (lines.map f) := by
  simp [insertAt, List.map_take, List.map_drop]

theorem entryOf_map_dropReturn (lines : List Text) (k : Nat) :
    entryOf (lines.map Text.dropReturn) k = entryOf lines k := by
  unfold entryOf
  rw [← List.map_take]
  generalize lines.take k = above
  generalize State.normal = entry
  induction above generalizing entry with
  | nil => rfl
  | cons line rest ih =>
    show (entry.next line.dropReturn).after _ = (entry.next line).after rest
    rw [State.next_dropReturn, ih]

/-- **Blank lines and comments have no effect on other lines.** A block of lines with nothing but
blanks and comments is put between lines that are parted in code, or behind the last. Then every
other line has the column that it had, in the buffer of the lines and in the buffer of their text,
and indenting the text gives it the same text. -/
theorem insertAt_transparent {lines block : List Text} {k : Nat}
    (hLines : ∀ line ∈ lines, '\n' ∉ line) (hBlock : CommentsOnly block)
    (hEntry : entryOf lines k = .normal) (offset : Nat) :
    ∀ i, i < lines.length →
      let j := shifted k block.length i
      let text := Text.ofLines lines
      let text' := Text.ofLines (insertAt k block lines)
      column (.ofLines (insertAt k block lines)) j offset = column (.ofLines lines) i offset ∧
        column (.ofText text') j offset = column (.ofText text) i offset ∧
        (reindent offset text').lines[j]? = (reindent offset text).lines[i]? := by
  intro i hi j text text'
  obtain ⟨hLacks, hExit⟩ := hBlock.lacks
  have hNe : lines ≠ [] := List.ne_nil_of_length_pos (by omega)
  have hNe' : insertAt k block lines ≠ [] := by
    intro hNil
    have hLine : (insertAt k block lines)[shifted k block.length i]? = lines[i]? :=
      getElem?_insertAt hi
    rw [hNil, List.getElem?_eq_getElem hi] at hLine
    cases hLine
  have hText : text.lines = lines := Text.lines_ofLines hNe hLines
  have hText' : text'.lines = insertAt k block lines :=
    Text.lines_ofLines hNe' (newline_notMem_insertAt hBlock.lines hLines)
  refine ⟨column_insertAt hLacks hExit hEntry hi offset, ?_, ?_⟩
  · have hExit' : State.normal.after (block.map Text.dropReturn) = .normal := by
      have hMap := entryOf_map_dropReturn block block.length
      rw [entryOf, entryOf, List.take_of_length_le (by simp), List.take_length, hExit] at hMap
      exact hMap
    have hColumn := column_insertAt hLacks.map_dropReturn hExit'
      ((entryOf_map_dropReturn lines k).trans hEntry)
      (by rwa [List.length_map] : i < (lines.map Text.dropReturn).length) offset
    rw [Buffer.ofText, Buffer.ofText, hText, hText', map_insertAt]
    rwa [List.length_map] at hColumn
  · rw [lines_reindent_eq_stream, lines_reindent_eq_stream, hText, hText']
    exact getElem?_stream_insertAt hLacks hExit hEntry hi offset

/-- A comment over three lines, a line comment and a blank line are put into a loop, and words that
open blocks stand in them. -/
theorem insertAt_transparent_in_loop :
    let lines := ["do i = 1 to 3\r".toList, "say i".toList, "end".toList]
    let block := ["/* do".toList, "  select".toList, " then */ -- do\r".toList, "\t".toList]
    CommentsOnly block ∧ entryOf lines 1 = .normal ∧
      column (.ofLines (insertAt 1 block lines)) 5 3 = 3 ∧
      (reindent 3 (Text.ofLines (insertAt 1 block lines))).lines[5]? = some "   say i".toList := by
  intro lines block
  have hBlock : CommentsOnly block := by decide +kernel
  have hEntry : entryOf lines 1 = .normal := by decide +kernel
  obtain ⟨hColumn, -, hLine⟩ :=
    insertAt_transparent (by decide +kernel) hBlock hEntry 3 1 (by decide +kernel)
  have hShift : shifted 1 block.length 1 = 5 := rfl
  rw [hShift] at hColumn hLine
  refine ⟨hBlock, hEntry, hColumn.trans ?_, hLine.trans ?_⟩
  · decide +kernel
  · decide +kernel

end Indent

end RexxEditing
