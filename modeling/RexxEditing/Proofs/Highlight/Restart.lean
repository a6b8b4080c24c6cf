import RexxEditing.Proofs.Highlight.Scan

/-! # Restarting at a line

A text can be classified in two parts. The second part is entered in the state in which the first
one ends, and its tokens follow those of the first. A region that is open in between is cut in two
tokens by this, and one token in the whole.

* `exists_tokensFrom_inside`: the start of an open region is nothing but the start of the first
  token.
* `classify_append_newline_of_normal`, `classify_append_newline_of_inside`: the tokens of the parts
  and of the whole, for a cut in code and for a cut in a region.
* `classify_append_newline`: the restart law.
-/

namespace RexxEditing

/-! ## Tokens from a line on -/

theorem tokensFrom_append (base : Nat) (carry : Carry) (xs ys : List Text) (stop : Nat) :
    tokensFrom base carry (xs ++ ys) stop =
      (scanLines base carry xs).1 ++
        tokensFrom (base + Text.linesSize xs) (scanLines base carry xs).2 ys stop := by
  simp only [tokensFrom, scanLines_append, List.append_assoc]

theorem tokensFrom_shift (base n : Nat) (carry : Carry) (lines : List Text) (stop : Nat) :
    tokensFrom (base + n) (carry.shift n) lines (stop + n) =
      (tokensFrom base carry lines stop).map (·.shift n) := by
  simp only [tokensFrom, scanLines_shift, Carry.openToken?_shift, Option.toList_map,
    List.map_append]

/-- **Open regions.** Lines that are entered in a region give a token of the region first, and the
start of the region is found nowhere else in their tokens. -/
theorem exists_tokensFrom_inside (region : Region) (lines : List Text) (base stop : Nat) :
    ∃ first rest, ∀ start, start < stop →
      tokensFrom base ⟨.inside region, some start⟩ lines stop =
        ⟨region.kind, start, first⟩ :: rest := by
  induction lines generalizing base with
  | nil =>
    refine ⟨stop, [], fun start hStart => ?_⟩
    simp [tokensFrom, scanLines, Carry.openToken?_inside hStart]
  | cons line rest ih =>
    cases hLength : region.length? line with
    | none =>
      obtain ⟨first, more, hMore⟩ := ih (base + line.byteSize + 1)
      refine ⟨first, more, fun start hStart => ?_⟩
      rw [tokensFrom_cons, LineScan.ofLine_unclosed hLength]
      exact hMore start hStart
    | some n =>
      -- the region ends here, so what follows is entered in the same way from any start
      let last := base + Text.byteSize (line.take n)
      let code := LineScan.ofCode (line.drop n) last [.closed region (line.take n)]
      refine ⟨last, code.tokens ++ tokensFrom (base + line.byteSize + 1) code.carry rest stop,
        fun start _ => ?_⟩
      rw [tokensFrom_cons, LineScan.ofLine_closed hLength]
      rfl

/-- An empty last line adds nothing to the region that is open. -/
theorem tokensFrom_empty_line {carry : Carry} {bound : Nat} (h : carry.IsOpenBy bound)
    (base stop : Nat) : tokensFrom base carry [[]] stop = (carry.openToken? stop).toList := by
  obtain ⟨state, openFrom⟩ := carry
  rcases h with ⟨hState, hOpen⟩ | ⟨region, start, hCarry, -⟩
  · simp only at hState hOpen
    subst hState hOpen
    simp [tokensFrom, scanLines, LineScan.ofLine_normal, LineScan.ofCode, Piece.ofCode,
      Piece.locate, Piece.exitState, LineScan.unclosedFrom?]
  · obtain ⟨rfl, rfl⟩ := Carry.mk.inj hCarry
    rw [tokensFrom_cons, LineScan.ofLine_unclosed region.length?_nil]
    rfl

theorem classify_nil (entry : State) : classify [] entry = ⟨[], entry⟩ := by
  have hTokens : tokensFrom 0 ⟨entry, none⟩ [[]] 0 = [] := by
    cases entry with
    | normal =>
      have hCarry : Carry.IsOpenBy ⟨.normal, none⟩ 0 := Or.inl ⟨rfl, rfl⟩
      exact tokensFrom_empty_line hCarry 0 0
    | inside region =>
      rw [tokensFrom_none (by simp), tokensFrom_empty_line (Or.inr ⟨region, 0, rfl, Nat.le_refl 0⟩)]
      simp [Carry.openToken?, State.kind?]
  rw [classify_eq]
  simp [Text.lines, hTokens, State.after, State.next_nil]

/-! ## The restart law -/

section Restart

variable (a b : Text) (entry : State)

/-- The tokens that are complete before the line feed after `a`, and what is handed on there. -/
def scanBefore : List Token × Carry := scanLines 0 ⟨entry, none⟩ a.lines

theorem scanBefore_carry : (scanBefore a entry).2.IsOpenBy a.byteSize := by
  have h := scanLines_carry (Text.lines_ne_nil a) 0 ⟨entry, none⟩ (Nat.le_refl 0)
  rwa [Text.linesSize_lines, Nat.zero_add] at h

theorem classify_newline_exit :
    (classify (a ++ ['\n']) entry).exit = (scanBefore a entry).2.state := by
  rw [classify_eq, Text.lines_append_newline, scanBefore, scanLines_state]
  simp [State.after, Text.lines, State.next_nil]

theorem classify_append_newline_tokens :
    (classify (a ++ '\n' :: b) entry).tokens =
      (scanBefore a entry).1 ++ tokensFrom (a.byteSize + 1) (scanBefore a entry).2 b.lines
        (a.byteSize + 1 + b.byteSize) := by
  have hSize : Text.byteSize (a ++ '\n' :: b) = a.byteSize + 1 + b.byteSize := by
    rw [Text.byteSize_append, Text.byteSize_cons, Nat.add_assoc]
    rfl
  rw [classify_eq, Text.lines_append_newline, hSize]
  simp only [tokensFrom_append, Text.linesSize_lines, Nat.zero_add, scanBefore]

theorem classify_newline_tokens :
    (classify (a ++ ['\n']) entry).tokens =
      (scanBefore a entry).1 ++ ((scanBefore a entry).2.openToken? (a.byteSize + 1)).toList := by
  rw [classify_append_newline_tokens a [] entry]
  exact congrArg _ (tokensFrom_empty_line (scanBefore_carry a entry) _ _)

end Restart

/-- The tokens of a text that starts at byte `n` of another and is entered in code. -/
theorem tokensFrom_lines_normal (b : Text) (n : Nat) :
    tokensFrom n ⟨.normal, none⟩ b.lines (n + b.byteSize) =
      (classify b .normal).tokens.map (·.shift n) := by
  have h := tokensFrom_shift 0 n ⟨.normal, none⟩ b.lines b.byteSize
  rw [classify_eq, ← h, Nat.zero_add, Nat.add_comm n]
  rfl

/-- The tokens of a text that starts at byte `n` of another inside a region that was opened at byte
`start`: only the first of them is not where the text has it. -/
theorem tokensFrom_lines_inside {b : Text} (hb : b ≠ []) {n start : Nat} (h : start < n)
    (region : Region) :
    ∃ stop rest, (classify b (.inside region)).tokens = ⟨region.kind, 0, stop⟩ :: rest ∧
      tokensFrom n ⟨.inside region, some start⟩ b.lines (n + b.byteSize) =
        ⟨region.kind, start, n + stop⟩ :: rest.map (·.shift n) := by
  obtain ⟨c, cs, rfl⟩ := List.exists_cons_of_ne_nil hb
  have hPos : 0 < Text.byteSize (c :: cs) := by
    have := c.utf8Size_pos
    simp only [Text.byteSize_cons]
    omega
  obtain ⟨stop, rest, hBelow⟩ :=
    exists_tokensFrom_inside region (Text.lines (c :: cs)) 0 (Text.byteSize (c :: cs))
  obtain ⟨stop', rest', hAt⟩ :=
    exists_tokensFrom_inside region (Text.lines (c :: cs)) n (n + Text.byteSize (c :: cs))
  -- a region that starts with the text has its tokens at both places
  have hShift := tokensFrom_shift 0 n ⟨.inside region, some 0⟩ (Text.lines (c :: cs))
    (Text.byteSize (c :: cs))
  have hMoved := hAt n (by omega)
  rw [hBelow 0 hPos, Nat.zero_add, Nat.add_comm _ n, Carry.shift, Option.map_some, Nat.zero_add,
    hMoved, List.map_cons, List.cons.injEq] at hShift
  obtain ⟨hFirst, rfl⟩ := hShift
  have hStop : stop' = n + stop := by
    have := congrArg (·.span.stop) hFirst
    simp only [Token.shift, Span.shift] at this
    omega
  refine ⟨stop, rest, ?_, ?_⟩
  · rw [classify_eq]
    simp only [tokensFrom_none (Text.lines_ne_nil _), hBelow 0 hPos]
  · rw [hAt start (by omega), hStop]

/-- A cut in code leaves every token whole. -/
theorem classify_append_newline_of_normal {a : Text} {entry : State}
    (h : (classify (a ++ ['\n']) entry).exit = .normal) (b : Text) :
    (classify (a ++ '\n' :: b) entry).tokens =
      (classify (a ++ ['\n']) entry).tokens ++
        (classify b .normal).tokens.map (·.shift (a.byteSize + 1)) := by
  rw [classify_newline_exit] at h
  rcases scanBefore_carry a entry with ⟨hState, hOpen⟩ | ⟨region, start, hCarry, -⟩
  · have hCarry : (scanBefore a entry).2 = ⟨.normal, none⟩ := by
      rw [← hState, ← hOpen]
    rw [classify_append_newline_tokens, classify_newline_tokens, hCarry, tokensFrom_lines_normal]
    simp [Carry.openToken?]
  · rw [hCarry] at h
    cases h

/-- A cut in a region cuts its token in two. -/
theorem classify_append_newline_of_inside {a : Text} {entry : State} {region : Region}
    (h : (classify (a ++ ['\n']) entry).exit = .inside region) {b : Text} (hb : b ≠ []) :
    ∃ init start stop rest,
      (classify (a ++ ['\n']) entry).tokens = init ++ [⟨region.kind, start, a.byteSize + 1⟩] ∧
      (classify b (.inside region)).tokens = ⟨region.kind, 0, stop⟩ :: rest ∧
      (classify (a ++ '\n' :: b) entry).tokens =
        init ++ ⟨region.kind, start, a.byteSize + 1 + stop⟩ ::
          rest.map (·.shift (a.byteSize + 1)) := by
  rw [classify_newline_exit] at h
  rcases scanBefore_carry a entry with ⟨hState, -⟩ | ⟨region', start, hCarry, hStart⟩
  · rw [hState] at h
    cases h
  · rw [hCarry] at h
    cases h
    have hLt : start < a.byteSize + 1 := Nat.lt_succ_of_le hStart
    obtain ⟨stop, rest, hBelow, hJoined⟩ := tokensFrom_lines_inside hb hLt region
    refine ⟨(scanBefore a entry).1, start, stop, rest, ?_, hBelow, ?_⟩
    · rw [classify_newline_tokens, hCarry, Carry.openToken?_inside hLt]
      rfl
    · rw [classify_append_newline_tokens, hCarry, hJoined]

/-- **Restart law.** A text that is cut at a line feed is classified in two parts, the second one
from the state in which the first one ends. The exit state and the line states are those of the
parts. So are the tokens if the cut is in code or nothing follows it. Otherwise the last token of
the first part and the first token of the second part are one region, and the whole has one token in
their place. -/
theorem classify_append_newline (a b : Text) (entry : State) :
    let n := a.byteSize + 1
    let above := classify (a ++ ['\n']) entry
    let below := classify b above.exit
    let whole := classify (a ++ '\n' :: b) entry
    whole.exit = below.exit ∧
      lineStates (a ++ '\n' :: b) entry = lineStates a entry ++ lineStates b above.exit ∧
      (above.exit = .normal ∨ b = [] →
        whole.tokens = above.tokens ++ below.tokens.map (·.shift n)) ∧
      ∀ region, above.exit = .inside region → b ≠ [] →
        ∃ init start stop rest,
          above.tokens = init ++ [⟨region.kind, start, n⟩] ∧
          below.tokens = ⟨region.kind, 0, stop⟩ :: rest ∧
          whole.tokens = init ++ ⟨region.kind, start, n + stop⟩ :: rest.map (·.shift n) := by
  intro n above below whole
  have hAfter : above.exit = entry.after a.lines :=
    (classify_newline_exit a entry).trans (scanLines_state 0 _ _)
  refine ⟨?_, ?_, ?_, ?_⟩
  · simp only [whole, below, classify_eq, Text.lines_append_newline, hAfter, State.after,
      List.foldl_append]
  · rw [lineStates, Text.lines_append_newline, State.sequence_append, hAfter]
    rfl
  · rintro (hNormal | rfl)
    · simp only [below, hNormal]
      exact classify_append_newline_of_normal hNormal b
    · simp [whole, above, below, classify_nil]
  · intro region hInside hb
    simp only [below, hInside]
    exact classify_append_newline_of_inside hInside hb

end RexxEditing
