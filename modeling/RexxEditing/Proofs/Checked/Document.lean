import RexxEditing.Proofs.Checked.Line
import RexxEditing.Proofs.Highlight.Restart

/-! # Classifying a text at checked offsets

A text is classified on demand. The next token comes from a queue, and as long as that is empty the
next line is cut out of the text and scanned. So there are two loops, one inside the other: over the
lines up to the next token, and over the tokens.

* `advanceLine?_append`: one more line.
* `collect?_append`: both loops end, with the tokens of the lines.
* `classify?_eq`, `lineStates?_eq`: a text is classified without fault.
-/

namespace RexxEditing.Checked

open Text (byteSize)

/-- A loop sees of a state only the step that it takes there. -/
theorem loop?_congr {σ ρ : Type} {step : σ → Option (ρ ⊕ σ)} {s s' : σ} (h : step s = step s') :
    loop? step s = loop? step s' := by
  have hFix : (steps step).fix s = (steps step).fix s' := by
    apply Part.ext
    intro r
    rw [PFun.mem_fix_iff, PFun.mem_fix_iff, steps, steps, h]
  unfold loop?
  rw [hFix]

/-! ## Finding a character -/

/-- The byte where the first character with the given property stands. -/
def findByte? (p : Char → Bool) (t : Text) : Option Nat :=
  if t.any p then some (byteSize (t.takeWhile (!p ·))) else none

theorem findByte?_append {p : Char → Bool} {a : Text} (ha : ∀ c ∈ a, p c = false) {c : Char}
    (hc : p c = true) (b : Text) : findByte? p (a ++ c :: b) = some a.byteSize := by
  have hAny : (a ++ c :: b).any p = true := by simp [hc]
  have hTake : (a ++ c :: b).takeWhile (!p ·) = a := by
    rw [List.takeWhile_append_of_pos fun d hd => by rw [ha d hd]; rfl,
      List.takeWhile_cons_of_neg (by simp [hc]), List.append_nil]
  rw [findByte?, if_pos hAny, hTake]

theorem findByte?_eq_none {p : Char → Bool} {t : Text} (h : ∀ c ∈ t, p c = false) :
    findByte? p t = none := by
  apply if_neg
  rw [List.any_eq_true]
  rintro ⟨c, hc, hp⟩
  rw [h c hc] at hp
  cases hp

/-! ## Lines -/

/-- How far a text is classified. -/
structure Progress where
  /-- The start of the next line. -/
  cursor : Nat
  carry : Carry
  /-- The tokens that have not been given out. -/
  queue : List Token

/-- The line at the front of a text, and the byte behind it and its line feed. -/
def firstLine? (rest : Text) : Option (Text × Nat) :=
  match findByte? (· == '\n') rest with
  | some n => (rest.slice? 0 n).map fun line => (line, n + 1)
  | none => some (rest, rest.byteSize)

/-- Scans the next line of a text. -/
noncomputable def advanceLine? (text : Text) (p : Progress) : Option Progress := do
  let (_, rest) ← text.cut? p.cursor
  let (line, stop) ← firstLine? rest
  let scan ← scanLine? line p.cursor p.carry.state p.carry.openFrom
  return ⟨p.cursor + stop, scan.carry, p.queue ++ scan.tokens⟩

theorem beq_newline_of_notMem {line : Text} (h : '\n' ∉ line) :
    ∀ c ∈ line, (c == '\n') = false := by
  intro c hc
  rw [beq_eq_false_iff_ne]
  exact fun e => h (e ▸ hc)

theorem firstLine?_feed {line : Text} (h : '\n' ∉ line) (rest : Text) :
    firstLine? (line ++ '\n' :: rest) = some (line, line.byteSize + 1) := by
  have hSlice : (line ++ '\n' :: rest).slice? 0 line.byteSize = some line := by
    simpa using Text.slice?_append [] line ('\n' :: rest)
  rw [firstLine?, findByte?_append (beq_newline_of_notMem h) rfl]
  simp only [hSlice, Option.map_some]

theorem firstLine?_last {line : Text} (h : '\n' ∉ line) :
    firstLine? line = some (line, line.byteSize) := by
  rw [firstLine?, findByte?_eq_none (beq_newline_of_notMem h)]

theorem advanceLine?_eq {front rest line : Text} {stop : Nat}
    (hLine : firstLine? rest = some (line, stop)) {carry : Carry}
    (h : carry.openFrom.getD front.byteSize ≤ front.byteSize) :
    advanceLine? (front ++ rest) ⟨front.byteSize, carry, []⟩ =
      let scan := LineScan.ofLine line front.byteSize carry.state carry.openFrom
      some ⟨front.byteSize + stop, scan.carry, scan.tokens⟩ := by
  rw [advanceLine?, Text.cut?_append]
  simp only [Option.bind_eq_bind, Option.bind_some, hLine, scanLine?_eq line carry.state h]
  rfl

/-- A region that code hands on starts before the end of the code. -/
theorem ofCode_carry_pred (code : Text) (base : Nat) (before : List Piece) :
    (LineScan.ofCode code base before).carry.IsOpenBy (base + code.byteSize - 1) := by
  rcases LineScan.ofCode_cases code base before with
    ⟨hExit, hOpen, -⟩ | ⟨init, region, text, hCode, hText, -, hExit, hOpen⟩
  · exact Or.inl ⟨hExit, hOpen⟩
  · refine Or.inr ⟨region, _, by rw [LineScan.carry, hExit, hOpen], ?_⟩
    have hParts := Piece.flatMap_text_ofCode code
    rw [hCode, List.flatMap_append] at hParts
    have hSize : code.byteSize = byteSize (init.flatMap Piece.text) + byteSize text := by
      rw [← hParts, Text.byteSize_append]
      simp [Piece.text]
    have hPos := Text.byteSize_pos hText
    omega

/-- A region that a line hands on starts before the end of the line. -/
theorem ofLine_carry_pred {line : Text} (hne : line ≠ []) {base : Nat} (entry : State)
    {openFrom : Option Nat} (h : openFrom.getD base ≤ base) :
    (LineScan.ofLine line base entry openFrom).carry.IsOpenBy (base + line.byteSize - 1) := by
  have hPos := Text.byteSize_pos hne
  cases entry with
  | normal => exact ofCode_carry_pred line base []
  | inside region =>
    cases hLength : region.length? line with
    | none =>
      rw [LineScan.ofLine_unclosed hLength]
      exact Or.inr ⟨region, _, rfl, by omega⟩
    | some n =>
      rw [LineScan.ofLine_closed hLength]
      have hCode := ofCode_carry_pred (line.drop n) (base + byteSize (line.take n))
        [.closed region (line.take n)]
      rwa [Nat.add_assoc, ← Text.byteSize_append, List.take_append_drop] at hCode

theorem getD_le_of_isOpenBy {carry : Carry} {stop cursor : Nat} (h : carry.IsOpenBy stop)
    (hCursor : stop ≤ cursor) : carry.openFrom.getD cursor ≤ cursor := by
  rcases h with ⟨-, hNone⟩ | ⟨region, start, rfl, hStart⟩
  · rw [hNone]
    exact Nat.le_refl _
  · exact Nat.le_trans hStart hCursor

/-- What is known in front of the line at byte `cursor`: the region that it is entered in, if any,
starts before it. At the end of the text the region is not empty. -/
def IsReady (cursor : Nat) (carry : Carry) (rest : Text) : Prop :=
  carry.openFrom.getD cursor ≤ cursor ∧
    (rest = [] → 0 < cursor ∧ carry.IsOpenBy (cursor - 1))

theorem isReady_of_isOpenBy {carry : Carry} {cursor : Nat} (hPos : 0 < cursor)
    (h : carry.IsOpenBy (cursor - 1)) (rest : Text) : IsReady cursor carry rest :=
  ⟨getD_le_of_isOpenBy h (Nat.sub_le _ _), fun _ => ⟨hPos, h⟩⟩

/-- **One more line.** A line is cut out of the text and scanned, and the rest of the text is
shorter. -/
theorem advanceLine?_append {front rest : Text} (hne : rest ≠ []) {carry : Carry}
    (h : carry.openFrom.getD front.byteSize ≤ front.byteSize) :
    ∃ done below carry' queue, rest = done ++ below ∧ done ≠ [] ∧
      advanceLine? (front ++ rest) ⟨front.byteSize, carry, []⟩ =
        some ⟨byteSize (front ++ done), carry', queue⟩ ∧
      IsReady (byteSize (front ++ done)) carry' below ∧
      (∀ stop, tokensFrom front.byteSize carry rest.lines stop =
        queue ++ tokensFrom (byteSize (front ++ done)) carry' below.lines stop) ∧
      carry.state.after rest.lines = carry'.state.after below.lines := by
  by_cases hFeed : '\n' ∈ rest
  · obtain ⟨line, below, rfl, hLine⟩ := List.eq_append_cons_of_mem hFeed
    have hLines : Text.lines (line ++ '\n' :: below) = line :: Text.lines below := by
      rw [Text.lines_append_newline, Text.lines_of_newline_notMem hLine, List.singleton_append]
    have hCursor : byteSize (front ++ (line ++ ['\n'])) =
        front.byteSize + (byteSize line + 1) := by
      rw [Text.byteSize_append, Text.byteSize_append]
      rfl
    have hAdvance := advanceLine?_eq (firstLine?_feed hLine below) h
    rw [← hCursor] at hAdvance
    refine ⟨line ++ ['\n'], below, _, _, by simp, by simp, hAdvance, ?_, ?_, ?_⟩
    · rw [hCursor]
      exact isReady_of_isOpenBy (Nat.succ_pos _) (LineScan.ofLine_carry line carry.state h) _
    · intro stop
      rw [hLines, tokensFrom_cons, hCursor, ← Nat.add_assoc]
    · rw [hLines]
      rfl
  · have hLines := Text.lines_of_newline_notMem hFeed
    have hPos := Text.byteSize_pos hne
    have hOpen := ofLine_carry_pred hne carry.state h
    have hAdvance := advanceLine?_eq (firstLine?_last hFeed) h
    rw [← Text.byteSize_append] at hAdvance
    refine ⟨rest, [], _, _, by simp, hne, hAdvance, ?_, ?_, ?_⟩
    · rw [Text.byteSize_append]
      exact isReady_of_isOpenBy (by omega) hOpen _
    · intro stop
      rw [hLines, tokensFrom_cons]
      exact congrArg _ (tokensFrom_empty_line hOpen _ _).symm
    · rw [hLines]
      exact (State.next_nil _).symm

/-! ## Tokens -/

/-- The token of the region that is open at the end of the text, which is given out once. -/
def finish? (text : Text) (p : Progress) : Option (Option Token × Progress) :=
  match p.carry.openFrom with
  | none => some (none, p)
  | some start =>
    let p := { p with carry := { p.carry with openFrom := none } }
    match p.carry.state.kind? with
    | none => some (none, p)
    | some kind => (Token.ofSpan? kind ⟨start, text.byteSize⟩).map fun token => (some token, p)

/-- One round on the way to the next token. -/
noncomputable def nextStep? (text : Text) (p : Progress) :
    Option ((Option Token × Progress) ⊕ Progress) :=
  match p.queue with
  | token :: queue => some (.inl (some token, { p with queue }))
  | [] =>
    if p.cursor < text.byteSize then (advanceLine? text p).map .inr
    else (finish? text p).map .inl

noncomputable def next? (text : Text) (p : Progress) : Option (Option Token × Progress) :=
  loop? (nextStep? text) p

noncomputable def collectStep? (text : Text) (tokens : List Token) (p : Progress) :
    Option ((List Token × Progress) ⊕ (List Token × Progress)) := do
  match ← next? text p with
  | (some token, p) => return .inr (tokens ++ [token], p)
  | (none, p) => return .inl (tokens, p)

noncomputable def collect? (text : Text) (tokens : List Token) (p : Progress) :
    Option (List Token × Progress) :=
  loop? (fun (tokens, p) => collectStep? text tokens p) (tokens, p)

noncomputable def classify? (text : Text) (entry : State) : Option Classification := do
  let (tokens, p) ← collect? text [] ⟨0, ⟨entry, none⟩, []⟩
  return ⟨tokens, p.carry.state⟩

section Collect

variable {text : Text} {tokens : List Token} {p p' : Progress}

theorem collect?_done (h : next? text p = some (none, p')) :
    collect? text tokens p = some (tokens, p') := by
  apply loop?_done
  simp only [collectStep?, h]
  rfl

theorem collect?_token {token : Token} (h : next? text p = some (some token, p')) :
    collect? text tokens p = collect? text (tokens ++ [token]) p' := by
  apply loop?_next
  simp only [collectStep?, h]
  rfl

/-- The tokens of the queue are taken first. -/
theorem collect?_queue (cursor : Nat) (carry : Carry) (queue : List Token) :
    collect? text tokens ⟨cursor, carry, queue⟩ =
      collect? text (tokens ++ queue) ⟨cursor, carry, []⟩ := by
  induction queue generalizing tokens with
  | nil => rw [List.append_nil]
  | cons token queue ih =>
    have hNext : next? text ⟨cursor, carry, token :: queue⟩ =
        some (some token, ⟨cursor, carry, queue⟩) := loop?_done rfl
    rw [collect?_token hNext, ih, List.append_assoc, List.singleton_append]

/-- A line is scanned when the queue is empty. -/
theorem collect?_advance {cursor : Nat} {carry : Carry} (hCursor : cursor < text.byteSize)
    (h : advanceLine? text ⟨cursor, carry, []⟩ = some p) :
    collect? text tokens ⟨cursor, carry, []⟩ = collect? text tokens p := by
  have hNext : next? text ⟨cursor, carry, []⟩ = next? text p := by
    apply loop?_next
    simp only [nextStep?, if_pos hCursor, h, Option.map_some]
  apply loop?_congr
  simp only [collectStep?, hNext]

/-- At the end of the text the open region is the last token. -/
theorem collect?_end {carry : Carry} (hPos : 0 < text.byteSize)
    (h : carry.IsOpenBy (text.byteSize - 1)) :
    collect? text tokens ⟨text.byteSize, carry, []⟩ =
      some (tokens ++ (carry.openToken? text.byteSize).toList,
        ⟨text.byteSize, ⟨carry.state, none⟩, []⟩) := by
  have hNone (state : State) : next? text ⟨text.byteSize, ⟨state, none⟩, []⟩ =
      some (none, ⟨text.byteSize, ⟨state, none⟩, []⟩) := by
    apply loop?_done
    simp only [nextStep?, if_neg (Nat.lt_irrefl _)]
    rfl
  obtain ⟨state, openFrom⟩ := carry
  rcases h with ⟨-, hNo⟩ | ⟨region, start, hCarry, hStart⟩
  · obtain rfl : openFrom = none := hNo
    rw [collect?_done (hNone state)]
    simp [Carry.openToken?]
  · obtain ⟨rfl, rfl⟩ := Carry.mk.inj hCarry
    have hLess : start < text.byteSize := by omega
    have hToken : next? text ⟨text.byteSize, ⟨.inside region, some start⟩, []⟩ =
        some (some ⟨region.kind, start, text.byteSize⟩,
          ⟨text.byteSize, ⟨.inside region, none⟩, []⟩) := by
      apply loop?_done
      simp only [nextStep?, if_neg (Nat.lt_irrefl _), finish?, State.kind?,
        ofSpan?_of_le (Nat.le_of_lt hLess), Option.map_some]
    rw [collect?_token hToken, collect?_done (hNone _), Carry.openToken?_inside hLess]
    rfl

end Collect

/-- **The tokens of the rest of a text.** Both loops end, with the tokens of the lines that are
left. -/
theorem collect?_append {front rest : Text} {carry : Carry}
    (h : IsReady front.byteSize carry rest) (tokens : List Token) :
    ∃ p, collect? (front ++ rest) tokens ⟨front.byteSize, carry, []⟩ =
        some (tokens ++ tokensFrom front.byteSize carry rest.lines (byteSize (front ++ rest)), p) ∧
      p.carry.state = carry.state.after rest.lines := by
  -- every line that is scanned leaves a shorter rest
  induction hLength : rest.length using Nat.strongRecOn generalizing front rest carry tokens with
  | ind length ih =>
    subst hLength
    obtain ⟨hStart, hEnd⟩ := h
    by_cases hne : rest = []
    · subst hne
      obtain ⟨hPos, hOpen⟩ := hEnd rfl
      rw [List.append_nil, Text.lines, tokensFrom_empty_line hOpen, collect?_end hPos hOpen]
      exact ⟨_, rfl, (State.next_nil _).symm⟩
    · obtain ⟨done, below, carry', queue, rfl, hDone, hAdvance, hReady, hTokens, hState⟩ :=
        advanceLine?_append hne hStart
      have hLess : front.byteSize < byteSize (front ++ (done ++ below)) := by
        have hPos := Text.byteSize_pos hDone
        simp only [Text.byteSize_append]
        omega
      have hShorter : below.length < (done ++ below).length := by
        rw [List.length_append]
        have := List.length_pos_iff.2 hDone
        omega
      obtain ⟨p, hCollect, hExit⟩ := ih _ hShorter hReady (tokens ++ queue) rfl
      refine ⟨p, ?_, hExit.trans hState.symm⟩
      rw [collect?_advance hLess hAdvance, collect?_queue, hTokens, ← List.append_assoc tokens,
        ← List.append_assoc front]
      exact hCollect

/-- **Classification is total.** All offsets are in order, and both loops end. -/
theorem classify?_eq (text : Text) (entry : State) :
    classify? text entry = some (classify text entry) := by
  by_cases hne : text = []
  · have hNext : next? [] ⟨0, ⟨entry, none⟩, []⟩ = some (none, ⟨0, ⟨entry, none⟩, []⟩) :=
      loop?_done rfl
    rw [hne, classify_nil, classify?, collect?_done hNext]
    rfl
  · obtain ⟨p, hCollect, hState⟩ := @collect?_append [] text ⟨entry, none⟩
      ⟨Nat.le_refl _, fun h => absurd h hne⟩ []
    rw [List.nil_append, List.nil_append, Text.byteSize_nil] at hCollect
    rw [classify_eq, classify?, hCollect, ← hState]
    rfl

/-! ## States of lines -/

/-- The states of lines that follow each other from byte `base` on. -/
noncomputable def lineStatesFrom? (base : Nat) (carry : Carry) : List Text → Option (List State)
  | [] => some []
  | line :: rest => do
    let scan ← scanLine? line base carry.state carry.openFrom
    let states ← lineStatesFrom? (base + line.byteSize + 1) scan.carry rest
    return carry.state :: states

noncomputable def lineStates? (text : Text) (entry : State) : Option (List State) :=
  lineStatesFrom? 0 ⟨entry, none⟩ text.lines

theorem lineStatesFrom?_eq {base : Nat} {carry : Carry} (h : carry.openFrom.getD base ≤ base)
    (lines : List Text) :
    lineStatesFrom? base carry lines = some (carry.state.sequence lines) := by
  induction lines generalizing base carry with
  | nil => rfl
  | cons line rest ih =>
    have hLine := LineScan.ofLine_carry line carry.state h
    have hRest := ih (getD_le_of_isOpenBy hLine (Nat.le_succ _))
    rw [lineStatesFrom?, scanLine?_eq line carry.state h]
    simp only [Option.bind_eq_bind, Option.bind_some]
    rw [hRest]
    rfl

theorem lineStates?_eq (text : Text) (entry : State) :
    lineStates? text entry = some (lineStates text entry) :=
  lineStatesFrom?_eq (Nat.le_refl 0) text.lines

end RexxEditing.Checked
