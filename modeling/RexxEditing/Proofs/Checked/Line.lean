import RexxEditing.Proofs.Checked.Split
import RexxEditing.Proofs.Indent.CodeLine

/-! # Scanning a line at checked offsets

The parts of a line become tokens by their neighbours, which are found by their numbers, and by
their words, which are cut out of the line. A token that ends before it starts is refused.

* `symbolKind?_eq`, `codeKind?_eq`: the category of a part is that of the piece.
* `tokens_placed`: the parts of a line become the tokens of its pieces.
* `scanLine?_eq`: a line is scanned if the region that it is entered in starts before it.
-/

namespace RexxEditing.Checked

open Text (byteSize)

/-! ## Categories -/

/-- The shape of a part of code. -/
def Placed.shape? (p : Placed) : Option Lexeme.Shape :=
  match p.part with
  | .code shape => some shape
  | .unknown | .region _ => none

/-- Whether the part before a word is `address`, with blanks between them. -/
def followsAddress? (line : Text) (previous : Option Placed) (span : Span) : Option Bool :=
  match previous with
  | some ⟨.code .symbol, before⟩ =>
    if before.stop < span.start then
      (before.text? line).map (·.eqIgnoreCase "address".toList)
    else some false
  | _ => some false

def symbolKind? (line : Text) (codeStart i : Nat) (previous next : Option Placed) (span : Span) :
    Option Kind := do
  let word ← span.text? line
  let afterPipe := (previous.bind Placed.shape?).any Lexeme.Shape.isPipe
  let beforeColon := next.bind Placed.shape? == some .colon
  let afterNumber := previous.any fun p => p.shape? == some .number && p.span.stop == span.start
  if afterNumber then return .plainText
  else if afterPipe && Vocabulary.stages.contains word then return .pipeStageName
  else if afterPipe && beforeColon then return .pipeStageLabel
  else if Vocabulary.keywords.contains word then return .keyword
  else if i == 0 && codeStart == 0 && beforeColon then return .label
  else if Vocabulary.builtins.contains word then return .builtin
  else if ← followsAddress? line previous span then return .addressTarget
  else return .plainText

/-- The part in front of that of number `i`, which has none if it is the first. -/
def partBefore? (parts : List Placed) (i : Nat) : Option (Option Placed) :=
  if i = 0 then some none else (parts[i - 1]?).map some

def codeKind? (line : Text) (codeStart : Nat) (parts : List Placed) (i : Nat)
    (shape : Lexeme.Shape) (span : Span) : Option Kind := do
  let previous ← partBefore? parts i
  let next := parts[i + 1]?
  match shape with
  | .pipe | .doublePipe => return .pipeOperator
  | .number =>
    if next.any fun n => n.shape? == some .symbol && n.span.start == span.stop then
      return .plainText
    else return .number
  | .symbol => symbolKind? line codeStart i previous next span
  | _ => return .plainText

/-- The token of the part of number `i` in a line that starts at byte `base`. -/
def token? (line : Text) (codeStart base : Nat) (parts : List Placed) (p : Placed) (i : Nat) :
    Option Token := do
  let kind ← match p.part with
    | .region kind => some kind
    | .unknown => some .plainText
    | .code shape => codeKind? line codeStart parts i shape p.span
  Token.ofSpan? kind ⟨base + p.span.start, base + p.span.stop⟩

def tokens? (line : Text) (codeStart base : Nat) (parts : List Placed) : Option (List Token) :=
  parts.zipIdx.mapM fun (p, i) => token? line codeStart base parts p i

/-! ## Neighbours -/

/-- The part before byte `pos` is the piece that the pieces have for a neighbour there. Behind a
region that the line was entered in there is a neighbour and no part. -/
inductive Follows (line : Text) (codeStart pos : Nat) :
    Option Placed → Option Piece.Neighbour → Prop
  | start : codeStart = 0 → Follows line codeStart pos none none
  | region {n : Piece.Neighbour} : 0 < codeStart → n.piece.shape? = none →
      Follows line codeStart pos none (some n)
  | other {p : Placed} {n : Piece.Neighbour} : p.shape? = none → n.piece.shape? = none →
      Follows line codeStart pos (some p) (some n)
  | code {shape : Lexeme.Shape} {text : Text} {apart : Bool} {start stop : Nat} :
      Span.text? ⟨start, stop⟩ line = some text → stop ≤ pos → apart = decide (stop < pos) →
      Follows line codeStart pos (some ⟨.code shape, start, stop⟩)
        (some ⟨.code shape text, apart⟩)

/-- The part after byte `pos` is the piece that the pieces have for a neighbour there. A region that
does not end is a neighbour and no part. -/
inductive Precedes (pos : Nat) : Option Placed → Option Piece.Neighbour → Prop
  | stop : Precedes pos none none
  | region {n : Piece.Neighbour} : n.piece.shape? = none → Precedes pos none (some n)
  | other {p : Placed} {n : Piece.Neighbour} : p.shape? = none → n.piece.shape? = none →
      Precedes pos (some p) (some n)
  | code {shape : Lexeme.Shape} {text : Text} {apart : Bool} {start stop : Nat} :
      pos ≤ start → apart = decide (pos < start) →
      Precedes pos (some ⟨.code shape, start, stop⟩) (some ⟨.code shape text, apart⟩)

section Neighbours

variable {line : Text} {codeStart : Nat} {previous next : Option Placed}
  {before after : Option Piece.Neighbour} {span : Span}

theorem Follows.isPipe (h : Follows line codeStart span.start previous before) :
    (previous.bind Placed.shape?).any Lexeme.Shape.isPipe = before.any (·.isPipe) := by
  cases h with
  | start => rfl
  | region _ hn => simp [Piece.Neighbour.isPipe, hn]
  | other hp hn => simp [Piece.Neighbour.isPipe, hp, hn]
  | code => rfl

theorem Follows.isGlued (h : Follows line codeStart span.start previous before)
    (shape : Lexeme.Shape) :
    (previous.any fun p => p.shape? == some shape && p.span.stop == span.start) =
      before.any (·.isGlued shape) := by
  cases h with
  | start => rfl
  | region _ hn => simp [Piece.Neighbour.isGlued, Piece.Neighbour.hasShape, hn]
  | other hp hn => simp [Piece.Neighbour.isGlued, Piece.Neighbour.hasShape, hp, hn]
  | code _ hStop hApart =>
    simp only [Option.any_some, Piece.Neighbour.isGlued, Piece.Neighbour.hasShape, hApart]
    congr 1
    rw [Bool.eq_iff_iff]
    simp only [beq_iff_eq, Bool.not_eq_true', decide_eq_false_iff_not]
    omega

theorem Follows.isNone (h : Follows line codeStart span.start previous before) :
    (previous.isNone && codeStart == 0) = before.isNone := by
  cases h with
  | start hStart => simp [hStart]
  | region hStart => simp; omega
  | other | code => rfl

theorem Follows.isAddress (h : Follows line codeStart span.start previous before) :
    followsAddress? line previous span = some (before.any (·.isAddress)) := by
  cases h with
  | start => rfl
  | region _ hn => simp [followsAddress?, Piece.Neighbour.isAddress, Piece.Neighbour.hasShape, hn]
  | @other p n hp hn =>
    obtain ⟨part, before⟩ := p
    cases part with
    | code => cases hp
    | _ => simp [followsAddress?, Piece.Neighbour.isAddress, Piece.Neighbour.hasShape, hn]
  | @code shape text apart start stop hText hStop hApart =>
    by_cases hShape : shape = .symbol
    · subst hShape hApart
      simp only [followsAddress?, hText, Option.map_some, Option.any_some,
        Piece.Neighbour.isAddress, Piece.Neighbour.hasShape, Piece.shape?, Piece.text]
      by_cases hLess : stop < span.start
      · simp [hLess]
      · simp [hLess]
    · cases shape with
      | symbol => exact absurd rfl hShape
      | _ => rfl

theorem Precedes.hasShape {pos : Nat} (h : Precedes pos next after) (shape : Lexeme.Shape) :
    (next.bind Placed.shape? == some shape) = after.any (·.hasShape shape) := by
  cases h with
  | stop => rfl
  | region hn => simp [Piece.Neighbour.hasShape, hn]
  | other hp hn => simp [Piece.Neighbour.hasShape, hp, hn]
  | code => rfl

theorem Precedes.isGlued {pos : Nat} (h : Precedes pos next after) (shape : Lexeme.Shape) :
    (next.any fun n => n.shape? == some shape && n.span.start == pos) =
      after.any (·.isGlued shape) := by
  cases h with
  | stop => rfl
  | region hn => simp [Piece.Neighbour.isGlued, Piece.Neighbour.hasShape, hn]
  | other hp hn => simp [Piece.Neighbour.isGlued, Piece.Neighbour.hasShape, hp, hn]
  | code hStart hApart =>
    simp only [Option.any_some, Piece.Neighbour.isGlued, Piece.Neighbour.hasShape, hApart]
    congr 1
    rw [Bool.eq_iff_iff]
    simp only [beq_iff_eq, Bool.not_eq_true', decide_eq_false_iff_not]
    omega

theorem symbolKind?_eq {i : Nat} {word : Text} (hWord : span.text? line = some word)
    (hFirst : (i == 0) = previous.isNone)
    (hBefore : Follows line codeStart span.start previous before)
    (hAfter : Precedes span.stop next after) :
    symbolKind? line codeStart i previous next span =
      some (Piece.symbolKind word before after) := by
  unfold symbolKind? Piece.symbolKind
  simp only [hWord, hBefore.isPipe, hBefore.isGlued, hAfter.hasShape, hBefore.isAddress, hFirst,
    hBefore.isNone, Option.bind_eq_bind, Option.bind_some]
  repeat' split
  all_goals rfl

theorem codeKind?_eq {parts : List Placed} {i : Nat} {text : Text}
    (hText : span.text? line = some text) (hPrevious : partBefore? parts i = some previous)
    (hBefore : Follows line codeStart span.start previous before)
    (hAfter : Precedes span.stop parts[i + 1]? after) (shape : Lexeme.Shape) :
    codeKind? line codeStart parts i shape span =
      some (Piece.codeKind shape text before after) := by
  have hFirst : (i == 0) = previous.isNone := by
    unfold partBefore? at hPrevious
    split at hPrevious
    next hi => rw [← Option.some.inj hPrevious, hi]; rfl
    next hi =>
      obtain ⟨p, -, rfl⟩ := Option.map_eq_some_iff.1 hPrevious
      simpa using hi
  unfold codeKind? Piece.codeKind
  simp only [hPrevious, Option.bind_eq_bind, Option.bind_some,
    symbolKind?_eq hText hFirst hBefore hAfter, hAfter.isGlued]
  cases shape with
  | number =>
    simp only
    split <;> rfl
  | _ => rfl

end Neighbours

/-! ## Tokens -/

theorem text_ne_nil_ofCode (code : Text) : ∀ p ∈ Piece.ofCode code, p.text ≠ [] := by
  fun_induction Piece.ofCode code with
  | case1 => simp
  | case2 c cs _ _ _ ih | case6 c cs _ _ _ _ _ _ _ ih | case7 c cs _ _ _ _ _ _ _ ih =>
    exact List.forall_mem_cons.2 ⟨List.cons_ne_nil _ _, ih⟩
  | case3 c cs _ _ _ _ _ _ n _ ih =>
    exact List.forall_mem_cons.2 ⟨List.cons_ne_nil _ _, ih⟩
  | case4 c cs | case5 c cs => exact List.forall_mem_singleton.2 (List.cons_ne_nil _ _)

/-- Blanks set the neighbour apart. -/
theorem Follows.blank {line : Text} {codeStart pos n : Nat} {previous : Option Placed}
    {before : Option Piece.Neighbour} (h : Follows line codeStart pos previous before)
    (hn : 0 < n) :
    Follows line codeStart (pos + n) previous
      (before.map fun n => { n with apart := true }) := by
  cases h with
  | start hStart => exact .start hStart
  | region hStart hShape => exact .region hStart hShape
  | other hp hShape => exact .other hp hShape
  | code hPart hStop =>
    refine .code hPart (by omega) ?_
    rw [eq_comm, decide_eq_true_iff]
    omega

/-- A part is the neighbour of what follows it. -/
theorem Follows.part {line : Text} {piece : Piece} {part : Part} (hPart : part? piece = some part)
    {pos : Nat} (hText : Span.text? ⟨pos, pos + piece.text.byteSize⟩ line = some piece.text)
    (codeStart : Nat) (before : List Piece) :
    Follows line codeStart (pos + piece.text.byteSize)
      (some ⟨part, pos, pos + piece.text.byteSize⟩) (Piece.neighbour (piece :: before)) := by
  cases piece with
  | blank | unclosed => cases hPart
  | code shape text =>
    cases hPart
    exact .code hText (Nat.le_refl _) (by simp)
  | unknown | closed | lineComment =>
    cases hPart
    exact .other rfl rfl

theorem Precedes.blank {pos n : Nat} {next : Option Placed} {after : Option Piece.Neighbour}
    (h : Precedes (pos + n) next after) (hn : 0 < n) :
    Precedes pos next (after.map fun n => { n with apart := true }) := by
  cases h with
  | stop => exact .stop
  | region hShape => exact .region hShape
  | other hp hShape => exact .other hp hShape
  | code hStart =>
    refine .code (by omega) ?_
    rw [eq_comm, decide_eq_true_iff]
    omega

/-- The first part of pieces is the neighbour of what they follow. -/
theorem precedes_placed {pieces : List Piece} (hOpen : Piece.OnlyLastOpen pieces)
    (hTexts : ∀ p ∈ pieces, p.text ≠ []) (pos : Nat) :
    Precedes pos (placed pos pieces).head? (Piece.neighbour pieces) := by
  induction pieces generalizing pos with
  | nil => exact .stop
  | cons piece rest ih =>
    obtain ⟨hText, hRestTexts⟩ := List.forall_mem_cons.1 hTexts
    rcases Indent.onlyLastOpen_cons_cases hOpen with ⟨hPiece, hRest⟩ | ⟨rfl, region, text, rfl⟩
    · cases piece with
      | blank text => exact (ih hRest hRestTexts _).blank (Text.byteSize_pos hText)
      | code => exact .code (Nat.le_refl _) (by simp)
      | unknown | closed | lineComment => exact .other rfl rfl
      | unclosed => cases hPiece
    · exact .region rfl

theorem partBefore?_append (parts rest : List Placed) :
    partBefore? (parts ++ rest) parts.length = some parts.getLast? := by
  unfold partBefore?
  rcases List.eq_nil_or_concat parts with rfl | ⟨init, last, rfl⟩
  · rfl
  · simp

theorem ofSpan?_of_le {start stop : Nat} (h : start ≤ stop) (kind : Kind) :
    Token.ofSpan? kind ⟨start, stop⟩ = some ⟨kind, start, stop⟩ := by
  have hOrdered : Span.isOrdered ⟨start, stop⟩ = true := by simpa [Span.isOrdered] using h
  rw [Token.ofSpan?, if_pos hOrdered]

/-- The token of a part is that of its piece. -/
theorem token?_eq {line : Text} {codeStart : Nat} {piece : Piece} {part : Part}
    (hPart : part? piece = some part) {pos : Nat}
    (hText : Span.text? ⟨pos, pos + piece.text.byteSize⟩ line = some piece.text)
    {parts : List Placed} {before : List Piece}
    (hBefore : Follows line codeStart pos parts.getLast? (Piece.neighbour before))
    {rest : List Piece} (hOpen : Piece.OnlyLastOpen rest) (hTexts : ∀ p ∈ rest, p.text ≠ [])
    (base : Nat) :
    let stop := pos + piece.text.byteSize
    let p : Placed := ⟨part, pos, stop⟩
    ∃ kind, piece.kind? before rest = some kind ∧
      token? line codeStart base (parts ++ p :: placed stop rest) p parts.length =
        some ⟨kind, base + pos, base + stop⟩ := by
  intro stop p
  have hSpan (kind : Kind) : Token.ofSpan? kind ⟨base + pos, base + stop⟩ =
      some ⟨kind, base + pos, base + stop⟩ :=
    ofSpan?_of_le (Nat.add_le_add_left (Nat.le_add_right _ _) _) kind
  cases piece with
  | blank | unclosed => cases hPart
  | code shape text =>
    cases hPart
    have hAfter : Precedes stop (parts ++ p :: placed stop rest)[parts.length + 1]?
        (Piece.neighbour rest) := by
      rw [List.getElem?_append_right (Nat.le_add_right _ 1), Nat.add_sub_cancel_left,
        List.getElem?_cons_succ, ← List.head?_eq_getElem?]
      exact precedes_placed hOpen hTexts stop
    have hKind : codeKind? line codeStart (parts ++ p :: placed stop rest) parts.length shape
        p.span = some _ :=
      codeKind?_eq hText (partBefore?_append parts _) hBefore hAfter shape
    refine ⟨_, rfl, ?_⟩
    rw [token?]
    simp only [p, hKind]
    exact hSpan _
  | unknown | closed | lineComment =>
    cases hPart
    exact ⟨_, rfl, hSpan _⟩

/-- **The tokens of a line.** Every part has the token of its piece. -/
theorem tokens_placed {line : Text} (codeStart base : Nat) {pieces : List Piece}
    (hOpen : Piece.OnlyLastOpen pieces) (hTexts : ∀ p ∈ pieces, p.text ≠ []) {front : Text}
    (hLine : line = front ++ pieces.flatMap Piece.text) {parts : List Placed}
    {before : List Piece}
    (hBefore : Follows line codeStart front.byteSize parts.getLast? (Piece.neighbour before)) :
    ((placed front.byteSize pieces).zipIdx parts.length).mapM
        (fun (p, i) => token? line codeStart base (parts ++ placed front.byteSize pieces) p i) =
      some (Indent.tokensOf (base + front.byteSize) before pieces) := by
  induction pieces generalizing front parts before with
  | nil => rfl
  | cons piece rest ih =>
    obtain ⟨hText, hRestTexts⟩ := List.forall_mem_cons.1 hTexts
    have hFront : front.byteSize + piece.text.byteSize = byteSize (front ++ piece.text) :=
      (Text.byteSize_append _ _).symm
    have hRest : line = (front ++ piece.text) ++ rest.flatMap Piece.text := by
      rw [hLine, List.flatMap_cons, List.append_assoc]
    have hSlice : Span.text? ⟨front.byteSize, front.byteSize + piece.text.byteSize⟩ line =
        some piece.text := by
      rw [hRest]
      exact Text.slice?_append _ _ _
    rw [Indent.tokensOf_cons, Nat.add_assoc, hFront]
    rcases Indent.onlyLastOpen_cons_cases hOpen with ⟨hPiece, hRestOpen⟩ | ⟨rfl, region, text, rfl⟩
    · cases hPart : part? piece with
      | none =>
        cases piece with
        | blank text =>
          rw [placed, hPart, hFront]
          refine ih hRestOpen hRestTexts hRest ?_
          rw [← hFront]
          exact hBefore.blank (Text.byteSize_pos hText)
        | unclosed => cases hPiece
        | code | unknown | closed | lineComment => cases hPart
      | some part =>
        obtain ⟨kind, hKind, hToken⟩ := token?_eq hPart hSlice hBefore hRestOpen hRestTexts base
        have hFollows := Follows.part hPart hSlice codeStart before
        rw [← List.getLast?_concat (l := parts), hFront] at hFollows
        have hTokens := ih hRestOpen hRestTexts hRest hFollows
        rw [List.length_append, List.length_singleton] at hTokens
        rw [placed, hPart, hKind]
        simp only [Option.map_some, Option.toList_some, List.singleton_append, hFront,
          List.append_assoc, List.zipIdx_cons, List.mapM_cons] at hToken hTokens ⊢
        rw [hToken, hTokens]
        rfl
    · rfl

/-! ## Scanning a line -/

/-- Scans the code of a line, which starts at byte `codeStart` of the line. -/
noncomputable def scanCode? (line : Text) (codeStart base : Nat) : Option LineScan := do
  let (parts, opened) ← partsFrom? line codeStart
  let tokens ← tokens? line codeStart base parts
  match opened with
  | some (region, start) => return ⟨tokens, .inside region, some (base + start)⟩
  | none => return ⟨tokens, .normal, none⟩

/-- Scans a line that starts at byte `base` and is entered in the state `entry`. If that is a
region, `openFrom` is the byte where it was opened. -/
noncomputable def scanLine? (line : Text) (base : Nat) (entry : State) (openFrom : Option Nat) :
    Option LineScan :=
  match entry with
  | .normal => scanCode? line 0 base
  | .inside region => do
    match ← regionEnd? line region 0 with
    | some stop =>
      let token ← Token.ofSpan? region.kind ⟨openFrom.getD base, base + stop⟩
      let code ← scanCode? line stop base
      return { code with tokens := token :: code.tokens }
    | none => return ⟨[], entry, some (openFrom.getD base)⟩

theorem openedIn_of_isComplete {pieces : List Piece} (h : ∀ p ∈ pieces, p.isComplete = true)
    (pos : Nat) : openedIn pos pieces = none := by
  induction pieces generalizing pos with
  | nil => rfl
  | cons piece rest ih =>
    obtain ⟨hPiece, hRest⟩ := List.forall_mem_cons.1 h
    rw [openedIn_cons hPiece]
    exact ih hRest _

theorem openedIn_concat_unclosed {init : List Piece} (h : ∀ p ∈ init, p.isComplete = true)
    (region : Region) (text : Text) (pos : Nat) :
    openedIn pos (init ++ [.unclosed region text]) =
      some (region, pos + byteSize (init.flatMap Piece.text)) := by
  induction init generalizing pos with
  | nil => rfl
  | cons piece rest ih =>
    obtain ⟨hPiece, hRest⟩ := List.forall_mem_cons.1 h
    rw [List.cons_append, openedIn_cons hPiece, ih hRest, List.flatMap_cons,
      Text.byteSize_append, Nat.add_assoc]

theorem scanCode?_append {front code : Text} {before : List Piece}
    (hBefore : Follows (front ++ code) front.byteSize front.byteSize none
      (Piece.neighbour before)) (base : Nat) :
    scanCode? (front ++ code) front.byteSize base =
      some (LineScan.ofCode code (base + front.byteSize) before) := by
  have hLine : front ++ code = front ++ (Piece.ofCode code).flatMap Piece.text := by
    rw [Piece.flatMap_text_ofCode]
  have hTokens : tokens? (front ++ code) front.byteSize base
      (placed front.byteSize (Piece.ofCode code)) =
        some (LineScan.ofCode code (base + front.byteSize) before).tokens :=
    @tokens_placed _ front.byteSize base _ (Piece.onlyLastOpen_ofCode code)
      (text_ne_nil_ofCode code) front hLine [] before hBefore
  rw [scanCode?, partsFrom?_append]
  simp only [Option.bind_eq_bind, Option.bind_some, hTokens]
  -- a region that does not end is the last piece, and its start is handed on
  have hCases := LineScan.ofCode_cases code (base + front.byteSize) before
  generalize LineScan.ofCode code (base + front.byteSize) before = scan at hCases ⊢
  obtain ⟨tokens, exit, openFrom⟩ := scan
  rcases hCases with ⟨hExit, hFrom, hAll⟩ | ⟨init, region, text, hCode, -, hInit, hExit, hFrom⟩
  · rw [openedIn_of_isComplete hAll]
    cases hExit
    cases hFrom
    rfl
  · rw [hCode, openedIn_concat_unclosed hInit]
    cases hExit
    cases hFrom
    simp only [Option.pure_def, Nat.add_assoc]

/-- **One line.** A line is scanned without fault if the region that it is entered in, if any,
starts where the line does or before. -/
theorem scanLine?_eq (line : Text) {base : Nat} (entry : State) {openFrom : Option Nat}
    (h : openFrom.getD base ≤ base) :
    scanLine? line base entry openFrom = some (LineScan.ofLine line base entry openFrom) := by
  cases entry with
  | normal =>
    rw [LineScan.ofLine_normal]
    exact @scanCode?_append [] line [] (.start rfl) base
  | inside region =>
    have hEnd : regionEnd? line region 0 =
        some ((region.length? line).map fun n => byteSize (line.take n)) := by
      simpa using regionEnd?_append region [] line
    rw [scanLine?, hEnd]
    cases hLength : region.length? line with
    | none =>
      rw [LineScan.ofLine_unclosed hLength]
      rfl
    | some n =>
      have hTake : line.take n ≠ [] := by
        obtain ⟨hPos, hLe⟩ := Region.length?_bounds hLength
        exact List.ne_nil_of_length_pos (by rw [List.length_take]; omega)
      have hCode : scanCode? line (byteSize (line.take n)) base =
          some (LineScan.ofCode (line.drop n) (base + byteSize (line.take n))
            [.closed region (line.take n)]) := by
        have hAppend := @scanCode?_append (line.take n) (line.drop n)
          [.closed region (line.take n)] (.region (Text.byteSize_pos hTake) rfl) base
        rwa [List.take_append_drop] at hAppend
      rw [LineScan.ofLine_closed hLength]
      simp only [Option.map_some, Option.bind_eq_bind, Option.bind_some, hCode,
        ofSpan?_of_le (Nat.le_trans h (Nat.le_add_right _ (byteSize (line.take n))))]
      rfl

end RexxEditing.Checked
