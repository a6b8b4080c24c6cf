import Mathlib.Data.List.Forall2
import RexxEditing.Proofs.Indent.Stream
import RexxEditing.Proofs.Text.Word

/-! # Programs with nested blocks

No nesting is tracked, and yet the lines of a program whose blocks are nested stand at the columns
of their depths. What carries this is the last code line of a block: it has the depth of the block
and opens nothing, so the line that closes the block steps back to the depth of the line that opened
it. A block without a line has no such line, and blocks here have one.

* `level_place_trimStart`: what a line says about the lines below it, once it is in its place.
* `Nested.runs`: the run over a nested program.
* `reindent_nested`: lines of depth `d` stand at column `offset * d`.
-/

namespace RexxEditing.Indent

open Text (isBlank isWhite spaces)

/-! ## Lines of a program -/

/-- Whether the code of a line opens a block, if the line holds code. -/
def opens? (line : Text) : Option Bool :=
  (CodeLine.ofLine? 0 line .normal).map fun found => opensBlock found.code

/-- The white space in front of the line is blanks, and the next line is entered in code. -/
structure StaysInCode (line : Text) : Prop where
  front : (line.takeWhile isWhite).all isBlank = true
  exit : State.next .normal line = .normal

instance (line : Text) : Decidable (StaysInCode line) :=
  decidable_of_iff (_ ∧ _) ⟨fun h => ⟨h.1, h.2⟩, fun h => ⟨h.front, h.exit⟩⟩

def IsStatement (line : Text) : Prop :=
  StaysInCode line ∧ LineKind.ofLine line = .plain ∧ opens? line = some false

def IsOpener (line : Text) : Prop :=
  StaysInCode line ∧ LineKind.ofLine line = .plain ∧ opens? line = some true

def IsCloser (line : Text) : Prop :=
  StaysInCode line ∧ LineKind.ofLine line = .close ∧ opens? line ≠ some true

/-- A blank line, or a line with nothing but comments that end on it. -/
def IsFiller (line : Text) : Prop :=
  line.isAllWhite = true ∨ StaysInCode line ∧ opens? line = none

instance (line : Text) : Decidable (IsStatement line) := inferInstanceAs (Decidable (_ ∧ _))

instance (line : Text) : Decidable (IsOpener line) := inferInstanceAs (Decidable (_ ∧ _))

instance (line : Text) : Decidable (IsCloser line) := inferInstanceAs (Decidable (_ ∧ _))

instance (line : Text) : Decidable (IsFiller line) := inferInstanceAs (Decidable (_ ∨ _))

/-- A line of a program and its depth. Blank lines and comments have none. -/
structure Row where
  depth? : Option Nat
  line : Text
  deriving DecidableEq, Repr

/-- `Nested d rows`: the rows are one or more statements and blocks of depth `d`, with blank lines
and comments anywhere. Carriage returns at the ends of lines do not count. -/
inductive Nested : Nat → List Row → Prop
  | statement {d : Nat} {line : Text} : IsStatement line.dropReturn → Nested d [⟨some d, line⟩]
  | block {d : Nat} {opener closer : Text} {body : List Row} :
      IsOpener opener.dropReturn → Nested (d + 1) body → IsCloser closer.dropReturn →
      Nested d (⟨some d, opener⟩ :: (body ++ [⟨some d, closer⟩]))
  | append {d : Nat} {rows rows' : List Row} :
      Nested d rows → Nested d rows' → Nested d (rows ++ rows')
  | fillerAbove {d : Nat} {line : Text} {rows : List Row} :
      IsFiller line.dropReturn → Nested d rows → Nested d (⟨none, line⟩ :: rows)
  | fillerBelow {d : Nat} {line : Text} {rows : List Row} :
      IsFiller line.dropReturn → Nested d rows → Nested d (rows ++ [⟨none, line⟩])

/-! ## Blanks in front -/

theorem opensBlock_blank_append {front : Text} (h : ∀ c ∈ front, isBlank c = true) (code : Text) :
    opensBlock (front ++ code) = opensBlock code := by
  have hWhite : ∀ c ∈ front, isWhite c = true := fun c hc => Text.isWhite_of_isBlank (h c hc)
  rw [opensBlock, opensBlock, Text.words_blank_append h, ← startsWith_trimStart (front ++ code),
    Text.trimStart_white_append hWhite, startsWith_trimStart]

theorem opens?_blank_append {front : Text} (hFront : ∀ c ∈ front, isBlank c = true) {body : Text}
    (hBody : ∀ c, body.head? = some c → isBlank c = false) :
    opens? (front ++ body) = opens? body := by
  simp only [opens?, CodeLine.ofLine?_blank_append hFront hBody, Option.map_map, Function.comp_def,
    opensBlock_blank_append hFront]

theorem isBlank_head?_trimStart {line : Text} {c : Char} (h : line.trimStart.head? = some c) :
    isBlank c = false := by
  rw [← Bool.not_eq_true]
  intro hBlank
  have hWhite := isWhite_head?_trimStart h
  rw [Text.isWhite_of_isBlank hBlank] at hWhite
  cases hWhite

/-- A line with blanks in front opens a block if what follows them does. -/
theorem opens?_trimStart {line : Text} (hFront : (line.takeWhile isWhite).all isBlank = true) :
    opens? line.trimStart = opens? line := by
  have hParts : line.takeWhile isWhite ++ line.trimStart = line := List.takeWhile_append_dropWhile
  have hOpens := opens?_blank_append (List.all_eq_true.1 hFront)
    fun c (hc : line.trimStart.head? = some c) => isBlank_head?_trimStart hc
  rw [hParts] at hOpens
  exact hOpens.symm

theorem opens?_nil : opens? [] = none := by
  rw [opens?, CodeLine.ofLine?_eq, Piece.own, Piece.ofCode]
  rfl

theorem level_eq (line : Text) :
    Level.ofLine? .normal line = (opens? line).map (⟨columnOf line, ·⟩) := by
  rw [Level.ofLine?, opens?, CodeLine.ofLine?_eq, Option.map_map, Option.map_map, Option.map_map]
  rfl

/-! ## One line -/

section Step

variable {c : Carried} (hState : c.state = .normal) (offset : Nat)

include hState

/-- What a line says about the lines below it, once it is in its place. -/
theorem level_place_trimStart (line : Text) :
    Level.ofLine? .normal (c.place offset line) =
      (opens? line.trimStart).map (⟨c.column offset (LineKind.ofLine line), ·⟩) := by
  rw [level_eq]
  by_cases hTrim : line.trimStart = []
  · rw [Carried.place_white hState _ hTrim, hTrim, opens?_nil]
    rfl
  · have hSpaces : ∀ d ∈ spaces (c.column offset (LineKind.ofLine line)), isBlank d = true := by
      intro d hd
      rw [List.eq_of_mem_replicate hd]
      rfl
    rw [Carried.place_body hState _ hTrim, columnOf,
      columnFrom_spaces_append fun d hd => isWhite_head?_trimStart hd, Nat.zero_add,
      opens?_blank_append hSpaces fun d hd => isBlank_head?_trimStart hd]

theorem level_place {line : Text} (h : StaysInCode line) :
    Level.ofLine? .normal (c.place offset line) =
      (opens? line).map (⟨c.column offset (LineKind.ofLine line), ·⟩) := by
  rw [level_place_trimStart hState, opens?_trimStart h.front]

/-- A line of code in its place is the last code line. -/
theorem next_code {line : Text} {opens : Bool} (h : StaysInCode line.dropReturn)
    (hOpens : opens? line.dropReturn = some opens) :
    c.next line (c.place offset line.dropReturn) =
      ⟨.normal, some ⟨c.column offset (LineKind.ofLine line.dropReturn), opens⟩⟩ := by
  have hExit := h.exit
  rw [State.next_dropReturn] at hExit
  rw [Carried.next, hState, hExit, level_place hState offset h, hOpens]
  rfl

theorem place_code {line : Text} {opens : Bool} (hOpens : opens? line = some opens)
    (h : StaysInCode line) :
    c.place offset line = spaces (c.column offset (LineKind.ofLine line)) ++ line.trimStart := by
  apply Carried.place_body hState
  intro hTrim
  rw [← opens?_trimStart h.front, hTrim, opens?_nil] at hOpens
  cases hOpens

/-- Blank lines and comments change nothing of what is kept. -/
theorem next_filler {line : Text} (h : IsFiller line.dropReturn) :
    c.next line (c.place offset line.dropReturn) = c := by
  have hNone : State.next .normal line = .normal ∧
      Level.ofLine? .normal (c.place offset line.dropReturn) = none := by
    rw [← State.next_dropReturn]
    rcases h with hWhite | ⟨hStays, hOpens⟩
    · have hTrim := Text.trimStart_eq_nil_iff.2 hWhite
      have hExit := State.next_white_append (List.all_eq_true.1 hWhite) []
      rw [List.append_nil, State.next_nil] at hExit
      refine ⟨hExit, ?_⟩
      rw [Carried.place_white hState _ hTrim, level_eq, opens?_nil]
      rfl
    · refine ⟨hStays.exit, ?_⟩
      rw [level_place hState offset hStays, hOpens]
      rfl
  rw [Carried.next, hState, hNone.1, hNone.2, Option.none_or, ← hState]

end Step

/-! ## Lines that close a block -/

theorem eq_of_toLower_eq {c : Char} (h : c.toLower = 'e') : c = 'e' ∨ c = 'E' := by
  unfold Char.toLower at h
  split at h
  · right
    have hVal : c.val + ('a'.val - 'A'.val) = 'e'.val := congrArg Char.val h
    apply Char.ext
    grind
  · exact Or.inl h

/-- What is trimmed off a line that closes a block leaves a letter in front. -/
theorem exists_trimStart_of_close {line : Text} (h : LineKind.ofLine line = .close) :
    ∃ c rest, line.trimStart = c :: rest ∧ (c = 'e' ∨ c = 'E') := by
  have hStarts : startsWith line "end" = true := by
    unfold LineKind.ofLine at h
    split at h
    · assumption
    · split at h <;> cases h
  have hLower : (leadingWord line).lower = ['e', 'n', 'd'] := eq_of_beq hStarts
  unfold leadingWord at hLower
  cases hTrim : line.trimStart with
  | nil =>
    rw [hTrim] at hLower
    cases hLower
  | cons c rest =>
    refine ⟨c, rest, rfl, ?_⟩
    rw [hTrim] at hLower
    cases hc : isLeadingWordChar c with
    | false =>
      rw [List.takeWhile_cons_of_neg (by simp [hc])] at hLower
      cases hLower
    | true =>
      rw [List.takeWhile_cons_of_pos hc] at hLower
      exact eq_of_toLower_eq (List.cons.inj hLower).1

theorem isSome_opens?_of_close {line : Text} (h : StaysInCode line)
    (hKind : LineKind.ofLine line = .close) : (opens? line).isSome = true := by
  obtain ⟨c, rest, hTrim, hc⟩ := exists_trimStart_of_close hKind
  have hPieces : Piece.ofCode (c :: rest) =
      .code .symbol (Lexeme.first c rest).text :: Piece.ofCode (Lexeme.rest c rest) := by
    rcases hc with rfl | rfl <;> rw [Piece.ofCode] <;> rfl
  rw [← opens?_trimStart h.front, hTrim, opens?, CodeLine.ofLine?_eq, Piece.own, hPieces,
    Piece.codePart?_cons_of_isCode rfl]
  rfl

theorem opens?_of_isCloser {line : Text} (h : IsCloser line) : opens? line = some false := by
  obtain ⟨hStays, hKind, hOpens⟩ := h
  obtain ⟨opens, hSome⟩ := Option.isSome_iff_exists.1 (isSome_opens?_of_close hStays hKind)
  cases opens with
  | false => exact hSome
  | true => exact absurd hSome hOpens

/-! ## The run -/

/-- Whether the line that the row became stands at the column of its depth. -/
def Row.IsPlacedAs (offset : Nat) (row : Row) (placed : Text) : Prop :=
  ∀ d, row.depth? = some d →
    placed = spaces (offset * d) ++ row.line.dropReturn.trimStart ++ row.line.ending

/-- What is kept in front of a program of depth `d`: a plain line would have that depth. -/
def Carried.Awaits (offset d : Nat) (c : Carried) : Prop :=
  c.state = .normal ∧ c.column offset .plain = offset * d

/-- What is kept after a program of depth `d`: its last code line has that depth. -/
def Carried.closing (offset d : Nat) : Carried := ⟨.normal, some ⟨offset * d, false⟩⟩

theorem Carried.awaits_closing (offset d : Nat) : (closing offset d).Awaits offset d :=
  ⟨rfl, rfl⟩

/-- `Runs offset c rows c'`: the pass over the rows takes `c` to `c'` and puts every row with a
depth at its column. -/
structure Runs (offset : Nat) (c : Carried) (rows : List Row) (c' : Carried) : Prop where
  placed : List.Forall₂ (Row.IsPlacedAs offset) rows (stream offset c (rows.map Row.line))
  after : c.after offset (rows.map Row.line) = c'

namespace Runs

variable {offset : Nat} {c c' c'' : Carried}

theorem append {rows rows' : List Row} (h : Runs offset c rows c') (h' : Runs offset c' rows' c'') :
    Runs offset c (rows ++ rows') c'' := by
  constructor
  · rw [List.map_append, stream_append, h.after]
    exact List.rel_append h.placed h'.placed
  · rw [List.map_append, Carried.after_append, h.after, h'.after]

/-- A line of code stands at its column and is the last code line. -/
theorem code (hState : c.state = .normal) {line : Text} {kind : LineKind} {opens : Bool} {d : Nat}
    (h : StaysInCode line.dropReturn) (hKind : LineKind.ofLine line.dropReturn = kind)
    (hOpens : opens? line.dropReturn = some opens) (hColumn : c.column offset kind = offset * d) :
    Runs offset c [⟨some d, line⟩] ⟨.normal, some ⟨offset * d, opens⟩⟩ := by
  have hPlace := place_code hState offset hOpens h
  have hNext := next_code hState offset h hOpens
  rw [hKind, hColumn] at hPlace hNext
  refine ⟨.cons ?_ .nil, hNext⟩
  rintro _ ⟨⟩
  rw [hPlace]

theorem filler (hState : c.state = .normal) {line : Text} (h : IsFiller line.dropReturn) :
    Runs offset c [⟨none, line⟩] c := by
  refine ⟨.cons ?_ .nil, next_filler hState offset h⟩
  rintro _ ⟨⟩

end Runs

/-- **The run over a nested program.** Its last code line has the depth of the program and opens
nothing. -/
theorem Nested.runs {offset d : Nat} {rows : List Row} (h : Nested d rows) {c : Carried}
    (hc : c.Awaits offset d) : Runs offset c rows (.closing offset d) := by
  induction h generalizing c with
  | statement hLine =>
    obtain ⟨hStays, hKind, hOpens⟩ := hLine
    exact .code hc.1 hStays hKind hOpens hc.2
  | @block d opener closer body hOpener _ hCloser ih =>
    obtain ⟨hStays, hKind, hOpens⟩ := hOpener
    have hFirst := Runs.code hc.1 hStays hKind hOpens hc.2
    have hBody := ih (c := ⟨.normal, some ⟨offset * d, true⟩⟩) ⟨rfl, rfl⟩
    -- the last code line of the body is one level deeper than the line that closes the block
    have hColumn : (Carried.closing offset (d + 1)).column offset .close = offset * d :=
      Nat.add_sub_cancel _ _
    have hLast := Runs.code rfl hCloser.1 hCloser.2.1 (opens?_of_isCloser hCloser) hColumn
    exact hFirst.append (hBody.append hLast)
  | append _ _ ih ih' => exact (ih hc).append (ih' (Carried.awaits_closing offset _))
  | fillerAbove hLine _ ih => exact (Runs.filler hc.1 hLine).append (ih hc)
  | fillerBelow hLine _ ih => exact (ih hc).append (.filler rfl hLine)

/-- **Nested programs are indented by their depth.** In a text whose lines are a nested program,
every statement and every line that opens or closes a block stands at column `offset * d` after
indenting, where `d` is the number of blocks around it. -/
theorem reindent_nested (offset : Nat) {text : Text} {rows : List Row} (h : Nested 0 rows)
    (hText : text.lines = rows.map Row.line) {i d : Nat} {line : Text}
    (hRow : rows[i]? = some ⟨some d, line⟩) :
    (reindent offset text).lines[i]? =
      some (spaces (offset * d) ++ line.dropReturn.trimStart ++ line.ending) := by
  have hRuns : Runs offset .start rows (.closing offset 0) := h.runs ⟨rfl, rfl⟩
  rw [lines_reindent_eq_stream, hText]
  obtain ⟨hi, hGet⟩ := List.getElem?_eq_some_iff.1 hRow
  have hi' := hRuns.placed.length_eq ▸ hi
  have hPlaced := hRuns.placed.get hi hi'
  rw [List.get_eq_getElem, List.get_eq_getElem, hGet] at hPlaced
  rw [List.getElem?_eq_getElem hi', hPlaced d rfl]

/-- A loop around a choice, with the blanks of its lines mixed up. -/
theorem reindent_nested_loop :
    let text := "do i = 1\n    if i then do\n\n/* i */\n\tsay i\nend\n say\nEND".toList
    (reindent 2 text).lines[4]? = some "    say i".toList := by
  intro text
  have hSay : Nested 2 [⟨none, []⟩, ⟨none, "/* i */".toList⟩, ⟨some 2, "\tsay i".toList⟩] :=
    .fillerAbove (by decide +kernel) (.fillerAbove (by decide +kernel)
      (.statement (by decide +kernel)))
  have hChoice : Nested 1
      (⟨some 1, "    if i then do".toList⟩ :: (_ ++ [⟨some 1, "end".toList⟩])) :=
    .block (by decide +kernel) hSay (by decide +kernel)
  have hLast : Nested 1 [⟨some 1, " say".toList⟩] := .statement (by decide +kernel)
  have hLoop : Nested 0 (⟨some 0, "do i = 1".toList⟩ :: (_ ++ [⟨some 0, "END".toList⟩])) :=
    .block (by decide +kernel) (hChoice.append hLast) (by decide +kernel)
  exact reindent_nested 2 hLoop (by decide +kernel) (i := 4) (d := 2) rfl

end RexxEditing.Indent
