import RexxEditing.Proofs.Indent.Nearest

/-! # Indenting in one pass

A line is placed by a search through all lines above it. The same text comes from one pass from the
top down that keeps three things: the state in which the next line is entered, the column of the
last code line, and whether its code opens a block. So what is above a line counts only as far as
these three go, and what is below it does not count.

* `levelAbove_concat`: what is kept is what the search finds.
* `indented_eq_stream`: lines in their places are the lines of the pass, whatever is above them.
* `reindent_streams`: the indented text, and what this means for texts with lines in common.
-/

namespace RexxEditing.Indent

open Text (spaces)

/-! ## The pass -/

/-- What a code line says about the lines below it. -/
structure Level where
  column : Nat
  /-- Whether its code opens a block. -/
  opens : Bool
  deriving DecidableEq, Repr

namespace Level

def ofCodeLine (line : CodeLine) : Level := ⟨columnOf line.text, opensBlock line.code⟩

/-- The level of a line, if it holds code. -/
def ofLine? (entry : State) (line : Text) : Option Level :=
  (CodeLine.ofLine? 0 line entry).map ofCodeLine

/-- The column of a line of the given kind below a code line. -/
def columnBelow (offset : Nat) (kind : LineKind) (level : Level) : Nat :=
  match kind with
  | .close | .mid => level.column - offset
  | .plain => if level.opens then level.column + offset else level.column

end Level

/-- What the pass keeps from line to line. -/
structure Carried where
  /-- The state in which the next line is entered. -/
  state : State
  /-- The level of the last code line. -/
  level? : Option Level
  deriving DecidableEq, Repr

namespace Carried

def start : Carried := ⟨.normal, none⟩

/-- The column of the next line. -/
def column (offset : Nat) (kind : LineKind) (c : Carried) : Nat :=
  (c.level?.map (·.columnBelow offset kind)).getD 0

/-- The next line in its place. -/
def place (offset : Nat) (c : Carried) (line : Text) : Text :=
  match c.state with
  | .inside _ => line
  | .normal =>
    match line.trimStart with
    | [] => []
    | body => spaces (c.column offset (LineKind.ofLine body)) ++ body

theorem place_white {c : Carried} (hState : c.state = .normal) (offset : Nat) {line : Text}
    (h : line.trimStart = []) : c.place offset line = [] := by
  simp [place, hState, h]

theorem place_body {c : Carried} (hState : c.state = .normal) (offset : Nat) {line : Text}
    (h : line.trimStart ≠ []) :
    c.place offset line = spaces (c.column offset (LineKind.ofLine line)) ++ line.trimStart := by
  rw [← LineKind.ofLine_trimStart line]
  obtain ⟨d, rest, hTrim⟩ := List.exists_cons_of_ne_nil h
  simp [place, hState, hTrim]

/-- What is kept after a line that was put to its place. -/
def next (c : Carried) (line placed : Text) : Carried :=
  ⟨c.state.next line, (Level.ofLine? c.state placed).or c.level?⟩

/-- What is kept after lines. -/
def after (offset : Nat) (c : Carried) : List Text → Carried
  | [] => c
  | line :: rest => after offset (c.next line (c.place offset line.dropReturn)) rest

end Carried

/-- The lines in their places, with the carriage returns at their ends. -/
def stream (offset : Nat) (c : Carried) : List Text → List Text
  | [] => []
  | line :: rest =>
    let placed := c.place offset line.dropReturn
    (placed ++ line.ending) :: stream offset (c.next line placed) rest

theorem stream_append (offset : Nat) (c : Carried) (above below : List Text) :
    stream offset c (above ++ below) =
      stream offset c above ++ stream offset (c.after offset above) below := by
  induction above generalizing c with
  | nil => rfl
  | cons line rest ih => simp only [List.cons_append, stream, Carried.after, ih]

theorem Carried.after_append (offset : Nat) (c : Carried) (above below : List Text) :
    c.after offset (above ++ below) = (c.after offset above).after offset below := by
  induction above generalizing c with
  | nil => rfl
  | cons line rest ih => exact ih _

theorem length_stream (offset : Nat) (c : Carried) (lines : List Text) :
    (stream offset c lines).length = lines.length := by
  induction lines generalizing c with
  | nil => rfl
  | cons line rest ih => simp only [stream, List.length_cons, ih]

/-! ## The pass and the search -/

/-- The level of the code line that the search finds below the given lines. -/
def levelAbove (states : List State) (above : List Text) : Option Level :=
  (findCodeLine? ((Buffer.ofLines above).linesBefore above.length) states).map Level.ofCodeLine

/-- The search does not look at the line itself nor at those below it. -/
theorem linesBefore_ofLines_append (above below : List Text) :
    (Buffer.ofLines (above ++ below)).linesBefore above.length =
      (Buffer.ofLines above).linesBefore above.length := by
  apply Buffer.linesBefore_congr
  · simp [Buffer.ofLines]
  · intro k hk
    exact List.getElem?_append_left hk

theorem Level.map_ofCodeLine (index : Nat) (entry : State) (line : Text) :
    (CodeLine.ofLine? index line entry).map Level.ofCodeLine = Level.ofLine? entry line := by
  rw [Level.ofLine?, CodeLine.ofLine?_eq, CodeLine.ofLine?_eq, Option.map_map, Option.map_map]
  rfl

/-- **What is kept is what the search finds.** -/
theorem levelAbove_concat (states : List State) (above : List Text) (line : Text) :
    levelAbove states (above ++ [line]) =
      (Level.ofLine? (states.getD above.length .normal) line).or (levelAbove states above) := by
  have hCode : (Buffer.ofLines (above ++ [line])).codeLine? states above.length =
      CodeLine.ofLine? above.length line (states.getD above.length .normal) := by
    simp [Buffer.codeLine?, Buffer.ofLines]
  rw [levelAbove, List.length_append, List.length_singleton, findCodeLine?_linesBefore_succ,
    linesBefore_ofLines_append, hCode, Option.map_or, Level.map_ofCodeLine, levelAbove]

theorem columnBelow_eq (offset : Nat) (kind : LineKind) (above : CodeLine) :
    columnBelow offset kind above = (Level.ofCodeLine above).columnBelow offset kind := by
  cases kind <;> rfl

theorem columnWith_eq_column (offset : Nat) (states : List State) (above : List Text) (line : Text)
    (entry : State) :
    columnWith (.ofLines (above ++ [line])) above.length offset states =
      Carried.column offset (LineKind.ofLine line) ⟨entry, levelAbove states above⟩ := by
  have hKind : (Buffer.ofLines (above ++ [line])).kind above.length = LineKind.ofLine line := by
    simp [Buffer.kind, Buffer.ofLines]
  rw [columnWith, linesBefore_ofLines_append, hKind, Carried.column, levelAbove]
  cases findCodeLine? ((Buffer.ofLines above).linesBefore above.length) states with
  | none => rfl
  | some found => exact columnBelow_eq offset _ found

theorem place_eq (offset : Nat) (states : List State) (above : List Text) (entry : State)
    (line : Text) :
    place offset states above entry line =
      Carried.place offset ⟨entry, levelAbove states above⟩ line := by
  cases entry with
  | inside region => rfl
  | normal =>
    by_cases h : line.trimStart = []
    · rw [place_white _ _ _ h, Carried.place_white rfl _ h]
    · rw [place_body _ _ _ h, Carried.place_body rfl _ h, columnWith_eq_column _ _ _ _ .normal,
        LineKind.ofLine_trimStart]

/-- **The pass places lines where the search does.** -/
theorem indented_eq_stream {offset : Nat} {states : List State} {above : List Text} {entry : State}
    {lines : List Text} (hStates : states.drop above.length = entry.sequence lines) :
    indented offset states above entry lines =
      stream offset ⟨entry, levelAbove states above⟩ lines := by
  induction lines generalizing above entry with
  | nil => rfl
  | cons line rest ih =>
    have hEntry : states.getD above.length .normal = entry := by
      have hFirst := congrArg List.head? hStates
      rw [List.head?_drop] at hFirst
      rw [List.getD_eq_getElem?_getD, hFirst]
      rfl
    have hTail : states.drop (above.length + 1) = (entry.next line).sequence rest := by
      have hTail := congrArg List.tail hStates
      rwa [List.tail_drop] at hTail
    simp only [indented, stream, ← place_eq]
    generalize place offset states above entry line.dropReturn = placed
    -- the line is above the others now, and its level is kept
    have hBelow : states.drop (above ++ [placed]).length = (entry.next line).sequence rest := by
      rwa [List.length_append, List.length_singleton]
    rw [ih hBelow, levelAbove_concat, hEntry]
    rfl

/-! ## Texts -/

/-- The lines of an indented text are those of the pass. -/
theorem lines_reindent_eq_stream (offset : Nat) (text : Text) :
    (reindent offset text).lines = stream offset .start text.lines := by
  rw [lines_reindent]
  exact indented_eq_stream rfl

/-- **Indenting is one pass.** The indented text has the lines of one pass from the top that keeps
the state in which the next line is entered, and the column of the last code line with the word on
whether its code opens a block. So the lines that two texts have in common at their ends are
indented alike if the same is kept where these lines start, and the lines that two texts have in
common at their starts are indented alike. -/
theorem reindent_streams (offset : Nat) :
    (∀ text, reindent offset text = Text.ofLines (stream offset .start text.lines)) ∧
      (∀ text text' : Text, ∀ above above' below : List Text,
        text.lines = above ++ below → text'.lines = above' ++ below →
        Carried.start.after offset above = Carried.start.after offset above' →
        (reindent offset text).lines.drop above.length =
          (reindent offset text').lines.drop above'.length) ∧
      ∀ text text' : Text, ∀ above below below' : List Text,
        text.lines = above ++ below → text'.lines = above ++ below' →
        (reindent offset text).lines.take above.length =
          (reindent offset text').lines.take above.length := by
  have hCut (text : Text) (above below : List Text) (h : text.lines = above ++ below) :
      (reindent offset text).lines.take above.length = stream offset .start above ∧
        (reindent offset text).lines.drop above.length =
          stream offset (Carried.start.after offset above) below := by
    have hLength := length_stream offset .start above
    rw [lines_reindent_eq_stream, h, stream_append]
    exact ⟨List.take_left' hLength, List.drop_left' hLength⟩
  refine ⟨?_, ?_, ?_⟩
  · intro text
    rw [← lines_reindent_eq_stream, Text.ofLines_lines]
  · intro text text' above above' below h h' hSame
    rw [(hCut text above below h).2, (hCut text' above' below h').2, hSame]
  · intro text text' above below below' h h'
    rw [(hCut text above below h).1, (hCut text' above below' h').1]

/-- The same is kept below two lines that open a block at the same column. -/
theorem reindent_streams_below_openers :
    (reindent 2 "do\nsay 1\nend".toList).lines.drop 1 =
      (reindent 2 "  if a then\n\nsay 1\nend".toList).lines.drop 2 :=
  (reindent_streams 2).2.1 _ _ ["do".toList] ["  if a then".toList, []]
    ["say 1".toList, "end".toList] (by decide +kernel) (by decide +kernel) (by decide +kernel)

end RexxEditing.Indent
