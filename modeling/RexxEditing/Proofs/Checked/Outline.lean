import RexxEditing.Outline.Symbols
import RexxEditing.Proofs.Checked.Indent
import RexxEditing.Proofs.Checked.Position
import RexxEditing.Proofs.Outline.Reading

/-! # The outline at checked offsets

A label is a match of a pattern: the bytes of its name, and the byte behind its colon. The name and
the rest of the line are cut out of the line, and states and lines are looked up by their numbers.

* `routine?_eq`, `routines?_eq`: the routines of a text.
* `symbols?_eq`: its symbols.
-/

namespace RexxEditing

open Text (byteSize)

namespace Checked

open Outline (Label Routine Symbol)

/-! ## Routines -/

/-- The lines from line `i` on, which may be the end of the lines. -/
def linesFrom? (lines : List Text) (i : Nat) : Option (List Text) :=
  if i ≤ lines.length then some (lines.drop i) else none

/-- The text that says what kind of routine a label on line `i` starts. -/
def follower? (lines : List Text) (i : Nat) (rest : Text) : Option Text :=
  if rest.isAllWhite then (linesFrom? lines (i + 1)).map (Outline.follower rest) else some rest

/-- The routine that a label on line `i` declares, if it is no keyword. -/
def declared? (table : LineTable) (lines : List Text) (i : Nat) (line : Text) (label : Label) :
    Option (Option Routine) := do
  let start := label.gap.byteSize
  let stop := start + label.name.byteSize
  let name ← Span.text? ⟨start, stop⟩ line
  if Vocabulary.keywords.contains name then return none
  else
    let base := (table.start? i).getD 0
    let (_, rest) ← line.cut? (line.byteSize - label.rest.byteSize)
    let text ← follower? lines i rest
    let word ← leadingWord? text
    let range ← range? table ⟨base + start, base + stop⟩
    return some ⟨name, i, range, word.eqIgnoreCase "procedure".toList⟩

/-- The routine that line `i` declares. -/
def routine? (table : LineTable) (states : List State) (lines : List Text) (i : Nat)
    (line : Text) : Option (Option Routine) := do
  match ← states[i]?, Label.ofLine? line with
  | .normal, some label => declared? table lines i line label
  | _, _ => return none

def routinesFrom? (table : LineTable) (states : List State) (lines : List Text) (i : Nat) :
    List Text → Option (List Routine)
  | [] => some []
  | line :: below => do
    let here ← routine? table states lines i line
    let others ← routinesFrom? table states lines (i + 1) below
    return here.toList ++ others

noncomputable def routines? (text : Text) : Option (List Routine) := do
  let states ← lineStates? text .normal
  routinesFrom? (LineTable.ofText text) states text.lines 0 text.lines

theorem linesFrom?_append (above : List Text) (line : Text) (below : List Text) :
    linesFrom? (above ++ line :: below) (above.length + 1) = some below := by
  have hLength : above.length + 1 ≤ (above ++ line :: below).length := by
    rw [List.length_append, List.length_cons]
    omega
  rw [linesFrom?, if_pos hLength, ← List.drop_drop, List.drop_left]
  rfl

theorem follower?_eq (above : List Text) (line : Text) (below : List Text) (rest : Text) :
    follower? (above ++ line :: below) above.length rest = some (Outline.follower rest below) := by
  rw [follower?, linesFrom?_append]
  split
  next => rfl
  next hWhite => rw [Outline.follower, if_neg hWhite]

/-- The parts of a label are cut out of its line. -/
theorem declared?_eq {text : Text} {above below : List Text} {line : Text} {label : Label}
    (hLines : text.lines = above ++ line :: below) (hLabel : Label.ofLine? line = some label) :
    declared? (LineTable.ofText text) text.lines above.length line label =
      some (Routine.ofLine? (LineTable.ofText text) above.length (Text.linesSize above) line
        below) := by
  obtain ⟨between, hParts⟩ := Label.exists_isOf hLabel
  obtain ⟨colon, hLine⟩ : ∃ colon, line = label.gap ++ (label.name ++ (colon ++ label.rest)) :=
    ⟨between ++ [':'], by simpa using hParts.line_eq⟩
  have hName : Span.text? ⟨label.gap.byteSize, label.gap.byteSize + label.name.byteSize⟩ line =
      some label.name := by
    have hSlice := Text.slice?_append label.gap label.name (colon ++ label.rest)
    rwa [List.append_assoc, ← hLine] at hSlice
  have hRest : line.cut? (line.byteSize - label.rest.byteSize) =
      some (label.gap ++ (label.name ++ colon), label.rest) := by
    have hCut := Text.cut?_append (label.gap ++ (label.name ++ colon)) label.rest
    rw [List.append_assoc, List.append_assoc, ← hLine] at hCut
    have hSize : line.byteSize - label.rest.byteSize =
        byteSize (label.gap ++ (label.name ++ colon)) := by
      rw [hLine]
      simp only [Text.byteSize_append]
      omega
    rw [hSize]
    exact hCut
  have hStart : (LineTable.ofText text).start? above.length = some (Text.linesSize above) := by
    have hLength : above.length < text.lines.length := by
      rw [hLines, List.length_append, List.length_cons]
      omega
    rw [LineTable.start?_ofText hLength, hLines, List.take_left]
  rw [declared?, Routine.ofLine?, hLabel, hStart, hLines]
  simp only [hName, hRest, follower?_eq, leadingWord?_eq, range?_eq, Option.bind_eq_bind,
    Option.bind_some, Option.getD_some]
  split
  · rfl
  · rw [Nat.add_assoc]
    rfl

theorem routine?_eq {text : Text} {states : List State} {above below : List Text} {line : Text}
    {entry : State} (hLines : text.lines = above ++ line :: below)
    (hEntry : states[above.length]? = some entry) :
    routine? (LineTable.ofText text) states text.lines above.length line =
      some (if entry.isNormal then
        Routine.ofLine? (LineTable.ofText text) above.length (Text.linesSize above) line below
      else none) := by
  rw [routine?, hEntry]
  simp only [Option.bind_eq_bind, Option.bind_some]
  cases entry with
  | inside region => rfl
  | normal =>
    cases hLabel : Label.ofLine? line with
    | none =>
      rw [Routine.ofLine?, hLabel]
      rfl
    | some label => exact declared?_eq hLines hLabel

theorem routinesFrom?_eq {text : Text} {states before : List State} {above lines : List Text}
    {entry : State} (hLines : text.lines = above ++ lines)
    (hLength : before.length = above.length) (hStates : states = before ++ entry.sequence lines) :
    routinesFrom? (LineTable.ofText text) states text.lines above.length lines =
      some (Outline.routinesFrom (LineTable.ofText text) entry above.length (Text.linesSize above)
        lines) := by
  induction lines generalizing before above entry with
  | nil => rfl
  | cons line below ih =>
    obtain ⟨hEntry, hStates'⟩ := sequence_step hLength hStates
    have hLines' : text.lines = (above ++ [line]) ++ below := by
      rw [hLines, List.append_assoc, List.singleton_append]
    have hLength' : (before ++ [entry]).length = (above ++ [line]).length := by
      simp [hLength]
    have hBelow := ih hLines' hLength' hStates'
    rw [List.length_append, List.length_singleton, Text.linesSize_append, Text.linesSize_cons,
      Text.linesSize_nil, Nat.add_zero, ← Nat.add_assoc] at hBelow
    rw [routinesFrom?, routine?_eq hLines hEntry, hBelow]
    rfl

/-- **The routines of a text** are found. -/
theorem routines?_eq (text : Text) : routines? text = some (Outline.routines text) := by
  rw [routines?, lineStates?_eq]
  exact routinesFrom?_eq (List.nil_append _).symm rfl (List.nil_append _).symm

/-! ## Symbols -/

/-- The byte where a routine ends that is followed by a routine on line `nextLine?`. -/
def routineEnd? (table : LineTable) (nextLine? : Option Nat) : Option Nat :=
  match nextLine? with
  | none | some 0 => some table.size
  | some (line + 1) =>
    (lineSpan? table line).map fun span => (span.map Span.stop).getD table.size

def symbol? (table : LineTable) (r : Routine) (nextLine? : Option Nat) : Option Symbol := do
  let start := (table.start? r.line).getD table.size
  let stop ← routineEnd? table nextLine?
  let range ← range? table ⟨start, max stop start⟩
  return ⟨r.name, r.kind, range, r.range⟩

def symbolsOf? (table : LineTable) : List Routine → Option (List Symbol)
  | [] => some []
  | r :: rest => do
    let symbol ← symbol? table r (rest.head?.map Routine.line)
    let others ← symbolsOf? table rest
    return symbol :: others

noncomputable def symbols? (text : Text) : Option (List Symbol) := do
  let routines ← routines? text
  symbolsOf? (LineTable.ofText text) routines

theorem symbol?_eq (text : Text) (r : Routine) (nextLine? : Option Nat) :
    symbol? (LineTable.ofText text) r nextLine? =
      some (Symbol.ofRoutine (LineTable.ofText text) r nextLine?) := by
  have hEnd : routineEnd? (LineTable.ofText text) nextLine? =
      some (Outline.routineEnd (LineTable.ofText text) nextLine?) := by
    unfold routineEnd? Outline.routineEnd
    split
    · rfl
    · rfl
    · rw [lineSpan?_eq]
      rfl
  rw [symbol?, hEnd]
  simp only [Option.bind_eq_bind, Option.bind_some, range?_eq]
  rfl

theorem symbolsOf?_eq (text : Text) (routines : List Routine) :
    symbolsOf? (LineTable.ofText text) routines =
      some (Outline.symbolsOf (LineTable.ofText text) routines) := by
  induction routines with
  | nil => rfl
  | cons r rest ih =>
    rw [symbolsOf?, symbol?_eq, ih]
    rfl

/-- **The symbols of a text** are found. -/
theorem symbols?_eq (text : Text) : symbols? text = some (Outline.symbols text) := by
  rw [symbols?, routines?_eq]
  exact symbolsOf?_eq text _

end Checked

end RexxEditing
