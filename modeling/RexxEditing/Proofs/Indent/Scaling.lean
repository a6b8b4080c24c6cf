import RexxEditing.Proofs.Indent.Insertion
import RexxEditing.Proofs.Indent.Nesting
import RexxEditing.Proofs.Indent.Preservation

/-! # Levels of lines

A line is placed by the column of the code line above it, and that column is read off the line as it
was placed itself. So a line that is left where it stands puts its own column into the lines below
it: this is what a line with code behind the end of a region does. Without such lines, every column
is a multiple of the offset, and the factor is the same for every offset: the passes for two offsets
go side by side.

* `Carried.next_scale`: one line of two passes, with offset 1 and with another.
* `Carried.after_scale`: all that is kept along the two passes.
* `level?_after`: what is kept is what the code line above says, found in the indented text.
* `reindent_levels`: columns are levels times the offset, and levels change by one at most.
-/

namespace RexxEditing.Indent

open Text (isBlank isWhite spaces)

/-! ## Two passes side by side -/

/-- The level of the same line in a pass with `offset` instead of 1. -/
def Level.scale (offset : Nat) (level : Level) : Level := ⟨offset * level.column, level.opens⟩

/-- What a pass with `offset` keeps where one with offset 1 keeps `c`. -/
def Carried.scale (offset : Nat) (c : Carried) : Carried :=
  ⟨c.state, c.level?.map (Level.scale offset)⟩

theorem Level.columnBelow_scale (offset : Nat) (kind : LineKind) (level : Level) :
    (level.scale offset).columnBelow offset kind = offset * level.columnBelow 1 kind := by
  have hBack : offset * level.column - offset = offset * (level.column - 1) :=
    (Nat.mul_sub_one offset level.column).symm
  cases kind with
  | close => exact hBack
  | mid => exact hBack
  | plain =>
    obtain ⟨column, opens⟩ := level
    cases opens with
    | false => rfl
    | true => exact (Nat.mul_add_one offset column).symm

theorem Level.columnBelow_near (kind : LineKind) (level : Level) :
    level.columnBelow 1 kind ≤ level.column + 1 ∧ level.column ≤ level.columnBelow 1 kind + 1 := by
  unfold columnBelow
  split
  · omega
  · omega
  · split <;> omega

theorem Carried.column_scale (offset : Nat) (kind : LineKind) (c : Carried) :
    (c.scale offset).column offset kind = offset * c.column 1 kind := by
  unfold column scale
  cases c.level? with
  | none => rfl
  | some level => exact level.columnBelow_scale offset kind

theorem level_of_codeSpan? {line : Text} {entry : State} (h : codeSpan? line entry = none) :
    Level.ofLine? entry line = none := by
  simp [Level.ofLine?, CodeLine.ofLine?, h]

/-- What a line in its place says about the lines below it, in both passes. -/
theorem level_scale {c : Carried} {line : Text}
    (h : c.state ≠ .normal → codeSpan? line c.state = none) (offset : Nat) :
    Level.ofLine? c.state ((c.scale offset).place offset line) =
      (Level.ofLine? c.state (c.place 1 line)).map (Level.scale offset) := by
  cases hState : c.state with
  | inside region =>
    have hScaled : (c.scale offset).state = .inside region := hState
    have hNone : Level.ofLine? (.inside region) line = none := by
      apply level_of_codeSpan?
      rw [← hState]
      apply h
      rw [hState]
      simp
    simp only [Carried.place, hScaled, hState, hNone, Option.map_none]
  | normal =>
    have hScaled : (c.scale offset).state = .normal := hState
    rw [level_place_trimStart hScaled, level_place_trimStart hState, Carried.column_scale,
      Option.map_map]
    rfl

/-- **One line** of the two passes. -/
theorem Carried.next_scale {c : Carried} {line : Text}
    (h : c.state ≠ .normal → codeSpan? line.dropReturn c.state = none) (offset : Nat) :
    (c.scale offset).next line ((c.scale offset).place offset line.dropReturn) =
      (c.next line (c.place 1 line.dropReturn)).scale offset := by
  have hLevel : Level.ofLine? (c.scale offset).state
      ((c.scale offset).place offset line.dropReturn) = _ := level_scale h offset
  rw [next, hLevel, next, scale, scale, Option.map_or]

/-- Whether no line of the text that is entered in a region holds code. -/
def RegionsLackCode (text : Text) : Prop :=
  ∀ entered ∈ (lineStates text .normal).zip text.lines,
    entered.1 ≠ .normal → codeSpan? entered.2.dropReturn entered.1 = none

instance (text : Text) : Decidable (RegionsLackCode text) :=
  inferInstanceAs (Decidable (∀ entered ∈ _, _ → _))

theorem getElem?_lineStates {text line : Text} {i : Nat} (h : text.lines[i]? = some line) :
    (lineStates text .normal)[i]? = some (entryOf text.lines i) :=
  State.sequence_getElem? .normal h

theorem Carried.state_after_start (offset : Nat) (lines : List Text) (i : Nat) :
    (start.after offset (lines.take i)).state = entryOf lines i :=
  state_after offset start (lines.take i)

section Source

variable {source : Text}

theorem RegionsLackCode.codeSpan? (h : RegionsLackCode source) {i : Nat} {line : Text}
    (hLine : source.lines[i]? = some line) (hEntry : entryOf source.lines i ≠ .normal) :
    Indent.codeSpan? line.dropReturn (entryOf source.lines i) = none := by
  have hEntered : ((lineStates source .normal).zip source.lines)[i]? =
      some (entryOf source.lines i, line) :=
    List.getElem?_zip_eq_some.2 ⟨getElem?_lineStates hLine, hLine⟩
  exact h _ (List.mem_of_getElem? hEntered) hEntry

/-- What is kept after one more line. -/
theorem Carried.after_take_succ (offset : Nat) {lines : List Text} {i : Nat} {line : Text}
    (h : lines[i]? = some line) :
    let c := start.after offset (lines.take i)
    start.after offset (lines.take (i + 1)) = c.next line (c.place offset line.dropReturn) := by
  rw [List.take_add_one, h, after_append]
  rfl

/-- **All that is kept** along the two passes. -/
theorem Carried.after_scale (h : RegionsLackCode source) (offset i : Nat) :
    start.after offset (source.lines.take i) =
      (start.after 1 (source.lines.take i)).scale offset := by
  induction i with
  | zero => rfl
  | succ i ih =>
    cases hLine : source.lines[i]? with
    | none =>
      rw [List.take_add_one, hLine, Option.toList_none, List.append_nil, ih]
    | some line =>
      rw [after_take_succ offset hLine, after_take_succ 1 hLine, ih]
      apply next_scale
      rw [state_after_start]
      exact h.codeSpan? hLine

/-! ## The code line above -/

/-- The number of the nearest code line above line `i`. -/
def Buffer.codeAbove? (b : Buffer) (i : Nat) : Option Nat :=
  (findCodeLine? (b.linesBefore i) (b.entryStates i)).map CodeLine.index

/-- What line `k` says about the lines below it. -/
def Level.at? (lines : List Text) (k : Nat) : Option Level :=
  lines[k]?.bind fun line => ofLine? (entryOf lines k) line.dropReturn

theorem IsNearest.unique {P : Nat → Prop} {i : Nat} {found found' : Option Nat}
    (h : IsNearest P i found) (h' : IsNearest P i found') : found = found' := by
  cases found with
  | none =>
    cases found' with
    | none => rfl
    | some p' => exact absurd h'.2.1 (h p' h'.1)
  | some p =>
    cases found' with
    | none => exact absurd h.2.1 (h' p h.1)
    | some p' =>
      rcases Nat.lt_trichotomy p p' with hLt | rfl | hLt
      · exact absurd h'.2.1 (h.2.2 p' hLt h'.1)
      · rfl
      · exact absurd h.2.1 (h'.2.2 p hLt h.1)

theorem codeAbove?_isNearest (text : Text) (i : Nat) :
    IsNearest (fun k => (Level.at? text.lines k).isSome = true) i
      ((Buffer.ofText text).codeAbove? i) := by
  apply (findCodeLine?_isNearest _ _ _).congr
  intro k hk
  have hEntry : ∀ line, text.lines[k]? = some line →
      ((Buffer.ofText text).entryStates i).getD k .normal = entryOf text.lines k := by
    intro line hLine
    have hLine' : (text.lines.map Text.dropReturn)[k]? = some line.dropReturn := by
      rw [List.getElem?_map, hLine, Option.map_some]
    rw [Buffer.ofText, entryStates_ofLines _ hk hLine', entryOf_map_dropReturn]
  cases hLine : text.lines[k]? with
  | none =>
    have hBuffer : (Buffer.ofText text).line? k = none := by
      simp [Buffer.ofText, Buffer.ofLines, hLine]
    simp [Buffer.codeLine?, Level.at?, hBuffer, hLine]
  | some line =>
    have hBuffer : (Buffer.ofText text).line? k = some line.dropReturn := by
      simp [Buffer.ofText, Buffer.ofLines, hLine]
    have hCount : k < (Buffer.ofText text).count := by
      simpa [Buffer.ofText, Buffer.ofLines] using (List.getElem?_eq_some_iff.1 hLine).1
    rw [Buffer.codeLine?, if_pos hCount, hBuffer, Option.bind_some, hEntry line hLine, Level.at?,
      hLine, Option.bind_some, Level.ofLine?, Option.isSome_map, CodeLine.ofLine?_eq,
      CodeLine.ofLine?_eq, Option.isSome_map, Option.isSome_map]

/-- The code line above is the same in texts with code on the same lines. -/
theorem codeAbove?_congr {text text' : Text} {i : Nat}
    (h : ∀ k, k < i → (Level.at? text.lines k).isSome = (Level.at? text'.lines k).isSome) :
    (Buffer.ofText text).codeAbove? i = (Buffer.ofText text').codeAbove? i := by
  apply IsNearest.unique (codeAbove?_isNearest text i)
  apply (codeAbove?_isNearest text' i).congr
  intro k hk
  rw [h k hk]

/-- A line of the indented text says what it says in the pass. -/
theorem Level.at?_reindent (offset : Nat) {k : Nat} {line : Text}
    (h : source.lines[k]? = some line) :
    let c := Carried.start.after offset (source.lines.take k)
    at? (reindent offset source).lines k = ofLine? c.state (c.place offset line.dropReturn) := by
  intro c
  have hStream := getElem?_stream offset .start h
  rw [← lines_reindent_eq_stream] at hStream
  obtain ⟨above, hPlaced⟩ := getElem?_indented offset (lineStates source .normal) [] .normal h
  rw [← lines_reindent, hStream] at hPlaced
  have hPlace : c.place offset line.dropReturn =
      place offset (lineStates source .normal) above _ line.dropReturn :=
    List.append_cancel_right (Option.some.inj hPlaced)
  have hDrop : Text.dropReturn (c.place offset line.dropReturn ++ line.ending) =
      c.place offset line.dropReturn := by
    rw [hPlace, dropReturn_place]
  have hEntry : entryOf (reindent offset source).lines k = c.state := by
    have hStates := getElem?_lineStates hStream
    rw [lineStates, lines_reindent, sequence_indented, ← lineStates, getElem?_lineStates h,
      ← lines_reindent] at hStates
    rw [Carried.state_after_start]
    exact (Option.some.inj hStates).symm
  rw [at?, hStream, Option.bind_some, hEntry, hDrop]

theorem Level.at?_reindent_past (offset : Nat) {k : Nat} (h : source.lines[k]? = none) :
    at? (reindent offset source).lines k = none := by
  have hPast : (reindent offset source).lines[k]? = none := by
    rw [List.getElem?_eq_none_iff, lines_reindent, length_indented]
    exact List.getElem?_eq_none_iff.1 h
  rw [at?, hPast, Option.bind_none]

/-- **What is kept** is what the code line above says, found in the indented text. -/
theorem level?_after (offset : Nat) (source : Text) (i : Nat) :
    (Carried.start.after offset (source.lines.take i)).level? =
      ((Buffer.ofText (reindent offset source)).codeAbove? i).bind
        (Level.at? (reindent offset source).lines) := by
  suffices hFound : ∃ found,
      IsNearest (fun k => (Level.at? (reindent offset source).lines k).isSome = true) i found ∧
      (Carried.start.after offset (source.lines.take i)).level? =
        found.bind (Level.at? (reindent offset source).lines) by
    obtain ⟨found, hNearest, hLevel⟩ := hFound
    rw [hLevel, hNearest.unique (codeAbove?_isNearest _ i)]
  induction i with
  | zero => exact ⟨none, fun k hk => absurd hk (Nat.not_lt_zero k), rfl⟩
  | succ i ih =>
    obtain ⟨found, hNearest, hLevel⟩ := ih
    cases hLine : source.lines[i]? with
    | none =>
      have hNone := Level.at?_reindent_past offset hLine
      refine ⟨found, hNearest.succ.2 (by simp [hNone]), ?_⟩
      rw [List.take_add_one, hLine, Option.toList_none, List.append_nil, hLevel]
    | some line =>
      have hAfter : (Carried.start.after offset (source.lines.take (i + 1))).level? =
          (Level.at? (reindent offset source).lines i).or
            (found.bind (Level.at? (reindent offset source).lines)) := by
        rw [Carried.after_take_succ offset hLine, Level.at?_reindent offset hLine, ← hLevel]
        rfl
      rw [hAfter]
      cases hAt : Level.at? (reindent offset source).lines i with
      | none => exact ⟨found, hNearest.succ.2 (by simp [hAt]), rfl⟩
      | some level => exact ⟨some i, hNearest.succ.1 (by simp [hAt]), hAt.symm⟩

/-! ## Levels -/

/-- Line `i` of the text is one that indenting places: it is entered in code and holds more than
white space. -/
structure IsPlaced (text : Text) (i : Nat) (line : Text) : Prop where
  line_eq : text.lines[i]? = some line
  entry_eq : (lineStates text .normal)[i]? = some .normal
  hasBody : line.dropReturn.isAllWhite = false

theorem IsPlaced.entryOf_eq {i : Nat} {line : Text} (h : IsPlaced source i line) :
    entryOf source.lines i = .normal := by
  have hEntry := h.entry_eq
  rw [getElem?_lineStates h.line_eq] at hEntry
  exact Option.some.inj hEntry

/-- Where line `i` stands in a pass with offset 1. -/
def levelOf (source : Text) (i : Nat) : Nat :=
  (Carried.start.after 1 (source.lines.take i)).column 1
    (LineKind.ofLine ((source.lines[i]?.getD []).dropReturn))

theorem levelOf_eq {i : Nat} {line : Text} (h : source.lines[i]? = some line) :
    levelOf source i =
      (Carried.start.after 1 (source.lines.take i)).column 1 (LineKind.ofLine line.dropReturn) := by
  rw [levelOf, h, Option.getD_some]

theorem getElem?_reindent (h : RegionsLackCode source) (offset : Nat) {i : Nat} {line : Text}
    (hLine : IsPlaced source i line) :
    (reindent offset source).lines[i]? =
      some (spaces (offset * levelOf source i) ++ line.dropReturn.trimStart ++ line.ending) := by
  have hState : (Carried.start.after offset (source.lines.take i)).state = .normal := by
    rw [Carried.state_after_start, hLine.entryOf_eq]
  have hBody : line.dropReturn.trimStart ≠ [] := by
    intro hNil
    have hWhite := Text.trimStart_eq_nil_iff.1 hNil
    rw [hLine.hasBody] at hWhite
    cases hWhite
  rw [lines_reindent_eq_stream, getElem?_stream offset .start hLine.line_eq,
    Carried.place_body hState offset hBody, Carried.after_scale h, Carried.column_scale,
    levelOf_eq hLine.line_eq]

/-- Code stands on the same lines for every offset. -/
theorem Level.at?_scale (h : RegionsLackCode source) (offset k : Nat) :
    at? (reindent offset source).lines k =
      (at? (reindent 1 source).lines k).map (scale offset) := by
  cases hLine : source.lines[k]? with
  | none => rw [at?_reindent_past offset hLine, at?_reindent_past 1 hLine, Option.map_none]
  | some line =>
    rw [at?_reindent offset hLine, at?_reindent 1 hLine, Carried.after_scale h]
    apply level_scale
    rw [Carried.state_after_start]
    exact h.codeSpan? hLine

/-- A code line is placed, at its level. -/
theorem column_of_at? (h : RegionsLackCode source) {p : Nat} {level : Level}
    (hAt : Level.at? (reindent 1 source).lines p = some level) :
    (∃ line, IsPlaced source p line) ∧ level.column = levelOf source p := by
  cases hLine : source.lines[p]? with
  | none =>
    rw [Level.at?_reindent_past 1 hLine] at hAt
    cases hAt
  | some line =>
    have hState := Carried.state_after_start 1 source.lines p
    rw [Level.at?_reindent 1 hLine] at hAt
    cases hEntry : entryOf source.lines p with
    | inside region =>
      rw [hEntry] at hState
      have hNone : codeSpan? line.dropReturn (.inside region) = none := by
        rw [← hEntry]
        apply h.codeSpan? hLine
        rw [hEntry]
        simp
      simp only [Carried.place, hState, level_of_codeSpan? hNone] at hAt
      cases hAt
    | normal =>
      rw [hEntry] at hState
      rw [hState, level_place_trimStart hState] at hAt
      obtain ⟨opens, hOpens, rfl⟩ := Option.map_eq_some_iff.1 hAt
      refine ⟨⟨line, hLine, ?_, ?_⟩, (levelOf_eq hLine).symm⟩
      · rw [getElem?_lineStates hLine, hEntry]
      · rw [← Bool.not_eq_true, ← Text.trimStart_eq_nil_iff]
        intro hNil
        rw [hNil, opens?_nil] at hOpens
        cases hOpens

theorem codeAbove?_reindent (h : RegionsLackCode source) (offset i : Nat) :
    (Buffer.ofText (reindent offset source)).codeAbove? i =
      (Buffer.ofText (reindent 1 source)).codeAbove? i := by
  apply codeAbove?_congr
  intro k _
  rw [Level.at?_scale h, Option.isSome_map]

/-- Blanks in front of a line are no code and hide none. -/
theorem codeAbove?_of_blanks
    (hBlanks : ∀ (i : Nat) (line : Text), source.lines[i]? = some line →
      (lineStates source .normal)[i]? = some .normal →
      ∀ c ∈ line.takeWhile isWhite, isBlank c = true) (offset i : Nat) :
    (Buffer.ofText (reindent offset source)).codeAbove? i =
      (Buffer.ofText source).codeAbove? i := by
  apply codeAbove?_congr
  intro k _
  cases hLine : source.lines[k]? with
  | none => rw [Level.at?_reindent_past offset hLine, Level.at?, hLine, Option.bind_none]
  | some line =>
    have hState := Carried.state_after_start offset source.lines k
    rw [Level.at?_reindent offset hLine, Level.at?, hLine, Option.bind_some]
    cases hEntry : entryOf source.lines k with
    | inside region =>
      rw [hEntry] at hState
      simp only [Carried.place, hState]
    | normal =>
      rw [hEntry] at hState
      have hFront : (line.dropReturn.takeWhile isWhite).all isBlank = true := by
        rw [List.all_eq_true]
        intro c hc
        have hNormal : (lineStates source .normal)[k]? = some .normal := by
          rw [getElem?_lineStates hLine, hEntry]
        apply hBlanks k line hLine hNormal c
        rw [← line.dropReturn_append_ending]
        exact (Text.takeWhile_isWhite_prefix_append _ _).mem hc
      rw [hState, level_place_trimStart hState, level_eq, Option.isSome_map, Option.isSome_map,
        opens?_trimStart hFront]

end Source

/-- **Levels do not depend on the offset.** If no line that is entered in a region holds code, every
line of the text has a level, and whatever the offset, indenting places the line at as many times
the offset. The level of a line differs by one at most from that of the code line above it in the
indented text, which is placed, too. If nothing but blanks stands in front of the lines that are
entered in code, it is the code line above in the text itself. -/
theorem reindent_levels {source : Text} (h : RegionsLackCode source) :
    ∃ levels : Nat → Nat,
      (∀ offset i line, IsPlaced source i line →
        (reindent offset source).lines[i]? =
          some (spaces (offset * levels i) ++ line.dropReturn.trimStart ++ line.ending)) ∧
      (∀ offset i line p, IsPlaced source i line →
        (Buffer.ofText (reindent offset source)).codeAbove? i = some p →
        (∃ above, IsPlaced source p above) ∧
          levels i ≤ levels p + 1 ∧ levels p ≤ levels i + 1) ∧
      ((∀ (i : Nat) (line : Text), source.lines[i]? = some line →
          (lineStates source .normal)[i]? = some .normal →
          ∀ c ∈ line.takeWhile isWhite, isBlank c = true) →
        ∀ offset i, (Buffer.ofText (reindent offset source)).codeAbove? i =
          (Buffer.ofText source).codeAbove? i) := by
  refine ⟨levelOf source, ?_, ?_, codeAbove?_of_blanks⟩
  · intro offset i line hLine
    exact getElem?_reindent h offset hLine
  · intro offset i line p hLine hAbove
    rw [codeAbove?_reindent h] at hAbove
    have hKept := level?_after 1 source i
    have hNearest := codeAbove?_isNearest (reindent 1 source) i
    rw [hAbove] at hKept hNearest
    obtain ⟨level, hAt⟩ := Option.isSome_iff_exists.1 hNearest.2.1
    obtain ⟨hPlaced, hColumn⟩ := column_of_at? h hAt
    rw [Option.bind_some, hAt] at hKept
    have hLevel : levelOf source i = level.columnBelow 1 (LineKind.ofLine line.dropReturn) := by
      rw [levelOf_eq hLine.line_eq, Carried.column, hKept]
      rfl
    rw [hLevel, ← hColumn]
    exact ⟨hPlaced, level.columnBelow_near _⟩

/-- A loop with a comment over two lines in it. -/
theorem reindent_levels_around_comment :
    let source := "do\r\n/* do\n a */\n\tif a then\n b\nend".toList
    RegionsLackCode source ∧ IsPlaced source 4 " b".toList ∧ ∃ levels : Nat → Nat,
      (∀ offset, (reindent offset source).lines[4]? =
        some (spaces (offset * levels 4) ++ ['b'])) ∧
      levels 4 ≤ levels 3 + 1 ∧ levels 3 ≤ levels 4 + 1 := by
  intro source
  have hRegions : RegionsLackCode source := by decide +kernel
  have hLine : IsPlaced source 4 " b".toList :=
    ⟨by decide +kernel, by decide +kernel, by decide⟩
  obtain ⟨levels, hPlaced, hNear, -⟩ := reindent_levels hRegions
  refine ⟨hRegions, hLine, levels, ?_, (hNear 2 4 _ 3 hLine (by decide +kernel)).2⟩
  intro offset
  rw [hPlaced offset 4 _ hLine, List.append_assoc]
  rfl

end RexxEditing.Indent
