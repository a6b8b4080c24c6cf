import Mathlib.Data.List.Basic
import RexxEditing.Indent.Column
import RexxEditing.Proofs.Highlight.WhiteSpace
import RexxEditing.Proofs.Text.Blank

/-! # What a column depends on

The column of a line is read off the lines above it, the states in which they are entered, and the
kind of the line itself. White space in front of the line has no effect on its kind.

* `columnWith_congr`: two buffers with the same lines above give the same column.
* `entryStates_ofText`: the states of the lines of a buffer are those of the text, although the
  buffer has no carriage returns.
* `column_ofText`: the column of a line of a text is the one that the line gets when it is placed
  below the lines above it.
-/

namespace RexxEditing

/-! ## States of lines -/

/-- The state in which a line is entered is the state after the lines above. -/
theorem State.sequence_getElem? (entry : State) {lines : List Text} {i : Nat} {line : Text}
    (h : lines[i]? = some line) :
    (entry.sequence lines)[i]? = some (entry.after (lines.take i)) := by
  induction lines generalizing entry i with
  | nil => simp at h
  | cons first rest ih =>
    cases i with
    | zero => rfl
    | succ i => exact ih (entry.next first) h

theorem State.sequence_take (entry : State) (lines : List Text) (n : Nat) :
    entry.sequence (lines.take n) = (entry.sequence lines).take n := by
  induction lines generalizing entry n with
  | nil => simp [sequence]
  | cons line rest ih =>
    cases n with
    | zero => rfl
    | succ n => simp [sequence, ih]

/-- Carriage returns at the ends of lines have no effect on their states. -/
theorem State.sequence_map_dropReturn (entry : State) (lines : List Text) :
    entry.sequence (lines.map Text.dropReturn) = entry.sequence lines := by
  induction lines generalizing entry with
  | nil => rfl
  | cons line rest ih => simp [sequence, State.next_dropReturn, ih]

namespace Indent

/-! ## The lines above -/

namespace Buffer

theorem linesBefore_congr {b b' : Buffer} {i : Nat} (hCount : min i b.count = min i b'.count)
    (hLines : ∀ k, k < i → b.line? k = b'.line? k) : b.linesBefore i = b'.linesBefore i := by
  unfold linesBefore
  rw [hCount]
  refine List.filterMap_congr fun k hk => ?_
  have hLt : k < min i b'.count := by simpa using hk
  rw [hLines k (by omega)]

theorem lt_of_mem_linesBefore {b : Buffer} {i : Nat} {numbered : Nat × Text}
    (h : numbered ∈ b.linesBefore i) : numbered.1 < i := by
  obtain ⟨k, hk, hLine⟩ := List.mem_filterMap.1 h
  obtain ⟨line, -, rfl⟩ := Option.map_eq_some_iff.1 hLine
  have hLt : k < min i b.count := by simpa using hk
  omega

/-- The buffer of a text has the states of its lines. -/
theorem entryStates_ofText (text : Text) {n : Nat} (h : n ≤ text.lines.length) :
    (ofText text).entryStates n = (lineStates text .normal).take n := by
  have hLines : (List.range n).map (fun i => ((ofText text).line? i).getD []) =
      (text.lines.map Text.dropReturn).take n := by
    refine List.ext_getElem (by simp [h]) fun i hi _ => ?_
    have hLt : i < text.lines.length := by
      simp only [List.length_map, List.length_range] at hi
      omega
    simp [ofText, ofLines, hLt]
  rw [entryStates, hLines, State.sequence_take, State.sequence_map_dropReturn, lineStates]

end Buffer

theorem findCodeLine?_congr {lines : List (Nat × Text)} {states states' : List State}
    (h : ∀ numbered ∈ lines, states.getD numbered.1 .normal = states'.getD numbered.1 .normal) :
    findCodeLine? lines states = findCodeLine? lines states' := by
  induction lines with
  | nil => rfl
  | cons numbered rest ih =>
    obtain ⟨hFirst, hRest⟩ := List.forall_mem_cons.1 h
    obtain ⟨index, text⟩ := numbered
    have hBelow := ih hRest
    simp only [findCodeLine?, List.findSome?_cons] at hBelow ⊢
    rw [hFirst, hBelow]

/-- **What a column depends on.** -/
theorem columnWith_congr {b b' : Buffer} {i : Nat} {states states' : List State} (offset : Nat)
    (hCount : min i b.count = min i b'.count) (hLines : ∀ k, k < i → b.line? k = b'.line? k)
    (hKind : b.kind i = b'.kind i)
    (hStates : ∀ k, k < i → states.getD k .normal = states'.getD k .normal) :
    columnWith b i offset states = columnWith b' i offset states' := by
  have hAbove := Buffer.linesBefore_congr hCount hLines
  have hFind : findCodeLine? (b'.linesBefore i) states = findCodeLine? (b'.linesBefore i) states' :=
    findCodeLine?_congr fun numbered h => hStates numbered.1 (Buffer.lt_of_mem_linesBefore h)
  rw [columnWith, columnWith, hAbove, hFind, hKind]

/-! ## The line itself -/

theorem columnFrom_cons_of_ne {c : Char} (hSpace : c ≠ ' ') (hTab : c ≠ '\t') (column : Nat)
    (cs : Text) : columnFrom column (c :: cs) = column := by
  unfold columnFrom
  split
  next h => exact absurd (List.cons.inj h).1 hSpace
  next h => exact absurd (List.cons.inj h).1 hTab
  next => rfl

theorem columnFrom_spaces_append {body : Text}
    (hBody : ∀ c, body.head? = some c → Text.isWhite c = false) (n column : Nat) :
    columnFrom column (Text.spaces n ++ body) = column + n := by
  induction n generalizing column with
  | zero =>
    cases body with
    | nil => rfl
    | cons c cs =>
      have hc := hBody c rfl
      apply columnFrom_cons_of_ne
      · rintro rfl
        cases hc
      · rintro rfl
        cases hc
  | succ n ih =>
    have hNext := ih (column + 1)
    rw [Nat.add_right_comm] at hNext
    exact hNext

theorem isWhite_head?_trimStart {line : Text} {c : Char} (h : line.trimStart.head? = some c) :
    Text.isWhite c = false := by
  obtain ⟨rest, hTrim⟩ := List.head?_eq_some_iff.1 h
  exact Text.isWhite_of_trimStart hTrim

/-- A carriage return at its end does not move a line. -/
theorem columnFrom_append_ending (column : Nat) (l line : Text) :
    columnFrom column (l ++ line.ending) = columnFrom column l := by
  fun_induction columnFrom column l with
  | case1 column cs ih => exact ih
  | case2 column cs ih => exact ih
  | case3 l column hSpace hTab =>
    cases l with
    | nil => rcases line.ending_cases with hEnd | hEnd <;> rw [hEnd] <;> rfl
    | cons c cs =>
      rw [List.cons_append, columnFrom]
      · rintro rest ⟨⟩
        exact hSpace cs rfl
      · rintro rest ⟨⟩
        exact hTab cs rfl

theorem columnOf_dropReturn (line : Text) :
    columnOf line.dropReturn = columnOf line := by
  conv => rhs; rw [← line.dropReturn_append_ending]
  exact (columnFrom_append_ending 0 _ line).symm

theorem startsWith_trimStart (line : Text) (word : String) :
    startsWith line.trimStart word = startsWith line word := by
  rw [startsWith, leadingWord, Text.trimStart_trimStart]
  rfl

theorem LineKind.ofLine_trimStart (line : Text) : ofLine line.trimStart = ofLine line := by
  unfold ofLine
  rw [startsWith_trimStart, startsWith_trimStart, startsWith_trimStart]

/-- A column hangs on the lines above and the kind of the line, not on what is below. -/
theorem columnWith_ofLines {above below below' : List Text} {line line' : Text} {i : Nat}
    {states states' : List State} (hi : above.length = i) (offset : Nat)
    (hKind : LineKind.ofLine line = LineKind.ofLine line')
    (hStates : ∀ k, k < i → states.getD k .normal = states'.getD k .normal) :
    columnWith (.ofLines (above ++ line :: below)) i offset states =
      columnWith (.ofLines (above ++ line' :: below')) i offset states' := by
  subst hi
  refine columnWith_congr offset ?_ (fun k hk => ?_) ?_ hStates
  · simp only [Buffer.ofLines, List.length_append]
    omega
  · simp only [Buffer.ofLines, List.getElem?_append_left hk]
  · simpa [Buffer.kind, Buffer.ofLines] using hKind

/-- **Columns of a text.** Line `i` of a text has the column that it gets when it is placed below
the lines above it. -/
theorem column_ofText {text line : Text} {i : Nat} (h : text.lines[i]? = some line) (offset : Nat) :
    let above := (text.lines.take i).map Text.dropReturn
    column (.ofText text) i offset =
      columnWith (.ofLines (above ++ [line.dropReturn.trimStart])) above.length offset
        (lineStates text .normal) := by
  intro above
  obtain ⟨hLt, rfl⟩ := List.getElem?_eq_some_iff.1 h
  have hLength : above.length = i := by
    simp only [above, List.length_map, List.length_take]
    omega
  have hBuffer : Buffer.ofText text = .ofLines (above ++ text.lines[i].dropReturn ::
      (text.lines.drop (i + 1)).map Text.dropReturn) := by
    rw [Buffer.ofText, ← List.map_cons, List.getElem_cons_drop, ← List.map_append,
      List.take_append_drop]
  have hCount : min i (Buffer.ofText text).count = i :=
    Nat.min_eq_left (by simpa [Buffer.ofText, Buffer.ofLines] using Nat.le_of_lt hLt)
  rw [column, hCount, Buffer.entryStates_ofText text (Nat.le_of_lt hLt), hBuffer, hLength]
  refine columnWith_ofLines hLength offset (LineKind.ofLine_trimStart _).symm fun k hk => ?_
  simp [List.getD_eq_getElem?_getD, hk]

end Indent

end RexxEditing
