import RexxEditing.Proofs.Text.Lines
import RexxEditing.Text.Position

/-! # Line tables

The line table of a text has one start for each line, behind the lines above it and their line
feeds.

* `getElem?_startsFrom`, `start?_ofText`: where a line starts.
* `lineOf_start`, `lineOf_of_mem`, `lineOf_size`: the line of a line start, that of an offset behind
  it, and that of the end of the text.
-/

namespace RexxEditing

theorem Position.le_iff {p q : Position} :
    p.le q = true ↔ p.line < q.line ∨ p.line = q.line ∧ p.column ≤ q.column := by
  simp [Position.le]

namespace LineTable

open Text (linesSize)

theorem length_startsFrom (base : Nat) (lines : List Text) :
    (startsFrom base lines).length = lines.length := by
  induction lines generalizing base with
  | nil => rfl
  | cons line rest ih => rw [startsFrom, List.length_cons, List.length_cons, ih]

theorem count_ofText (text : Text) : (ofText text).count = text.lines.length :=
  length_startsFrom 0 text.lines

theorem getElem?_startsFrom (base : Nat) {lines : List Text} {i : Nat} (h : i < lines.length) :
    (startsFrom base lines)[i]? = some (base + linesSize (lines.take i)) := by
  induction lines generalizing base i with
  | nil => cases h
  | cons line rest ih =>
    cases i with
    | zero => rfl
    | succ i =>
      have hRest := ih (base + line.byteSize + 1) (Nat.lt_of_succ_lt_succ h)
      rw [startsFrom, List.getElem?_cons_succ, hRest, List.take_succ_cons, Text.linesSize_cons]
      congr 1
      omega

theorem start?_ofText {text : Text} {i : Nat} (h : i < text.lines.length) :
    (ofText text).start? i = some (linesSize (text.lines.take i)) := by
  have hStart := getElem?_startsFrom 0 h
  rwa [Nat.zero_add] at hStart

/-! ## The line of an offset -/

theorem length_takeWhile_startsFrom_of_mem (base : Nat) {lines : List Text} {i n : Nat}
    (h : i < lines.length) (hStart : base + linesSize (lines.take i) ≤ n)
    (hStop : n < base + linesSize (lines.take (i + 1))) :
    ((startsFrom base lines).takeWhile (· ≤ n)).length = i + 1 := by
  induction lines generalizing base i with
  | nil => cases h
  | cons line rest ih =>
    rw [List.take_succ_cons, Text.linesSize_cons] at hStop
    have hBase : base ≤ n := by omega
    rw [startsFrom, List.takeWhile_cons_of_pos (by simpa using hBase), List.length_cons]
    congr 1
    cases i with
    | zero =>
      -- the next line starts behind this one
      rw [List.take_zero, Text.linesSize_nil] at hStop
      cases rest with
      | nil => rfl
      | cons next more =>
        have hNext : ¬base + line.byteSize + 1 ≤ n := by omega
        rw [startsFrom, List.takeWhile_cons_of_neg (by simpa using hNext), List.length_nil]
    | succ i =>
      rw [List.take_succ_cons, Text.linesSize_cons] at hStart
      exact ih _ (Nat.lt_of_succ_lt_succ h) (by omega) (by omega)

theorem length_takeWhile_startsFrom (base : Nat) {lines : List Text} {i : Nat}
    (h : i < lines.length) :
    ((startsFrom base lines).takeWhile (· ≤ base + linesSize (lines.take i))).length = i + 1 := by
  refine length_takeWhile_startsFrom_of_mem base h (Nat.le_refl _) ?_
  rw [List.take_succ_eq_append_getElem h, Text.linesSize_append, Text.linesSize_cons]
  omega

theorem takeWhile_startsFrom_of_le {base n : Nat} {lines : List Text}
    (h : base + linesSize lines ≤ n + 1) :
    (startsFrom base lines).takeWhile (· ≤ n) = startsFrom base lines := by
  induction lines generalizing base with
  | nil => rfl
  | cons line rest ih =>
    rw [Text.linesSize_cons] at h
    have hBase : base ≤ n := by omega
    rw [startsFrom, List.takeWhile_cons_of_pos (by simpa using hBase), ih (by omega)]

theorem lineOf_start {text : Text} {i : Nat} (h : i < text.lines.length) :
    (ofText text).lineOf (linesSize (text.lines.take i)) = i := by
  have hLength := length_takeWhile_startsFrom 0 h
  rw [Nat.zero_add] at hLength
  rw [lineOf, ofText, hLength, Nat.add_sub_cancel]

/-- A line holds the offsets from its start up to its line feed. -/
theorem lineOf_of_mem {text : Text} {i n : Nat} (h : i < text.lines.length)
    (hStart : linesSize (text.lines.take i) ≤ n)
    (hStop : n < linesSize (text.lines.take (i + 1))) : (ofText text).lineOf n = i := by
  rw [← Nat.zero_add (linesSize _)] at hStart hStop
  have hLength := length_takeWhile_startsFrom_of_mem 0 h hStart hStop
  rw [lineOf, ofText, hLength, Nat.add_sub_cancel]

theorem line_position {text : Text} {i n : Nat} (h : i < text.lines.length)
    (hStart : linesSize (text.lines.take i) ≤ n)
    (hStop : n < linesSize (text.lines.take (i + 1))) :
    ((ofText text).position n).line = i := by
  have hAll := Text.linesSize_append (text.lines.take (i + 1)) (text.lines.drop (i + 1))
  rw [List.take_append_drop, Text.linesSize_lines] at hAll
  have hSize : min n text.byteSize = n := by omega
  rw [position, show (ofText text).size = text.byteSize from rfl, hSize]
  exact lineOf_of_mem h hStart hStop

theorem lineOf_size (text : Text) : (ofText text).lineOf text.byteSize = text.lines.length - 1 := by
  have hAll : 0 + linesSize text.lines = text.byteSize + 1 := by
    rw [Text.linesSize_lines, Nat.zero_add]
  rw [lineOf, ofText, takeWhile_startsFrom_of_le (Nat.le_of_eq hAll), length_startsFrom]

end LineTable

end RexxEditing
