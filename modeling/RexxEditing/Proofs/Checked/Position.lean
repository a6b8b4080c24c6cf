import RexxEditing.Proofs.Text.Position
import RexxEditing.Semantic.Token

/-! # Positions by checked arithmetic

The line of an offset is found by a binary search over the starts of the lines. An offset that is no
line start belongs to the line before the place where it would stand, and its column is what is left
after the start of that line. Both differences have to be in order.

* `length_takeWhile_le`: the line starts up to an offset, by the place of the offset among them.
* `position?_eq`, `range?_eq`: every offset has a position.
* `lineSpan?_eq`: every line has a span.
-/

namespace RexxEditing.Checked

open SemanticToken (diff?)

/-! ## Searching -/

/-- The place of a number in a list of increasing numbers, or else the place where it would
stand. -/
def search (xs : List Nat) (n : Nat) : Nat ⊕ Nat :=
  let i := (xs.takeWhile (· < n)).length
  if xs[i]? = some n then .inl i else .inr i

theorem diff?_eq {large small : Nat} (h : small ≤ large) :
    diff? large small = some (large - small) := if_pos h

/-- A number in the list is one more that is not above itself. -/
theorem length_takeWhile_le {xs : List Nat} (h : xs.Pairwise (· < ·)) (n : Nat) :
    (xs.takeWhile (· ≤ n)).length =
      (xs.takeWhile (· < n)).length +
        if xs[(xs.takeWhile (· < n)).length]? = some n then 1 else 0 := by
  induction xs with
  | nil => rfl
  | cons x xs ih =>
    obtain ⟨hHead, hRest⟩ := List.pairwise_cons.1 h
    rcases Nat.lt_trichotomy x n with hLess | rfl | hLess
    · rw [List.takeWhile_cons_of_pos (by simpa using Nat.le_of_lt hLess),
        List.takeWhile_cons_of_pos (by simpa using hLess), List.length_cons, List.length_cons,
        List.getElem?_cons_succ, ih hRest]
      omega
    · have hNone : xs.takeWhile (· ≤ x) = [] := by
        cases xs with
        | nil => rfl
        | cons y ys =>
          have hAbove := hHead y List.mem_cons_self
          exact List.takeWhile_cons_of_neg (by simpa using hAbove)
      rw [List.takeWhile_cons_of_pos (by simp), List.takeWhile_cons_of_neg (by simp), hNone]
      simp
    · have hNe : x ≠ n := by omega
      rw [List.takeWhile_cons_of_neg (by simpa using hLess),
        List.takeWhile_cons_of_neg (by simpa using Nat.le_of_lt hLess)]
      simp [hNe]

/-- The last of the first elements with a property. -/
theorem exists_getElem?_takeWhile {α : Type} {p : α → Bool} {xs : List α}
    (h : xs.takeWhile p ≠ []) :
    ∃ x, xs[(xs.takeWhile p).length - 1]? = some x ∧ p x = true := by
  induction xs with
  | nil => exact absurd rfl h
  | cons x xs ih =>
    by_cases hx : p x = true
    · rw [List.takeWhile_cons_of_pos hx, List.length_cons, Nat.add_sub_cancel]
      by_cases hRest : xs.takeWhile p = []
      · exact ⟨x, by rw [hRest]; rfl, hx⟩
      · obtain ⟨y, hy, hp⟩ := ih hRest
        have hPos := List.length_pos_iff.2 hRest
        refine ⟨y, ?_, hp⟩
        rw [← Nat.sub_add_cancel hPos, List.getElem?_cons_succ]
        exact hy
    · rw [List.takeWhile_cons_of_neg hx] at h
      exact absurd rfl h

/-! ## Line tables -/

/-- The last line that starts at or before the offset. -/
def lineOf? (t : LineTable) (offset : Nat) : Option Nat :=
  match search t.starts offset with
  | .inl i => some i
  | .inr i => diff? i 1

def position? (t : LineTable) (offset : Nat) : Option Position := do
  let offset := min offset t.size
  let line ← lineOf? t offset
  let start ← t.start? line
  let column ← diff? offset start
  return ⟨line, column⟩

def range? (t : LineTable) (span : Span) : Option Range := do
  let start ← position? t span.start
  let stop ← position? t span.stop
  return ⟨span, start, stop⟩

/-- The span of a line without its line feed, if the text has the line. -/
def lineSpan? (t : LineTable) (line : Nat) : Option (Option Span) :=
  match t.start? line, t.start? (line + 1) with
  | none, _ => some none
  | some start, none => some (some ⟨start, t.size⟩)
  | some start, some next => (diff? next 1).map fun stop => some ⟨start, stop⟩

theorem le_of_mem_startsFrom {base n : Nat} {lines : List Text}
    (h : n ∈ LineTable.startsFrom base lines) : base ≤ n := by
  induction lines generalizing base with
  | nil => cases h
  | cons line rest ih =>
    rcases List.mem_cons.1 h with rfl | h
    · exact Nat.le_refl _
    · have := ih h
      omega

theorem pairwise_startsFrom (base : Nat) (lines : List Text) :
    (LineTable.startsFrom base lines).Pairwise (· < ·) := by
  induction lines generalizing base with
  | nil => exact .nil
  | cons line rest ih =>
    refine List.pairwise_cons.2 ⟨fun n hn => ?_, ih _⟩
    have := le_of_mem_startsFrom hn
    omega

section Text

variable (text : Text)

theorem exists_starts_ofText : ∃ rest, (LineTable.ofText text).starts = 0 :: rest := by
  obtain ⟨line, rest, hLines⟩ := text.exists_lines_eq_cons
  refine ⟨LineTable.startsFrom (0 + line.byteSize + 1) rest, ?_⟩
  rw [LineTable.ofText, hLines]
  rfl

/-- The search finds the line of an offset. -/
theorem lineOf?_eq (n : Nat) :
    lineOf? (LineTable.ofText text) n = some ((LineTable.ofText text).lineOf n) := by
  have hSorted : (LineTable.ofText text).starts.Pairwise (· < ·) :=
    pairwise_startsFrom 0 text.lines
  obtain ⟨rest, hStarts⟩ := exists_starts_ofText text
  rw [lineOf?, LineTable.lineOf]
  generalize (LineTable.ofText text).starts = starts at hSorted hStarts ⊢
  rw [length_takeWhile_le hSorted]
  by_cases hMem : starts[(starts.takeWhile (· < n)).length]? = some n
  · have hSearch : search starts n = .inl (starts.takeWhile (· < n)).length := if_pos hMem
    rw [hSearch, if_pos hMem, Nat.add_sub_cancel]
  · have hSearch : search starts n = .inr (starts.takeWhile (· < n)).length := if_neg hMem
    rw [hSearch, if_neg hMem, Nat.add_zero]
    apply diff?_eq
    -- the first line starts at byte zero, so zero is found, and all else comes behind it
    by_cases hZero : n = 0
    · subst hStarts hZero
      exact absurd rfl hMem
    · rw [hStarts, List.takeWhile_cons_of_pos (by simpa using Nat.pos_of_ne_zero hZero)]
      exact Nat.succ_le_succ (Nat.zero_le _)

/-- The line of an offset starts no later than the offset. -/
theorem exists_start?_lineOf (n : Nat) :
    ∃ start, (LineTable.ofText text).start? ((LineTable.ofText text).lineOf n) = some start ∧
      start ≤ n := by
  obtain ⟨rest, hStarts⟩ := exists_starts_ofText text
  have hNe : (LineTable.ofText text).starts.takeWhile (· ≤ n) ≠ [] := by
    rw [hStarts, List.takeWhile_cons_of_pos (by simp)]
    exact List.cons_ne_nil _ _
  obtain ⟨start, hStart, hLe⟩ := exists_getElem?_takeWhile hNe
  exact ⟨start, hStart, by simpa using hLe⟩

/-- **Every offset has a position.** -/
theorem position?_eq (n : Nat) :
    position? (LineTable.ofText text) n = some ((LineTable.ofText text).position n) := by
  obtain ⟨start, hStart, hLe⟩ := exists_start?_lineOf text (min n (LineTable.ofText text).size)
  rw [position?, lineOf?_eq, LineTable.position, hStart]
  simp only [Option.bind_eq_bind, Option.bind_some, hStart, diff?_eq hLe]
  rfl

theorem range?_eq (span : Span) :
    range? (LineTable.ofText text) span = some ((LineTable.ofText text).range span) := by
  rw [range?, position?_eq, position?_eq]
  rfl

/-- **Every line has a span.** -/
theorem lineSpan?_eq (line : Nat) :
    lineSpan? (LineTable.ofText text) line = some ((LineTable.ofText text).span? line) := by
  unfold lineSpan? LineTable.span?
  cases hStart : (LineTable.ofText text).start? line with
  | none => rfl
  | some start =>
    cases hNext : (LineTable.ofText text).start? (line + 1) with
    | none => rfl
    | some next =>
      -- only the first line starts at byte zero
      obtain ⟨rest, hStarts⟩ := exists_starts_ofText text
      have hSorted : (LineTable.ofText text).starts.Pairwise (· < ·) :=
        pairwise_startsFrom 0 text.lines
      rw [LineTable.start?, hStarts, List.getElem?_cons_succ] at hNext
      rw [hStarts, List.pairwise_cons] at hSorted
      have hPos : 0 < next := hSorted.1 _ (List.mem_of_getElem? hNext)
      simp only [diff?_eq hPos]
      rfl

end Text

end RexxEditing.Checked
