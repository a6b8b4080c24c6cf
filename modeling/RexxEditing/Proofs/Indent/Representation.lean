import RexxEditing.Proofs.Indent.Nearest

/-! # Columns and the lines of a buffer

A buffer may have no text for some of its lines. The states are computed from the top down, with an
empty line in place of a missing one. The search for code goes up and leaves a missing line out, but
it looks up states by the numbers of lines, so the two have to count alike. They do: an empty line
is no code line, whatever state it is entered in, and its kind is plain. So a column hangs on the
number of lines and on what they read, and a missing line may as well be empty.

* `CodeLine.ofLine?_nil`, `Buffer.codeLine?_eq`: a missing line is no code line, and neither is an
  empty one.
* `findCodeLine?_alike`: buffers that read alike have the same code line above a line.
* `column_past_end`: a line past the end is like an empty line after the last.
* `column_alike`: buffers that read alike have the same columns.
-/

namespace RexxEditing.Indent

namespace Buffer

/-- What line `i` reads. A missing line reads as empty. -/
def text (b : Buffer) (i : Nat) : Text := (b.line? i).getD []

/-- Whether the buffer has no lines at its end or after it. -/
def IsBounded (b : Buffer) : Prop := ∀ i, b.count ≤ i → b.line? i = none

/-- Whether two buffers have the same number of lines, and lines that read the same. -/
structure Alike (b b' : Buffer) : Prop where
  count_eq : b.count = b'.count
  text_eq : ∀ i, i < b.count → b.text i = b'.text i

/-- The buffer with one more line at its end. -/
def push (b : Buffer) (line : Text) : Buffer :=
  ⟨b.count + 1, fun i => if i = b.count then some line else b.line? i⟩

section Line

variable {b b' : Buffer} {i : Nat}

theorem text_of_some {line : Text} (h : b.line? i = some line) : b.text i = line := by
  rw [text, h, Option.getD_some]

theorem text_of_none (h : b.line? i = none) : b.text i = [] := by
  rw [text, h, Option.getD_none]

theorem line?_push_of_lt (h : i < b.count) (line : Text) : (b.push line).line? i = b.line? i :=
  if_neg (Nat.ne_of_lt h)

theorem line?_push_count (b : Buffer) (line : Text) : (b.push line).line? b.count = some line :=
  if_pos rfl

/-- Bounded buffers that read alike do so past the end, too. -/
theorem Alike.text_eq_of_isBounded (h : b.Alike b') (hb : b.IsBounded) (hb' : b'.IsBounded)
    (i : Nat) : b.text i = b'.text i := by
  rcases Nat.lt_or_ge i b.count with hi | hi
  · exact h.text_eq i hi
  · rw [text_of_none (hb i hi), text_of_none (hb' i (h.count_eq ▸ hi))]

/-- The kind of a missing line is the kind of an empty one. -/
theorem kind_eq (b : Buffer) (i : Nat) : b.kind i = LineKind.ofLine (b.text i) := by
  rw [kind, text]
  cases b.line? i with
  | none => rfl
  | some line => rfl

end Line

/-! ## Lists of lines -/

theorem isBounded_ofLines (lines : List Text) : (ofLines lines).IsBounded :=
  fun _ hi => List.getElem?_eq_none hi

theorem isBounded_ofPartial (lines : List (Option Text)) : (ofPartial lines).IsBounded := by
  intro i hi
  show (lines[i]?).join = none
  rw [List.getElem?_eq_none hi, Option.join_none]

/-- Missing lines of a list may be written as empty ones. -/
theorem alike_ofPartial (lines : List (Option Text)) :
    (ofPartial lines).Alike (ofLines (lines.map (·.getD []))) where
  count_eq := (List.length_map _).symm
  text_eq i _ := by
    show (lines[i]?).join.getD [] = ((lines.map (·.getD []))[i]?).getD []
    rw [List.getElem?_map]
    cases lines[i]? with
    | none => rfl
    | some line => rfl

/-! ## From the top down -/

theorem entryStates_congr {b b' : Buffer} {n : Nat} (h : ∀ k, k < n → b.text k = b'.text k) :
    b.entryStates n = b'.entryStates n := by
  have hLines : (List.range n).map b.text = (List.range n).map b'.text :=
    List.map_congr_left fun k hk => h k (List.mem_range.1 hk)
  exact congrArg State.normal.sequence hLines

end Buffer

/-! ## And up again -/

/-- An empty line is no code line, whatever state it is entered in. -/
theorem CodeLine.ofLine?_nil (index : Nat) (entry : State) :
    CodeLine.ofLine? index [] entry = none := by
  have hOwn : Piece.own entry [] = [] := by
    cases entry with
    | normal => rw [Piece.own, Piece.ofCode]
    | inside region => simp only [Piece.own, Region.length?_nil]
  rw [CodeLine.ofLine?_eq, hOwn]
  rfl

/-- Whether a line is a code line, by what it reads. -/
theorem Buffer.codeLine?_eq (b : Buffer) (states : List State) (i : Nat) :
    b.codeLine? states i =
      if i < b.count then CodeLine.ofLine? i (b.text i) (states.getD i .normal) else none := by
  rw [codeLine?]
  cases hLine : b.line? i with
  | none => rw [Option.bind_none, text_of_none hLine, CodeLine.ofLine?_nil]
  | some line => rw [Option.bind_some, text_of_some hLine]

theorem Buffer.codeLine?_alike {b b' : Buffer} (h : b.Alike b') (states : List State) (i : Nat) :
    b.codeLine? states i = b'.codeLine? states i := by
  rw [codeLine?_eq, codeLine?_eq, ← h.count_eq]
  split
  next hi => rw [h.text_eq i hi]
  next => rfl

/-- **The code line above** a line is the same in buffers that read alike, with its number. -/
theorem findCodeLine?_alike {b b' : Buffer} (h : b.Alike b') (states : List State) (i : Nat) :
    findCodeLine? (b.linesBefore i) states = findCodeLine? (b'.linesBefore i) states := by
  induction i with
  | zero => simp [Buffer.linesBefore]
  | succ i ih =>
    -- where one buffer has an empty line and the other none, both go on to the lines above
    rw [findCodeLine?_linesBefore_succ, findCodeLine?_linesBefore_succ,
      Buffer.codeLine?_alike h, ih]

/-! ## Columns -/

/-- All lines are above a line past the end. -/
theorem Buffer.linesBefore_of_count_le {b : Buffer} {i : Nat} (h : b.count ≤ i) :
    b.linesBefore i = b.linesBefore b.count := by
  rw [linesBefore, linesBefore, Nat.min_eq_right h, Nat.min_self]

/-- The columns past the end are all the same. -/
theorem column_of_count_le {b : Buffer} (hb : b.IsBounded) {i : Nat} (h : b.count ≤ i)
    (offset : Nat) : column b i offset = column b b.count offset := by
  have hKind : b.kind i = b.kind b.count := by
    rw [Buffer.kind_eq, Buffer.kind_eq, Buffer.text_of_none (hb i h),
      Buffer.text_of_none (hb b.count (Nat.le_refl _))]
  rw [column, column, columnWith, columnWith, Buffer.linesBefore_of_count_le h, hKind,
    Nat.min_eq_right h, Nat.min_self]

/-- **Past the end**, a line is like an empty line after the last. -/
theorem column_past_end {b : Buffer} (hb : b.IsBounded) {i : Nat} (h : b.count ≤ i)
    (offset : Nat) : column b i offset = column (b.push []) b.count offset := by
  have hLe : b.count ≤ (b.push []).count := Nat.le_succ b.count
  have hCount : min b.count b.count = min b.count (b.push []).count := by
    rw [Nat.min_self, Nat.min_eq_left hLe]
  have hLines (k : Nat) (hk : k < b.count) : b.line? k = (b.push []).line? k :=
    (Buffer.line?_push_of_lt hk []).symm
  have hKind : b.kind b.count = (b.push []).kind b.count := by
    rw [Buffer.kind_eq, Buffer.kind_eq, Buffer.text_of_none (hb _ (Nat.le_refl _)),
      Buffer.text_of_some (b.line?_push_count [])]
  have hStates : b.entryStates (min b.count b.count) =
      (b.push []).entryStates (min b.count (b.push []).count) := by
    rw [← hCount, Nat.min_self]
    refine Buffer.entryStates_congr fun k hk => ?_
    rw [Buffer.text, Buffer.text, hLines k hk]
  rw [column_of_count_le hb h, column, column, hStates]
  exact columnWith_congr offset hCount hLines hKind fun _ _ => rfl

/-- **Columns do not hang on how a buffer keeps its lines.** Two buffers have the same columns if
they have the same number of lines, none at that number or after it, and if their lines are the same
once each missing line is taken as empty. Past the end, the column is the one of an empty line that
is added to the buffer. -/
theorem column_alike {b b' : Buffer} (hb : b.IsBounded) (hb' : b'.IsBounded) (h : b.Alike b')
    (i offset : Nat) :
    column b i offset = column b' i offset ∧
      (b.count ≤ i → column b i offset = column (b.push []) b.count offset) := by
  have hText := h.text_eq_of_isBounded hb hb'
  have hKind : b.kind i = b'.kind i := by rw [Buffer.kind_eq, Buffer.kind_eq, hText]
  have hStates : b.entryStates (min i b.count) = b'.entryStates (min i b'.count) := by
    rw [← h.count_eq]
    exact Buffer.entryStates_congr fun k _ => hText k
  refine ⟨?_, fun hi => column_past_end hb hi offset⟩
  rw [column, column, columnWith, columnWith, hStates, findCodeLine?_alike h, hKind]

/-- The comment goes on through a missing line, and the search goes back up to the `do`. -/
theorem column_alike_around_holes :
    let lines := [some "  do /* a".toList, none, some "then */".toList, none]
    let b := Buffer.ofPartial lines
    let b' := Buffer.ofLines (lines.map (·.getD []))
    (b.IsBounded ∧ b'.IsBounded ∧ b.Alike b' ∧ b.count ≤ 9) ∧
      column b' 9 2 = 4 ∧ column b 9 2 = 4 ∧ column (b.push []) 4 2 = 4 := by
  intro lines b b'
  have hb : b.IsBounded := Buffer.isBounded_ofPartial lines
  have hb' : b'.IsBounded := Buffer.isBounded_ofLines _
  have hAlike : b.Alike b' := Buffer.alike_ofPartial lines
  have hCount : b.count ≤ 9 := by decide
  obtain ⟨hSame, hPast⟩ := column_alike hb hb' hAlike 9 2
  have hColumn : column b' 9 2 = 4 := by decide +kernel
  exact ⟨⟨hb, hb', hAlike, hCount⟩, hColumn, hSame.trans hColumn,
    (hPast hCount).symm.trans (hSame.trans hColumn)⟩

/-- A line that the buffer has but does not count would move the column past the end. -/
example : column ⟨1, fun i => ["do".toList, "end".toList][i]?⟩ 1 2 = 0 ∧
    column (.ofLines ["do".toList]) 1 2 = 2 := by
  decide +kernel

end RexxEditing.Indent
