import RexxEditing.Text.Character

/-! # Lines and line ends

Cutting a text into lines and joining lines are inverse to each other, as long as no line has a line
feed of its own. A line feed between two texts joins their lists of lines.

* `lines_append_newline`: the lines of two texts with a line feed between them.
* `lines_ofLines`: joined lines are found again.
* `lines_feed_append`, `lines_append_of_terminated`: the lines of a text whose first part ends in a
  line feed.
* `dropReturn_append_ending`: a line is its text and its end, a carriage return or nothing.
* `ReturnsPaired.returnsLast`: carriage returns with a line feed after them stand at ends of lines.
-/

namespace RexxEditing.Text

/-! ## Line feeds -/

theorem lines_cons_of_ne {c : Char} (hc : c ≠ '\n') {cs line : Text} {rest : List Text}
    (h : lines cs = line :: rest) : lines (c :: cs) = (c :: line) :: rest := by
  simp [lines, hc, h]

theorem lines_newline_cons (cs : Text) : lines ('\n' :: cs) = [] :: lines cs := by
  rw [lines, if_pos rfl]

theorem exists_lines_eq_cons (t : Text) : ∃ line rest, lines t = line :: rest :=
  List.exists_cons_of_ne_nil (lines_ne_nil t)

/-- **Lines of a joined text.** A line feed ends the last line of the text before it. -/
theorem lines_append_newline (a b : Text) : lines (a ++ '\n' :: b) = lines a ++ lines b := by
  induction a with
  | nil => simp [lines]
  | cons c cs ih =>
    by_cases hc : c = '\n'
    · subst hc
      simp [lines, ih]
    · obtain ⟨line, rest, h⟩ := exists_lines_eq_cons cs
      rw [h] at ih
      rw [List.cons_append, lines_cons_of_ne hc ih, lines_cons_of_ne hc h]
      rfl

theorem newline_notMem_of_mem_lines {t line : Text} (h : line ∈ lines t) : '\n' ∉ line := by
  induction t generalizing line with
  | nil =>
    obtain rfl : line = [] := by simpa [lines] using h
    simp
  | cons c cs ih =>
    obtain ⟨first, rest, hcs⟩ := exists_lines_eq_cons cs
    by_cases hc : c = '\n'
    · rw [lines, if_pos hc] at h
      rcases List.mem_cons.1 h with rfl | h
      · simp
      · exact ih h
    · rw [lines_cons_of_ne hc hcs] at h
      rcases List.mem_cons.1 h with rfl | h
      · have hFirst := ih (hcs ▸ List.mem_cons_self : first ∈ lines cs)
        simp [hFirst, Ne.symm hc]
      · exact ih (hcs ▸ List.mem_cons_of_mem _ h)

theorem length_lines (t : Text) : t.lines.length = t.count '\n' + 1 := by
  induction t with
  | nil => rfl
  | cons c cs ih =>
    obtain ⟨line, rest, hLines⟩ := exists_lines_eq_cons cs
    by_cases hc : c = '\n'
    · rw [hc, lines_newline_cons, List.length_cons, ih, List.count_cons_self]
    · rw [hLines] at ih
      rw [lines_cons_of_ne hc hLines, List.count_cons_of_ne hc, ← ih]
      rfl

theorem lines_of_newline_notMem {t : Text} (h : '\n' ∉ t) : lines t = [t] := by
  induction t with
  | nil => rfl
  | cons c cs ih =>
    have hc : c ≠ '\n' := fun e => h (e ▸ List.mem_cons_self)
    have hcs : '\n' ∉ cs := fun m => h (List.mem_cons_of_mem c m)
    exact lines_cons_of_ne hc (ih hcs)

theorem ofLines_cons {line : Text} {rest : List Text} (h : rest ≠ []) :
    ofLines (line :: rest) = line ++ '\n' :: ofLines rest := by
  obtain ⟨next, more, rfl⟩ := List.exists_cons_of_ne_nil h
  rfl

/-- Joined lines are found again if none of them has a line feed. -/
theorem lines_ofLines {lines' : List Text} (hne : lines' ≠ [])
    (h : ∀ line ∈ lines', '\n' ∉ line) : lines (ofLines lines') = lines' := by
  induction lines' with
  | nil => exact absurd rfl hne
  | cons line rest ih =>
    have hLine := lines_of_newline_notMem (h line List.mem_cons_self)
    by_cases hRest : rest = []
    · subst hRest
      exact hLine
    · rw [ofLines_cons hRest, lines_append_newline, hLine,
        ih hRest fun l hl => h l (List.mem_cons_of_mem _ hl)]
      rfl

/-! ## Bytes of lines -/

/-- The number of bytes of lines that each have a line feed after them. -/
def linesSize : List Text → Nat
  | [] => 0
  | line :: rest => line.byteSize + 1 + linesSize rest

@[simp] theorem linesSize_nil : linesSize [] = 0 := rfl

@[simp] theorem linesSize_cons (line : Text) (rest : List Text) :
    linesSize (line :: rest) = line.byteSize + 1 + linesSize rest := rfl

theorem linesSize_append (above below : List Text) :
    linesSize (above ++ below) = linesSize above + linesSize below := by
  induction above with
  | nil => rw [List.nil_append, linesSize_nil, Nat.zero_add]
  | cons line rest ih =>
    rw [List.cons_append, linesSize_cons, linesSize_cons, ih]
    omega

theorem linesSize_take_lt {lines' : List Text} {i : Nat} (h : i < lines'.length) :
    linesSize (lines'.take i) < linesSize lines' := by
  have hAppend := linesSize_append (lines'.take i) (lines'.drop i)
  rw [List.take_append_drop, List.drop_eq_getElem_cons h, linesSize_cons] at hAppend
  omega

theorem linesSize_of_ne_nil {lines' : List Text} (hne : lines' ≠ []) :
    linesSize lines' = byteSize (ofLines lines') + 1 := by
  induction lines' with
  | nil => exact absurd rfl hne
  | cons line rest ih =>
    by_cases hRest : rest = []
    · subst hRest
      rfl
    · have hNewline : byteSize ('\n' :: ofLines rest) = 1 + byteSize (ofLines rest) := rfl
      rw [linesSize_cons, ih hRest, ofLines_cons hRest, byteSize_append, hNewline]
      omega

theorem linesSize_lines (t : Text) : linesSize t.lines = t.byteSize + 1 := by
  rw [linesSize_of_ne_nil (lines_ne_nil t), ofLines_lines]

/-! ## Terminated lines -/

/-- The lines with a line feed after each of them. -/
def feed (lines' : List Text) : Text := lines'.flatMap (· ++ ['\n'])

theorem byteSize_feed (lines' : List Text) : (feed lines').byteSize = linesSize lines' := by
  induction lines' with
  | nil => rfl
  | cons line rest ih =>
    have hFeed : feed (line :: rest) = line ++ ['\n'] ++ feed rest := rfl
    rw [hFeed, byteSize_append, byteSize_append, ih, linesSize_cons]
    rfl

theorem ofLines_append (above : List Text) {below : List Text} (h : below ≠ []) :
    ofLines (above ++ below) = feed above ++ ofLines below := by
  induction above with
  | nil => rfl
  | cons line rest ih =>
    have hRest : rest ++ below ≠ [] := List.append_ne_nil_of_right_ne_nil rest h
    rw [List.cons_append, ofLines_cons hRest, ih]
    simp [feed]

theorem lines_feed_append {lines' : List Text} (h : ∀ line ∈ lines', '\n' ∉ line) (t : Text) :
    lines (feed lines' ++ t) = lines' ++ lines t := by
  induction lines' with
  | nil => rfl
  | cons line rest ih =>
    obtain ⟨hLine, hRest⟩ := List.forall_mem_cons.1 h
    have hFeed : feed (line :: rest) ++ t = line ++ '\n' :: (feed rest ++ t) := by simp [feed]
    rw [hFeed, lines_append_newline, lines_of_newline_notMem hLine, ih hRest]
    rfl

/-- Whether the text ends where a line starts. -/
def Terminated (t : Text) : Prop := t = [] ∨ t.getLast? = some '\n'

theorem Terminated.append {s t : Text} (hs : s.Terminated) (ht : t.Terminated) :
    (s ++ t).Terminated := by
  rcases ht with rfl | ht
  · rwa [List.append_nil]
  · right
    rw [List.getLast?_append, ht, Option.some_or]

theorem terminated_flatten {parts : List Text} (h : ∀ part ∈ parts, part.Terminated) :
    Terminated parts.flatten := by
  induction parts with
  | nil => exact Or.inl rfl
  | cons part rest ih =>
    obtain ⟨hPart, hRest⟩ := List.forall_mem_cons.1 h
    exact hPart.append (ih hRest)

theorem terminated_append_newline (t : Text) : (t ++ ['\n']).Terminated := by
  right
  rw [List.getLast?_append]
  rfl

theorem lines_append_of_terminated {s : Text} (hs : s.Terminated) (t : Text) :
    lines (s ++ t) = (lines s).dropLast ++ lines t := by
  rcases hs with rfl | hs
  · rfl
  · obtain ⟨init, rfl⟩ := List.getLast?_eq_some_iff.1 hs
    rw [List.append_assoc, List.singleton_append, lines_append_newline, lines_append_newline]
    congr 1
    exact List.dropLast_concat.symm

/-- Whether a line of the text starts at the byte, or the text ends there. -/
def IsLineBoundary (t : Text) (n : Nat) : Prop :=
  ∃ before after, t = before ++ after ∧ byteSize before = n ∧ (before.Terminated ∨ after = [])

/-! ## Carriage returns -/

/-- The carriage return at the end of a line, or nothing. -/
def ending (line : Text) : Text := line.splitReturn.2

theorem ending_cases (line : Text) : line.ending = ['\r'] ∨ line.ending = [] := by
  unfold ending splitReturn
  split <;> simp

/-- A line is its text and its end. -/
@[simp] theorem dropReturn_append_ending (line : Text) : line.dropReturn ++ line.ending = line := by
  unfold dropReturn ending splitReturn
  split
  · rename_i h
    obtain ⟨init, rfl⟩ := List.getLast?_eq_some_iff.1 h
    simp
  · simp

theorem splitReturn_append_return (t : Text) : splitReturn (t ++ ['\r']) = (t, ['\r']) := by
  simp [splitReturn]

theorem splitReturn_of_getLast?_ne {t : Text} (h : t.getLast? ≠ some '\r') :
    splitReturn t = (t, []) := by
  simp [splitReturn, h]

theorem getLast?_ne_return_of_ending_eq_nil {line : Text} (h : line.ending = []) :
    line.getLast? ≠ some '\r' := by
  intro hLast
  simp [ending, splitReturn, hLast] at h

theorem dropReturn_cons {c : Char} {line : Text} (h : line ≠ []) :
    dropReturn (c :: line) = c :: dropReturn line := by
  obtain ⟨d, ds, rfl⟩ := List.exists_cons_of_ne_nil h
  simp only [dropReturn, splitReturn, List.getLast?_cons_cons]
  split <;> rfl

/-- Whether every carriage return of the text has a line feed after it. -/
def ReturnsPaired (t : Text) : Prop := ∀ i : Nat, t[i]? = some '\r' → t[i + 1]? = some '\n'

instance (t : Text) : Decidable t.ReturnsPaired :=
  decidable_of_iff (∀ i < t.length, t[i]? = some '\r' → t[i + 1]? = some '\n')
    ⟨fun h i hi => h i (List.getElem?_eq_some_iff.1 hi).1 hi, fun h i _ => h i⟩

/-- Whether carriage returns stand at the ends of the lines only, and not on the last one. -/
def ReturnsLast : List Text → Prop
  | [] => True
  | [line] => '\r' ∉ line
  | line :: rest => '\r' ∉ line.dropReturn ∧ ReturnsLast rest

theorem returnsLast_cons {line : Text} {rest : List Text} (h : rest ≠ []) :
    ReturnsLast (line :: rest) ↔ '\r' ∉ line.dropReturn ∧ ReturnsLast rest := by
  obtain ⟨next, more, rfl⟩ := List.exists_cons_of_ne_nil h
  rfl

theorem ReturnsPaired.tail {c : Char} {cs : Text} (h : ReturnsPaired (c :: cs)) :
    ReturnsPaired cs :=
  fun i hi => h (i + 1) hi

theorem ReturnsLast.cons_of_ne {c : Char} (hc : c ≠ '\r') {line : Text} {rest : List Text}
    (h : ReturnsLast (line :: rest)) : ReturnsLast ((c :: line) :: rest) := by
  by_cases hRest : rest = []
  · subst hRest
    exact List.not_mem_cons_of_ne_of_not_mem (Ne.symm hc) h
  · obtain ⟨hLine, hRests⟩ := (returnsLast_cons hRest).1 h
    refine (returnsLast_cons hRest).2 ⟨?_, hRests⟩
    by_cases hNil : line = []
    · subst hNil
      have hSingle : dropReturn [c] = [c] := by simp [dropReturn, splitReturn, hc]
      rw [hSingle]
      exact List.not_mem_cons_of_ne_of_not_mem (Ne.symm hc) List.not_mem_nil
    · rw [dropReturn_cons hNil]
      exact List.not_mem_cons_of_ne_of_not_mem (Ne.symm hc) hLine

theorem ReturnsLast.of_cons {c : Char} {line : Text} {rest : List Text}
    (h : ReturnsLast ((c :: line) :: rest)) : ReturnsLast (line :: rest) := by
  by_cases hRest : rest = []
  · subst hRest
    exact List.not_mem_of_not_mem_cons h
  · obtain ⟨hLine, hRests⟩ := (returnsLast_cons hRest).1 h
    refine (returnsLast_cons hRest).2 ⟨?_, hRests⟩
    by_cases hNil : line = []
    · subst hNil
      exact List.not_mem_nil
    · rw [dropReturn_cons hNil] at hLine
      exact List.not_mem_of_not_mem_cons hLine

theorem ReturnsLast.head? {cs : Text} (h : ReturnsLast (lines ('\r' :: cs))) :
    cs.head? = some '\n' := by
  obtain ⟨line, rest, hLines⟩ := exists_lines_eq_cons cs
  rw [lines_cons_of_ne (by decide) hLines] at h
  by_cases hRest : rest = []
  · subst hRest
    exact absurd List.mem_cons_self h
  · have hLine := ((returnsLast_cons hRest).1 h).1
    by_cases hNil : line = []
    · cases cs with
      | nil =>
        cases hLines
        exact absurd rfl hRest
      | cons d ds =>
        by_cases hFeed : d = '\n'
        · rw [hFeed]
          rfl
        · obtain ⟨next, more, hds⟩ := exists_lines_eq_cons ds
          rw [lines_cons_of_ne hFeed hds, hNil] at hLines
          cases hLines
    · rw [dropReturn_cons hNil] at hLine
      exact absurd List.mem_cons_self hLine

theorem ReturnsPaired.returnsLast {t : Text} (h : t.ReturnsPaired) : ReturnsLast t.lines := by
  induction t with
  | nil => exact List.not_mem_nil
  | cons c cs ih =>
    have hcs := ih h.tail
    obtain ⟨line, rest, hLines⟩ := exists_lines_eq_cons cs
    by_cases hFeed : c = '\n'
    · subst hFeed
      rw [lines_newline_cons, returnsLast_cons (lines_ne_nil cs)]
      exact ⟨List.not_mem_nil, hcs⟩
    · by_cases hReturn : c = '\r'
      · -- the line feed after the carriage return ends the line
        subst hReturn
        have hHead : cs.head? = some '\n' := by
          rw [List.head?_eq_getElem?]
          exact h 0 rfl
        obtain ⟨ds, rfl⟩ := List.head?_eq_some_iff.1 hHead
        have hds := lines_newline_cons ds
        rw [hds, returnsLast_cons (lines_ne_nil ds)] at hcs
        rw [lines_cons_of_ne hFeed hds, returnsLast_cons (lines_ne_nil ds)]
        exact hcs
      · rw [lines_cons_of_ne hFeed hLines]
        rw [hLines] at hcs
        exact hcs.cons_of_ne hReturn

end RexxEditing.Text
