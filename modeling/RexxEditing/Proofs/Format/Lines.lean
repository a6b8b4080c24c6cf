import RexxEditing.Format
import RexxEditing.Proofs.Text.Position

/-! # Terminated lines and their places

The comparison of two texts counts lines with their terminators, and the line table counts line
feeds. Both count the same lines where every carriage return has a line feed after it. The line
table may count one more, an empty line at the end.

* `flatten_terminatedLines`: the terminated lines make up the text.
* `terminatedLines_eq`: lines are terminated by line feeds.
* `offset_eq`: a terminated line starts where the line table says.
* `line_offset`: the line of a line start, as an edit is asked for it.
-/

namespace RexxEditing.Format

open Text (ReturnsLast Terminated linesSize feed)

theorem flatten_terminatedLines (t : Text) : (terminatedLines t).flatten = t := by
  fun_induction terminatedLines t with
  | case1 => rfl
  | case2 cs ih => simp [ih]
  | case3 c cs hc hEnd ih => simp [ih]
  | case4 c cs hc hEnd line rest hLines ih =>
    rw [hLines] at ih
    simp [← ih]
  | case5 c cs hc hEnd hLines ih =>
    rw [hLines] at ih
    simp [← ih]

/-- The lines with a line feed after each but the last, which is left out if it is empty. -/
def withFeeds : List Text → List Text
  | [] => []
  | [line] => if line = [] then [] else [line]
  | line :: rest => (line ++ ['\n']) :: withFeeds rest

theorem withFeeds_cons {line : Text} {rest : List Text} (h : rest ≠ []) :
    withFeeds (line :: rest) = (line ++ ['\n']) :: withFeeds rest := by
  obtain ⟨next, more, rfl⟩ := List.exists_cons_of_ne_nil h
  rfl

theorem withFeeds_concat (lines : List Text) (last : Text) :
    withFeeds (lines ++ [last]) = lines.map (· ++ ['\n']) ++ if last = [] then [] else [last] := by
  induction lines with
  | nil => rfl
  | cons line rest ih =>
    rw [List.cons_append, withFeeds_cons (List.concat_ne_nil last rest), ih]
    rfl

theorem withFeeds_cons_cons (c : Char) (line : Text) (rest : List Text) :
    withFeeds ((c :: line) :: rest) =
      match withFeeds (line :: rest) with
      | line' :: rest' => (c :: line') :: rest'
      | [] => [[c]] := by
  cases rest with
  | nil =>
    by_cases hNil : line = []
    · subst hNil
      rfl
    · simp [withFeeds, hNil]
  | cons next more => rfl

/-- **Terminated lines.** Where every carriage return has a line feed after it, lines are terminated
by line feeds, and an empty line at the end does not count. -/
theorem terminatedLines_eq {t : Text} (h : ReturnsLast t.lines) :
    terminatedLines t = withFeeds t.lines := by
  fun_induction terminatedLines t with
  | case1 => rfl
  | case2 cs ih =>
    have hReturn : '\r' ≠ '\n' := by decide
    have hNe := Text.lines_ne_nil cs
    rw [Text.lines_cons_of_ne hReturn (Text.lines_newline_cons cs)] at h ⊢
    rw [withFeeds_cons hNe, ih ((Text.returnsLast_cons hNe).1 h).2]
    rfl
  | case3 c cs hPair hEnd ih =>
    rcases hEnd with rfl | rfl
    · have hNe := Text.lines_ne_nil cs
      rw [Text.lines_newline_cons] at h ⊢
      rw [withFeeds_cons hNe, ih ((Text.returnsLast_cons hNe).1 h).2]
      rfl
    · obtain ⟨ds, rfl⟩ := List.head?_eq_some_iff.1 h.head?
      exact (hPair ds rfl rfl).elim
  | case4 c cs hPair hEnd line rest hLines ih
  | case5 c cs hPair hEnd hLines ih =>
    have hc : c ≠ '\n' := fun hc => hEnd (Or.inl hc)
    obtain ⟨first, more, hcs⟩ := Text.exists_lines_eq_cons cs
    rw [Text.lines_cons_of_ne hc hcs] at h ⊢
    rw [withFeeds_cons_cons, ← hcs, ← ih (hcs ▸ h.of_cons), hLines]

theorem terminated_of_mem_dropLast_withFeeds {lines : List Text} {line : Text}
    (h : line ∈ (withFeeds lines).dropLast) : line.Terminated := by
  rcases List.eq_nil_or_concat lines with rfl | ⟨init, last, rfl⟩
  · cases h
  · rw [List.concat_eq_append, withFeeds_concat] at h
    have hMem : line ∈ init.map (· ++ ['\n']) := by
      split at h
      · rw [List.append_nil] at h
        exact (List.dropLast_sublist _).mem h
      · rwa [List.dropLast_concat] at h
    obtain ⟨body, -, rfl⟩ := List.mem_map.1 hMem
    exact Text.terminated_append_newline body

theorem terminated_of_mem_withFeeds {lines : List Text} (hLast : lines.getLast? = some [])
    {line : Text} (h : line ∈ withFeeds lines) : line.Terminated := by
  obtain ⟨init, rfl⟩ := List.getLast?_eq_some_iff.1 hLast
  rw [withFeeds_concat, if_pos rfl, List.append_nil] at h
  obtain ⟨body, -, rfl⟩ := List.mem_map.1 h
  exact Text.terminated_append_newline body

/-- Every line but the last has one line feed. -/
theorem count_newline_withFeeds {lines : List Text} (h : ∀ line ∈ lines, '\n' ∉ line) {i : Nat}
    {line : Text} (hLine : (withFeeds lines)[i]? = some line) :
    line.count '\n' = if i + 1 < lines.length then 1 else 0 := by
  rcases List.eq_nil_or_concat lines with rfl | ⟨init, last, rfl⟩
  · cases hLine
  · rw [List.concat_eq_append] at h hLine ⊢
    rw [withFeeds_concat] at hLine
    rw [List.length_append, List.length_singleton]
    by_cases hi : i < init.length
    · rw [List.getElem?_append_left (by rwa [List.length_map]), List.getElem?_map,
        List.getElem?_eq_getElem hi] at hLine
      cases hLine
      have hBody := h _ (List.mem_append_left _ (List.getElem_mem hi))
      rw [if_pos (Nat.succ_lt_succ hi), List.count_append, List.count_eq_zero_of_not_mem hBody]
      rfl
    · rw [List.getElem?_append_right (by rw [List.length_map]; omega)] at hLine
      have hMem := List.mem_of_getElem? hLine
      have hLast : line = last := by
        split at hMem
        · cases hMem
        · exact List.mem_singleton.1 hMem
      rw [if_neg (by omega), hLast]
      exact List.count_eq_zero_of_not_mem (h last (List.mem_append_right _ List.mem_cons_self))

theorem length_withFeeds {lines : List Text} (hLast : lines.getLast? = some []) :
    (withFeeds lines).length + 1 = lines.length := by
  obtain ⟨init, rfl⟩ := List.getLast?_eq_some_iff.1 hLast
  rw [withFeeds_concat, if_pos rfl, List.append_nil, List.length_map, List.length_append]
  rfl

theorem length_le_length_withFeeds (lines : List Text) :
    lines.length ≤ (withFeeds lines).length + 1 := by
  rcases List.eq_nil_or_concat lines with rfl | ⟨init, last, rfl⟩
  · exact Nat.zero_le _
  · simp only [List.concat_eq_append, withFeeds_concat, List.length_append, List.length_map,
      List.length_singleton]
    omega

/-! ## Line starts -/

theorem take_withFeeds {lines : List Text} {i : Nat} (h : i < lines.length) :
    (withFeeds lines).take i = (lines.take i).map (· ++ ['\n']) := by
  induction lines generalizing i with
  | nil => cases h
  | cons line rest ih =>
    cases i with
    | zero => rfl
    | succ i =>
      have hi := Nat.lt_of_succ_lt_succ h
      have hNe : rest ≠ [] := List.ne_nil_of_length_pos (Nat.zero_lt_of_lt hi)
      rw [withFeeds_cons hNe, List.take_succ_cons, ih hi]
      rfl

theorem length_withFeeds_le (lines : List Text) : (withFeeds lines).length ≤ lines.length := by
  fun_induction withFeeds lines with
  | case1 => exact Nat.le_refl 0
  | case2 => exact Nat.zero_le _
  | case3 => exact Nat.le_refl 1
  | case4 line rest _ ih => exact Nat.succ_le_succ ih

theorem length_terminatedLines_bounds {text : Text} (h : ReturnsLast text.lines) :
    (terminatedLines text).length ≤ text.lines.length ∧
      text.lines.length ≤ (terminatedLines text).length + 1 := by
  rw [terminatedLines_eq h]
  exact ⟨length_withFeeds_le _, length_le_length_withFeeds _⟩

/-- The lines above a line are terminated. -/
theorem terminated_of_mem_take {text : Text} (h : ReturnsLast text.lines) {i : Nat}
    (hi : i < text.lines.length) {line : Text} (hLine : line ∈ (terminatedLines text).take i) :
    line.Terminated := by
  rw [terminatedLines_eq h, take_withFeeds hi] at hLine
  obtain ⟨body, -, rfl⟩ := List.mem_map.1 hLine
  exact Text.terminated_append_newline body

/-- The first lines of a text, up to where a line starts. -/
theorem flatten_take_terminatedLines {text : Text} (h : ReturnsLast text.lines) {i : Nat}
    (hi : i < text.lines.length) :
    ((terminatedLines text).take i).flatten = feed (text.lines.take i) := by
  rw [terminatedLines_eq h, take_withFeeds hi, feed, List.flatMap_def]

theorem offset_eq_linesSize {text : Text} {i : Nat} (hi : i < text.lines.length) :
    offset (LineTable.ofText text) i = linesSize (text.lines.take i) := by
  rw [offset, LineTable.start?, LineTable.ofText, LineTable.getElem?_startsFrom 0 hi, Nat.zero_add]
  rfl

theorem offset_eq_byteSize {text : Text} {i : Nat} (hi : text.lines.length ≤ i) :
    offset (LineTable.ofText text) i = text.byteSize := by
  have hNone : (LineTable.startsFrom 0 text.lines)[i]? = none := by
    rw [List.getElem?_eq_none_iff, LineTable.length_startsFrom]
    exact hi
  rw [offset, LineTable.start?, LineTable.ofText, hNone]
  rfl

/-- **Line starts.** Where every carriage return has a line feed after it, a terminated line starts
where the line table says. -/
theorem offset_eq {text : Text} (h : ReturnsLast text.lines) (i : Nat) :
    offset (LineTable.ofText text) i = Text.byteSize ((terminatedLines text).take i).flatten := by
  by_cases hi : i < text.lines.length
  · rw [offset_eq_linesSize hi, flatten_take_terminatedLines h hi, Text.byteSize_feed]
  · have hLength : (terminatedLines text).length ≤ i := by
      have := (length_terminatedLines_bounds h).1
      omega
    rw [offset_eq_byteSize (Nat.le_of_not_lt hi), List.take_of_length_le hLength,
      flatten_terminatedLines]

theorem offset_le (text : Text) (i : Nat) : offset (LineTable.ofText text) i ≤ text.byteSize := by
  by_cases hi : i < text.lines.length
  · have hLt := Text.linesSize_take_lt hi
    rw [Text.linesSize_lines] at hLt
    rw [offset_eq_linesSize hi]
    exact Nat.le_of_lt_succ hLt
  · exact Nat.le_of_eq (offset_eq_byteSize (Nat.le_of_not_lt hi))

/-- The line of a line start is that line, or the last one. -/
theorem line_offset (text : Text) (i : Nat) :
    ((LineTable.ofText text).position (offset (LineTable.ofText text) i)).line =
      min i (text.lines.length - 1) := by
  have hSize : min (offset (LineTable.ofText text) i) (LineTable.ofText text).size =
      offset (LineTable.ofText text) i := Nat.min_eq_left (offset_le text i)
  simp only [LineTable.position, hSize]
  by_cases hi : i < text.lines.length
  · rw [offset_eq_linesSize hi, LineTable.lineOf_start hi]
    omega
  · rw [offset_eq_byteSize (Nat.le_of_not_lt hi), LineTable.lineOf_size]
    omega

end RexxEditing.Format
