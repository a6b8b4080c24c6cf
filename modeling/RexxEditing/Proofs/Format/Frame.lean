import RexxEditing.Proofs.Format.Realisation

/-! # Edits that indent some lines

Edits for some lines of a text are those of the whole text that stand within the lines. What an edit
touches is known from the lines where it starts and stops. The end of a text is on its last line,
though, so an edit up to the end of the last line passes for one that stops where that line starts.

* `Patch.bounds_of_isWithin`: the lines of an edit that is taken to stand within a range.
* `lines_frame`: the lines outside of the range stay.
* `lines_touches_below`: where they do not stay.
-/

namespace RexxEditing.Format

open Diff (hunks run)
open Text (ReturnsLast Terminated)

/-! ## Ranges -/

theorem LineRange.clamp_bounds (r : LineRange) {count : Nat} (h : 0 < count) :
    (r.clamp count).start ≤ (r.clamp count).stop ∧ (r.clamp count).stop ≤ count := by
  unfold LineRange.clamp
  dsimp only
  split <;> dsimp only <;> omega

/-- An edit within a range starts and stops on lines of it, where the end of the text is on the last
line. -/
theorem Patch.bounds_of_isWithin {text : Text} {r : LineRange} {p : Patch}
    (h : (p.edit (LineTable.ofText text)).isWithin (LineTable.ofText text) r = true) :
    r.start ≤ min p.start (text.lines.length - 1) ∧
      min p.stop (text.lines.length - 1) ≤ r.stop := by
  have hStart := line_offset text p.start
  have hStop := line_offset text p.stop
  simp only [Edit.isWithin, Patch.edit, hStart, hStop] at h
  by_cases hEq : offset (LineTable.ofText text) p.start = offset (LineTable.ofText text) p.stop
  · rw [if_pos hEq, Bool.and_eq_true, decide_eq_true_eq, decide_eq_true_eq] at h
    rw [← hEq, hStart] at hStop
    omega
  · rw [if_neg hEq, Bool.and_eq_true, decide_eq_true_eq, decide_eq_true_eq] at h
    exact h

/-- The edits for some lines are those of patches within the lines. -/
theorem exists_lines_eq (levelWidth : Nat) (text : Text) (r : LineRange) :
    ∃ ps : List Patch, lines levelWidth text r = ps.map (Patch.edit (LineTable.ofText text)) ∧
      ps.Sublist (patches text (Indent.reindent levelWidth text)) ∧
      ∀ p ∈ ps, (p.edit (LineTable.ofText text)).isWithin (LineTable.ofText text)
        (r.clamp text.lines.length) = true := by
  by_cases hEq : text = Indent.reindent levelWidth text
  · refine ⟨[], ?_, List.nil_sublist _, fun p hp => by cases hp⟩
    rw [lines, document, edits, if_pos hEq]
    rfl
  · rw [lines, document, edits_eq hEq, List.filter_map, LineTable.count_ofText]
    refine ⟨_, rfl, List.filter_sublist, ?_⟩
    intro p hp
    exact (List.mem_filter.1 hp).2

/-- Whether the comparison of two texts puts one line in the place of each line that it changes. -/
def ChangesEven (before after : Text) : Prop :=
  ∀ h ∈ hunks (terminatedLines before) (terminatedLines after), h.isEven = true

instance (before after : Text) : Decidable (ChangesEven before after) :=
  inferInstanceAs (Decidable (∀ h ∈ hunks _ _, h.isEven = true))

/-! ## Lines around a range -/

/-- Lines around a part that changes stay at their places if the number of lines stays. -/
theorem getElem?_frame {lines middle : List Text} {s e i : Nat} (hse : s ≤ e)
    (he : e ≤ lines.length)
    (hLength : (lines.take s ++ middle ++ lines.drop e).length = lines.length)
    (hi : i < s ∨ e ≤ i) : (lines.take s ++ middle ++ lines.drop e)[i]? = lines[i]? := by
  have hTake : (lines.take s).length = s := by
    rw [List.length_take]
    omega
  rw [List.length_append, List.length_append, hTake, List.length_drop] at hLength
  rcases hi with hi | hi
  · rw [List.append_assoc, List.getElem?_append_left (by omega), List.getElem?_take_of_lt hi]
  · have hAbove : (lines.take s ++ middle).length = e := by
      rw [List.length_append, hTake]
      omega
    rw [List.getElem?_append_right (by omega), hAbove, List.getElem?_drop, Nat.add_sub_cancel' hi]

section Frame

variable {text : Text}

theorem lines_take_append (h : ReturnsLast text.lines) {k : Nat} (hk : k < text.lines.length)
    (t : Text) :
    Text.lines (((terminatedLines text).take k).flatten ++ t) = text.lines.take k ++ t.lines := by
  rw [flatten_take_terminatedLines h hk]
  apply Text.lines_feed_append
  intro line hLine
  exact Text.newline_notMem_of_mem_lines ((List.take_sublist _ _).mem hLine)

theorem lines_drop (h : ReturnsLast text.lines) {k : Nat} (hk : k < text.lines.length) :
    Text.lines ((terminatedLines text).drop k).flatten = text.lines.drop k := by
  have hAppend := lines_take_append h hk ((terminatedLines text).drop k).flatten
  rw [← List.flatten_append, List.take_append_drop, flatten_terminatedLines] at hAppend
  exact List.append_cancel_left (hAppend.symm.trans (List.take_append_drop k text.lines).symm)

/-- An edit within a range stops no later than the range, unless it changes a last line that has no
line feed. -/
theorem stop_le_of_le {r : LineRange} {p : Patch} (h : ReturnsLast text.lines)
    (hp : p.stop ≤ (terminatedLines text).length)
    (hStop : min p.stop (text.lines.length - 1) ≤ r.stop)
    (hLast : r.stop + 1 = text.lines.length → text.lines.getLast? = some []) :
    p.stop ≤ r.stop := by
  have hBounds := length_terminatedLines_bounds h
  by_cases hEnd : r.stop + 1 = text.lines.length
  · have hLength := length_withFeeds (hLast hEnd)
    rw [← terminatedLines_eq h] at hLength
    omega
  · omega

/-- Patches of some lines leave the lines above and below as they are. -/
theorem exists_lines_splice (h : ReturnsLast text.lines) {s e : Nat} {ps : List Patch}
    (hOrder : InOrder s (terminatedLines text).length ps) (hs : s < text.lines.length) (hse : s ≤ e)
    (hStop : ∀ p ∈ ps, p.stop ≤ e)
    (hText : e < text.lines.length → ∀ p ∈ ps, p.text.Terminated) :
    ∃ middle, Text.lines (((terminatedLines text).take s).flatten ++
        splice (terminatedLines text) s (terminatedLines text).length ps) =
      text.lines.take s ++ middle ++ text.lines.drop e := by
  rw [lines_take_append h hs]
  by_cases hBelow : e < text.lines.length
  · have hIn : InOrder s e ps :=
      hOrder.within hse (fun p hp => (hOrder.bounds hp).1) hStop
    have hLength : e ≤ (terminatedLines text).length := by
      have := length_terminatedLines_bounds h
      omega
    have hOld : ∀ line ∈ (terminatedLines text).take e, line.Terminated := by
      intro line hLine
      exact terminated_of_mem_take h hBelow hLine
    have hRest : run (terminatedLines text) e ((terminatedLines text).length - e) =
        (terminatedLines text).drop e := by
      rw [run, ← List.length_drop, List.take_length]
    rw [splice_of_le hIn hLength, hRest,
      Text.lines_append_of_terminated (terminated_splice hIn hOld (hText hBelow)),
      lines_drop h hBelow, ← List.append_assoc]
    exact ⟨_, rfl⟩
  · rw [List.drop_of_length_le (Nat.le_of_not_lt hBelow)]
    exact ⟨_, (List.append_nil _).symm⟩

theorem terminatedLines_reindent (levelWidth : Nat) (h : ReturnsLast text.lines) :
    terminatedLines (Indent.reindent levelWidth text) =
      withFeeds (Indent.reindent levelWidth text).lines := by
  apply terminatedLines_eq
  rw [Indent.lines_reindent]
  exact Indent.returnsLast_indented levelWidth _ [] .normal h

/-- The new text for lines above the last one ends in a line feed, unless it changes a last line
that has no line feed. -/
theorem terminated_of_mem_patches {levelWidth : Nat} (h : ReturnsLast text.lines)
    (hPlace : ChangesInPlace text (Indent.reindent levelWidth text)) {e : Nat}
    (he : e < text.lines.length)
    (hLast : e + 1 = text.lines.length → text.lines.getLast? = some []) {p : Patch}
    (hp : p ∈ patches text (Indent.reindent levelWidth text)) (hStop : p.stop ≤ e) :
    p.text.Terminated := by
  have hBounds := length_terminatedLines_bounds h
  have hNew := terminatedLines_reindent levelWidth h
  by_cases hEnd : e + 1 = text.lines.length
  · have hNil : (Indent.reindent levelWidth text).lines.getLast? = some [] := by
      rw [Indent.lines_reindent]
      exact Indent.getLast?_indented levelWidth _ [] .normal (hLast hEnd)
    obtain ⟨hunk, -, hp⟩ := List.mem_flatMap.1 hp
    obtain ⟨-, -, k, n, hText, -, -⟩ := exists_of_mem_patchesOf hp
    rw [hText, hNew]
    apply Text.terminated_flatten
    intro line hLine
    apply terminated_of_mem_withFeeds hNil
    exact (List.take_sublist _ _).mem (mem_take_of_mem_run (Nat.le_refl _) hLine)
  · have hTiles := Diff.hunks_tile hPlace
    have hNewLines : ∀ line ∈ (terminatedLines (Indent.reindent levelWidth text)).dropLast,
        line.Terminated := by
      rw [hNew]
      intro line hLine
      exact terminated_of_mem_dropLast_withFeeds hLine
    rcases hTiles.terminated hNewLines hp with hStop' | hText
    · omega
    · exact hText

/-- New lines in the places of old ones leave the number of lines as it is. -/
theorem length_lines_splice {levelWidth : Nat} (h : ReturnsLast text.lines) {s : Nat}
    {ps : List Patch} (hOrder : InOrder s (terminatedLines text).length ps)
    (hLines : ∀ p ∈ ps, p.stop = p.start + 1 ∧
      (terminatedLines (Indent.reindent levelWidth text))[p.start]? = some p.text) :
    (Text.lines (((terminatedLines text).take s).flatten ++
        splice (terminatedLines text) s (terminatedLines text).length ps)).length =
      text.lines.length := by
  have hSame : (Indent.reindent levelWidth text).lines.length = text.lines.length := by
    rw [Indent.lines_reindent, Indent.length_indented]
  have hCount : ∀ p ∈ ps, p.stop = p.start + 1 ∧ ∀ line,
      (terminatedLines text)[p.start]? = some line → p.text.count '\n' = line.count '\n' := by
    intro p hp
    obtain ⟨hStop, hText⟩ := hLines p hp
    refine ⟨hStop, ?_⟩
    intro line hLine
    rw [terminatedLines_reindent levelWidth h] at hText
    rw [terminatedLines_eq h] at hLine
    rw [count_newline_withFeeds (fun _ => Text.newline_notMem_of_mem_lines) hText,
      count_newline_withFeeds (fun _ => Text.newline_notMem_of_mem_lines) hLine, hSame]
  rw [Text.length_lines, Text.length_lines, List.count_append,
    count_splice '\n' hOrder (Nat.le_refl _) hCount, ← List.count_append, ← List.flatten_append,
    ← Diff.take_eq_append_run _ hOrder.le, List.take_length, flatten_terminatedLines]

end Frame

/-- **Range formatting.** Every carriage return of the text has a line feed after it, the comparison
has its insertions in place, and the range does not end right above a last line that has no line
feed. Then making the edits for the range gives a text that has the lines above and below the range
around whatever the range has become. If it has as many lines as before, the lines outside of the
range are at their places, and it has if the comparison puts one line in the place of each line that
it changes. -/
theorem lines_frame (levelWidth : Nat) {text : Text} (r : LineRange) (hText : text.ReturnsPaired)
    (hPlace : ChangesInPlace text (Indent.reindent levelWidth text))
    (hLast : (r.clamp text.lines.length).stop + 1 = text.lines.length →
      text.lines.getLast? = some []) :
    ∃ result middle, applyFromLast? (lines levelWidth text r) text = some result ∧
      result.lines = text.lines.take (r.clamp text.lines.length).start ++ middle ++
        text.lines.drop (r.clamp text.lines.length).stop ∧
      (result.lines.length = text.lines.length → ∀ i : Nat,
        i < (r.clamp text.lines.length).start ∨ (r.clamp text.lines.length).stop ≤ i →
        result.lines[i]? = text.lines[i]?) ∧
      (ChangesEven text (Indent.reindent levelWidth text) →
        result.lines.length = text.lines.length) := by
  have hLines := hText.returnsLast
  have hPos : 0 < text.lines.length := List.length_pos_iff.2 (Text.lines_ne_nil text)
  obtain ⟨hse, he⟩ := r.clamp_bounds hPos
  obtain ⟨ps, hEdits, hSub, hWithin⟩ := exists_lines_eq levelWidth text r
  generalize r.clamp text.lines.length = range at *
  have hOrder := (inOrder_patches hPlace).sublist hSub
  have hBounds (p : Patch) (hp : p ∈ ps) := Patch.bounds_of_isWithin (hWithin p hp)
  have hStops (p : Patch) (hp : p ∈ ps) : p.stop ≤ range.stop :=
    stop_le_of_le hLines (hOrder.bounds hp).2.2 (hBounds p hp).2 hLast
  -- the lines of the result, which are enough for the lines outside of the range
  suffices hResult : ∃ result middle, applyFromLast? (lines levelWidth text r) text = some result ∧
      result.lines = text.lines.take range.start ++ middle ++ text.lines.drop range.stop ∧
      (ChangesEven text (Indent.reindent levelWidth text) →
        result.lines.length = text.lines.length) by
    obtain ⟨result, middle, hApply, hFrame, hEven⟩ := hResult
    refine ⟨result, middle, hApply, hFrame, ?_, hEven⟩
    intro hLength i hi
    rw [hFrame] at hLength ⊢
    exact getElem?_frame hse he hLength hi
  by_cases hs : range.start < text.lines.length
  · have hStarts : ∀ p ∈ ps, range.start ≤ p.start := fun p hp => by
      have := (hBounds p hp).1
      omega
    have hLength := length_terminatedLines_bounds hLines
    have hStart : InOrder range.start (terminatedLines text).length ps :=
      hOrder.within (by omega) hStarts fun p hp => (hOrder.bounds hp).2.2
    have hApply := applyFromLast?_edit hStart fun p _ =>
      ⟨offset_eq hLines p.start, offset_eq hLines p.stop⟩
    rw [flatten_terminatedLines, ← hEdits] at hApply
    obtain ⟨middle, hMiddle⟩ := exists_lines_splice hLines hStart hs hse hStops
      fun hBelow p hp => terminated_of_mem_patches hLines hPlace hBelow hLast (hSub.mem hp)
        (hStops p hp)
    refine ⟨_, middle, hApply, hMiddle, ?_⟩
    intro hEven
    apply length_lines_splice hLines hStart
    intro p hp
    exact (Diff.hunks_tile hPlace).getElem?_of_even rfl hEven (hSub.mem hp)
  · -- no edit stands behind the last line
    have hNil : ps = [] := by
      apply List.eq_nil_iff_forall_not_mem.2
      intro p hp
      have := (hBounds p hp).1
      omega
    refine ⟨text, [], ?_, ?_, fun _ => rfl⟩
    · rw [hEdits, hNil]
      rfl
    · rw [List.take_of_length_le (Nat.le_of_not_lt hs), List.drop_of_length_le (by omega),
        List.append_nil, List.append_nil]

/-- The lines above the range stay as they are, and so does the empty line below it. -/
theorem lines_frame_above_end :
    let text : Text := "do\nsay 1\ndo\nsay 2\nend\n".toList
    text.ReturnsPaired ∧ ChangesInPlace text (Indent.reindent 2 text) ∧
      ChangesEven text (Indent.reindent 2 text) ∧
      text.lines.length = 6 ∧ text.lines.getLast? = some [] ∧
      ∃ result, applyFromLast? (lines 2 text ⟨3, 5⟩) text = some result ∧
        result = "do\nsay 1\ndo\n    say 2\n  end\n".toList ∧
        ∀ i : Nat, i < 3 ∨ 5 ≤ i → result.lines[i]? = text.lines[i]? := by
  intro text
  have hText : text.ReturnsPaired := by decide
  have hPlace : ChangesInPlace text (Indent.reindent 2 text) := by decide +kernel
  have hEven : ChangesEven text (Indent.reindent 2 text) := by decide +kernel
  have hLast : text.lines.getLast? = some [] := by decide
  have hResult : applyFromLast? (lines 2 text ⟨3, 5⟩) text =
      some "do\nsay 1\ndo\n    say 2\n  end\n".toList := by decide +kernel
  obtain ⟨result, middle, hApply, -, hPlaces, hCount⟩ :=
    lines_frame 2 ⟨3, 5⟩ hText hPlace fun _ => hLast
  refine ⟨hText, hPlace, hEven, by decide, hLast, result, hApply, ?_, hPlaces (hCount hEven)⟩
  exact Option.some.inj (hApply.symm.trans hResult)

/-- **Range formatting touches other lines.** The line below the range is changed if it is the last
one and has no line feed. It moves up if the line above it is taken for it, and is deleted. Where an
insertion is out of its place, the edits may cut a character, and there is no text at all. -/
theorem lines_touches_below :
    let unended : Text := "do\nsay 1".toList
    let twins : Text := " do\ndo\n".toList
    let wide : Text := " é\n \né\n".toList
    (∃ result, applyFromLast? (lines 2 unended ⟨0, 1⟩) unended = some result ∧
        result.lines[1]? ≠ unended.lines[1]?) ∧
      (∃ result, applyFromLast? (lines 2 twins ⟨0, 1⟩) twins = some result ∧
        result.lines[1]? ≠ twins.lines[1]?) ∧
      applyFromLast? (lines 2 wide ⟨0, 2⟩) wide = none := by
  refine ⟨⟨"do\n  say 1".toList, ?_, ?_⟩, ⟨"do\n".toList, ?_, ?_⟩, ?_⟩ <;> decide +kernel

end RexxEditing.Format
