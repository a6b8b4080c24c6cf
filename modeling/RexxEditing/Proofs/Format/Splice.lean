import RexxEditing.Format
import RexxEditing.Proofs.Diff.Hunk
import RexxEditing.Proofs.Text.Bytes
import RexxEditing.Proofs.Text.Lines

/-! # Edits of whole lines

Every edit of a comparison is a new text for some lines. Told by line numbers, it is a patch.
Patches in order are spliced into the old lines, and the edits do the same to the text, as long as
the lines start where the edits take them to start. Patches that are left out leave the lines as
they were.

* `applyFromLast?_edit`: making the edits of patches in order splices the patches.
* `InOrder.sublist`: patches in order stay so when some are left out.
* `Diff.Tiles.inOrder`, `Diff.Tiles.splice_eq`: the patches of all hunks give the new lines.
-/

namespace RexxEditing.Format

open Diff (Hunk run)
open Text (byteSize cut?)

/-! ## Making edits -/

/-- The text with the edit made. There is none if the span of the edit is not one of the text. -/
def Edit.applyTo? (e : Edit) (t : Text) : Option Text :=
  if e.span.start ≤ e.span.stop then do
    let (before, rest) ← t.cut? e.span.start
    let (_, after) ← Text.cut? rest (e.span.stop - e.span.start)
    return before ++ e.text ++ after
  else none

/-- The text with the edits made, the last of them first. -/
def applyFromLast? : List Edit → Text → Option Text
  | [], t => some t
  | e :: es, t => (applyFromLast? es t).bind e.applyTo?

/-- The text with the edits made, those further down first. -/
def applySorted? (es : List Edit) (t : Text) : Option Text :=
  applyFromLast? (es.mergeSort fun d e => d.span.start ≤ e.span.start) t

theorem Edit.applyTo?_append {e : Edit} {before part : Text}
    (hStart : e.span.start = before.byteSize)
    (hStop : e.span.stop = byteSize (before ++ part)) (after : Text) :
    e.applyTo? (before ++ part ++ after) = some (before ++ e.text ++ after) := by
  rw [Text.byteSize_append] at hStop
  have hLe : e.span.start ≤ e.span.stop := by omega
  have hPart : e.span.stop - e.span.start = part.byteSize := by omega
  rw [Edit.applyTo?, if_pos hLe, hPart, hStart, List.append_assoc, Text.cut?_append]
  simp only [Option.bind_eq_bind, Option.bind_some, Text.cut?_append]
  rfl

/-! ## Patches -/

/-- A new text for the lines from `start` up to, and not including, `stop`. -/
structure Patch where
  start : Nat
  stop : Nat
  text : Text
  deriving DecidableEq, Repr

/-- The patch with the bytes where its lines start. -/
def Patch.edit (table : LineTable) (p : Patch) : Edit :=
  ⟨⟨offset table p.start, offset table p.stop⟩, p.text⟩

/-- One patch for each line from `i` on. -/
def linePatches (i : Nat) : List Text → List Patch
  | [] => []
  | line :: rest => ⟨i, i + 1, line⟩ :: linePatches (i + 1) rest

/-- The patches of a hunk. -/
def patchesOf (newLines : List Text) (h : Hunk) : List Patch :=
  if h.isEven then linePatches h.old (run newLines h.new h.newLength)
  else [⟨h.old, h.old + h.oldLength, (run newLines h.new h.newLength).flatten⟩]

theorem mapIdx_eq_linePatches (table : LineTable) (i : Nat) (lines : List Text) :
    lines.mapIdx (fun k line => (⟨⟨offset table (i + k), offset table (i + k + 1)⟩, line⟩ : Edit)) =
      (linePatches i lines).map (Patch.edit table) := by
  induction lines generalizing i with
  | nil => rfl
  | cons line rest ih =>
    rw [List.mapIdx_cons, linePatches, List.map_cons, ← ih (i + 1)]
    simp only [Patch.edit, Nat.add_zero, Nat.add_comm, Nat.add_left_comm]

theorem exists_of_mem_linePatches {i : Nat} {lines : List Text} {p : Patch}
    (h : p ∈ linePatches i lines) :
    ∃ k, lines[k]? = some p.text ∧ p.start = i + k ∧ p.stop = i + k + 1 := by
  induction lines generalizing i with
  | nil => cases h
  | cons line rest ih =>
    rcases List.mem_cons.1 h with rfl | h
    · exact ⟨0, rfl, rfl, rfl⟩
    · obtain ⟨k, hText, hStart, hStop⟩ := ih h
      exact ⟨k + 1, hText, by omega, by omega⟩

/-- The patches of a hunk start and stop on its old lines and have some of its new lines. What has
the last of these stops behind the last old line. -/
theorem exists_of_mem_patchesOf {newLines : List Text} {h : Hunk} {p : Patch}
    (hp : p ∈ patchesOf newLines h) :
    (∃ k ≤ h.oldLength, p.start = h.old + k) ∧ (∃ k ≤ h.oldLength, p.stop = h.old + k) ∧
      ∃ k n, p.text = (run newLines (h.new + k) n).flatten ∧ k + n ≤ h.newLength ∧
        (k + n = h.newLength → p.stop = h.old + h.oldLength) := by
  unfold patchesOf at hp
  split at hp
  · rename_i hEven
    have hLengths : h.oldLength = h.newLength := eq_of_beq hEven
    obtain ⟨k, hText, hStart, hStop⟩ := exists_of_mem_linePatches hp
    obtain ⟨hLength, hLine⟩ := List.getElem?_eq_some_iff.1 hText
    have hk : k < h.newLength := by
      rw [run, List.length_take] at hLength
      omega
    have hRun : run newLines (h.new + k) 1 = [p.text] := by
      rw [← Diff.take_run newLines (h.new + k) (Nat.le_sub_of_add_le' hk), ← Diff.drop_run,
        List.drop_eq_getElem_cons hLength, hLine]
      rfl
    refine ⟨⟨k, by omega, hStart⟩, ⟨k + 1, by omega, hStop⟩, k, 1, ?_, hk, by omega⟩
    rw [hRun, List.flatten_singleton]
  · obtain rfl := List.mem_singleton.1 hp
    exact ⟨⟨0, Nat.zero_le _, rfl⟩, ⟨h.oldLength, Nat.le_refl _, rfl⟩, 0, h.newLength, rfl,
      Nat.le_of_eq (Nat.zero_add _), fun _ => rfl⟩

theorem editsOf_eq (table : LineTable) (newLines : List Text) (h : Hunk) :
    editsOf table newLines h = (patchesOf newLines h).map (Patch.edit table) := by
  unfold editsOf patchesOf
  dsimp only
  split
  · exact mapIdx_eq_linePatches table h.old _
  · rfl

/-! ## Patches in order -/

/-- Whether the patches stand one after the other between lines `i` and `n`. -/
def InOrder (i n : Nat) : List Patch → Prop
  | [] => i ≤ n
  | p :: ps => i ≤ p.start ∧ p.start ≤ p.stop ∧ InOrder p.stop n ps

/-- The lines from `i` up to `n` with the patches in the place of theirs. -/
def splice (old : List Text) (i n : Nat) : List Patch → Text
  | [] => (run old i (n - i)).flatten
  | p :: ps => (run old i (p.start - i)).flatten ++ p.text ++ splice old p.stop n ps

namespace InOrder

variable {i n : Nat} {ps qs : List Patch}

theorem le (h : InOrder i n ps) : i ≤ n := by
  induction ps generalizing i with
  | nil => exact h
  | cons p ps ih =>
    obtain ⟨hStart, hStop, hRest⟩ := h
    exact Nat.le_trans hStart (Nat.le_trans hStop (ih hRest))

theorem of_le {k : Nat} (h : InOrder i n ps) (hk : k ≤ i) : InOrder k n ps := by
  cases ps with
  | nil => exact Nat.le_trans hk h
  | cons p ps => exact ⟨Nat.le_trans hk h.1, h.2⟩

theorem sublist (h : InOrder i n ps) (hSub : qs.Sublist ps) : InOrder i n qs := by
  induction hSub generalizing i with
  | slnil => exact h
  | cons p _ ih => exact ih (h.2.2.of_le (Nat.le_trans h.1 h.2.1))
  | cons_cons p _ ih => exact ⟨h.1, h.2.1, ih h.2.2⟩

theorem bounds (h : InOrder i n ps) {p : Patch} (hp : p ∈ ps) :
    i ≤ p.start ∧ p.start ≤ p.stop ∧ p.stop ≤ n := by
  induction ps generalizing i with
  | nil => cases hp
  | cons q ps ih =>
    obtain ⟨hStart, hStop, hRest⟩ := h
    rcases List.mem_cons.1 hp with rfl | hp
    · exact ⟨hStart, hStop, hRest.le⟩
    · have := ih hRest hp
      omega

theorem pairwise (h : InOrder i n ps) : ps.Pairwise fun p q => p.stop ≤ q.start := by
  induction ps generalizing i with
  | nil => exact .nil
  | cons p ps ih => exact .cons (fun q hq => (h.2.2.bounds hq).1) (ih h.2.2)

/-- Patches in order stay so between narrower bounds. -/
theorem within {s e : Nat} (h : InOrder i n ps) (hse : s ≤ e) (hStart : ∀ p ∈ ps, s ≤ p.start)
    (hStop : ∀ p ∈ ps, p.stop ≤ e) : InOrder s e ps := by
  induction ps generalizing i s with
  | nil => exact hse
  | cons p ps ih =>
    obtain ⟨hStartHere, -⟩ := List.forall_mem_cons.1 hStart
    obtain ⟨hStopHere, hStopRest⟩ := List.forall_mem_cons.1 hStop
    obtain ⟨-, hLe, hRest⟩ := h
    exact ⟨hStartHere, hLe, ih hRest hStopHere (fun q hq => (hRest.bounds hq).1) hStopRest⟩

theorem linePatches {lines : List Text} (h : InOrder (i + lines.length) n ps) :
    InOrder i n (linePatches i lines ++ ps) := by
  induction lines generalizing i with
  | nil => exact h
  | cons line rest ih =>
    refine ⟨Nat.le_refl i, Nat.le_succ i, ih ?_⟩
    rwa [Nat.add_right_comm]

end InOrder

/-! ## Spliced lines -/

section Splice

variable {old : List Text} {i n : Nat} {ps : List Patch}

theorem splice_add (m : Nat) (h : InOrder (i + m) n ps) :
    splice old i n ps = (run old i m).flatten ++ splice old (i + m) n ps := by
  cases ps with
  | nil =>
    have hle : i + m ≤ n := h
    have hn : n - i = m + (n - (i + m)) := by omega
    rw [splice, splice, hn, Diff.run_add, List.flatten_append]
  | cons p ps =>
    have hp : p.start - i = m + (p.start - (i + m)) := by
      have := h.1
      omega
    rw [splice, splice, hp, Diff.run_add, List.flatten_append, List.append_assoc, List.append_assoc,
      List.append_assoc]

theorem splice_of_le {k : Nat} (h : InOrder i k ps) (hk : k ≤ n) :
    splice old i n ps = splice old i k ps ++ (run old k (n - k)).flatten := by
  induction ps generalizing i with
  | nil =>
    have hle : i ≤ k := h
    have hn : n - i = k - i + (n - k) := by omega
    rw [splice, splice, hn, Diff.run_add, List.flatten_append, Nat.add_sub_cancel' hle]
  | cons p ps ih => rw [splice, splice, ih h.2.2, List.append_assoc _ (splice _ _ _ _)]

theorem mem_take_of_mem_run {k m : Nat} (h : i + m ≤ k) {line : Text} (hLine : line ∈ run old i m) :
    line ∈ old.take k := by
  have hMem : line ∈ old.take (i + m) := by
    rw [List.take_add]
    exact List.mem_append_right _ hLine
  exact (List.take_sublist_take_left h).mem hMem

/-- Patches that end in line feeds, spliced into lines that do, end in a line feed. -/
theorem terminated_splice (h : InOrder i n ps) (hOld : ∀ line ∈ old.take n, line.Terminated)
    (hText : ∀ p ∈ ps, p.text.Terminated) : (splice old i n ps).Terminated := by
  induction ps generalizing i with
  | nil =>
    have hle : i ≤ n := h
    exact Text.terminated_flatten fun line hLine =>
      hOld line (mem_take_of_mem_run (by omega) hLine)
  | cons p ps ih =>
    obtain ⟨hTextHere, hTextRest⟩ := List.forall_mem_cons.1 hText
    have hn : i + (p.start - i) ≤ n := by
      have := h.bounds List.mem_cons_self
      omega
    have hKept := Text.terminated_flatten fun line hLine =>
      hOld line (mem_take_of_mem_run hn hLine)
    exact (hKept.append hTextHere).append (ih h.2.2 hTextRest)

/-- Patches of single lines leave the number of a character as it is if every one of them does. -/
theorem count_splice (c : Char) (h : InOrder i n ps) (hn : n ≤ old.length)
    (hCount : ∀ p ∈ ps, p.stop = p.start + 1 ∧
      ∀ line, old[p.start]? = some line → p.text.count c = line.count c) :
    (splice old i n ps).count c = (run old i (n - i)).flatten.count c := by
  induction ps generalizing i with
  | nil => rfl
  | cons p ps ih =>
    obtain ⟨⟨hStop, hText⟩, hRest⟩ := List.forall_mem_cons.1 hCount
    obtain ⟨hStart, -, hOrder⟩ := h
    have hLe := hOrder.le
    have hBelow : p.start < old.length := by omega
    have hLine : run old p.start 1 = [old[p.start]] := by
      rw [run, List.drop_eq_getElem_cons hBelow]
      rfl
    -- the lines above the patch, its line, and the lines below it
    have hParts : run old i (n - i) =
        run old i (p.start - i) ++ ([old[p.start]] ++ run old p.stop (n - p.stop)) := by
      have hLength : n - i = (p.start - i) + (1 + (n - p.stop)) := by omega
      rw [hLength, Diff.run_add, Diff.run_add, Nat.add_sub_cancel' hStart, hLine, hStop]
    rw [splice, hParts]
    simp only [List.flatten_append, List.count_append, List.flatten_singleton, ih hOrder hRest,
      hText _ (List.getElem?_eq_getElem hBelow), Nat.add_assoc]

theorem splice_cons_self {k : Nat} (text : Text) :
    splice old i n (⟨i, k, text⟩ :: ps) = text ++ splice old k n ps := by
  rw [splice, Nat.sub_self]
  rfl

theorem splice_linePatches (lines : List Text) :
    splice old i n (linePatches i lines ++ ps) =
      lines.flatten ++ splice old (i + lines.length) n ps := by
  induction lines generalizing i with
  | nil => rfl
  | cons line rest ih =>
    rw [linePatches, List.cons_append, splice_cons_self, ih, List.flatten_cons, List.append_assoc,
      List.length_cons, Nat.add_right_comm, Nat.add_assoc]

theorem byteSize_take_le {k : Nat} (h : i ≤ k) :
    byteSize (old.take i).flatten ≤ byteSize (old.take k).flatten := by
  obtain ⟨m, rfl⟩ := Nat.exists_eq_add_of_le h
  rw [List.take_add, List.flatten_append, Text.byteSize_append]
  exact Nat.le_add_right _ _

/-- Whether the line table has the line start behind the old lines above it. -/
def Located (table : LineTable) (old : List Text) (k : Nat) : Prop :=
  offset table k = byteSize (old.take k).flatten

instance (table : LineTable) (old : List Text) (k : Nat) : Decidable (Located table old k) :=
  inferInstanceAs (Decidable (_ = _))

/-- **Splicing.** Making the edits of patches in order, from the last to the first, splices the
patches into the lines, if these start where the line table says. -/
theorem applyFromLast?_edit {table : LineTable} (h : InOrder i old.length ps)
    (hLocated : ∀ p ∈ ps, Located table old p.start ∧ Located table old p.stop) :
    applyFromLast? (ps.map (Patch.edit table)) old.flatten =
      some ((old.take i).flatten ++ splice old i old.length ps) := by
  induction ps generalizing i with
  | nil =>
    rw [splice, run, ← List.length_drop, List.take_length, ← List.flatten_append,
      List.take_append_drop]
    rfl
  | cons p ps ih =>
    obtain ⟨hStart, hStop, hRest⟩ := h
    obtain ⟨hLocatedHere, hLocatedRest⟩ := List.forall_mem_cons.1 hLocated
    have hBefore : (old.take p.start).flatten =
        (old.take i).flatten ++ (run old i (p.start - i)).flatten := by
      rw [Diff.take_eq_append_run old hStart, List.flatten_append]
    have hPart : (old.take p.stop).flatten =
        (old.take p.start).flatten ++ (run old p.start (p.stop - p.start)).flatten := by
      rw [Diff.take_eq_append_run old hStop, List.flatten_append]
    have hBegin : (p.edit table).span.start = byteSize (old.take p.start).flatten :=
      hLocatedHere.1
    have hEnd : (p.edit table).span.stop =
        byteSize ((old.take p.start).flatten ++ (run old p.start (p.stop - p.start)).flatten) := by
      rw [← hPart]
      exact hLocatedHere.2
    have hEdited := Edit.applyTo?_append hBegin hEnd (splice old p.stop old.length ps)
    rw [List.map_cons, applyFromLast?, ih hRest hLocatedRest, hPart, Option.bind_some, hEdited,
      hBefore, splice, Patch.edit]
    simp only [List.append_assoc]

end Splice

end RexxEditing.Format

/-! ## Patches of hunks -/

namespace RexxEditing.Diff.Tiles

open Format (InOrder linePatches patchesOf splice)

variable {old new : List Text} {i j : Nat} {h : Hunk} {hs : List Hunk}

/-- A hunk that has no lines has no patches, wherever it stands. -/
theorem patchesOf_eq (hOld : h.oldLength ≠ 0 ∨ h.newLength ≠ 0 → h.old = i)
    (hNew : h.newLength ≠ 0 → h.new = j) :
    patchesOf new h = if h.isEven then linePatches i (run new j h.newLength)
      else [⟨i, i + h.oldLength, (run new j h.newLength).flatten⟩] := by
  by_cases hn : h.newLength = 0
  · by_cases ho : h.oldLength = 0
    · simp [patchesOf, Hunk.isEven, hn, ho, run, linePatches]
    · simp [patchesOf, hn, run, linePatches, hOld (Or.inl ho)]
  · rw [patchesOf, hOld (Or.inr hn), hNew hn]

theorem length_run_of_even (hEven : h.isEven = true) (hNew : j + h.newLength ≤ new.length) :
    (run new j h.newLength).length = h.oldLength := by
  rw [length_run hNew, eq_of_beq hEven]

theorem inOrder (h : Tiles old new i j hs) : InOrder i old.length (hs.flatMap (patchesOf new)) := by
  induction h with
  | done => exact Nat.le_refl _
  | keep _ _ ih => exact ih.of_le (Nat.le_add_right _ _)
  | @hunk i j h hs hOld hNew _ hRest ih =>
    rw [List.flatMap_cons, patchesOf_eq hOld hNew]
    split
    · rename_i hEven
      apply InOrder.linePatches
      rwa [length_run_of_even hEven hRest.le.2]
    · exact ⟨Nat.le_refl i, Nat.le_add_right i _, ih⟩

/-- **Splicing all hunks.** The patches of hunks that divide both lists put the new lines in the
place of the old ones. -/
theorem splice_eq (h : Tiles old new i j hs) :
    splice old i old.length (hs.flatMap (patchesOf new)) = (new.drop j).flatten := by
  induction h with
  | done => simp [splice, run]
  | @keep i j n hs hRun hRest ih =>
    rw [Format.splice_add n hRest.inOrder, ih, hRun, drop_eq_run_append new j n,
      List.flatten_append]
  | @hunk i j h hs hOld hNew _ hRest ih =>
    rw [List.flatMap_cons, patchesOf_eq hOld hNew, drop_eq_run_append new j h.newLength,
      List.flatten_append, ← ih]
    split
    · rename_i hEven
      rw [Format.splice_linePatches, length_run_of_even hEven hRest.le.2]
    · exact Format.splice_cons_self _

/-- Even hunks put every new line in the place of the old line of its number. -/
theorem getElem?_of_even (h : Tiles old new i j hs) (hij : i = j)
    (hEven : ∀ h ∈ hs, h.isEven = true) {p : Format.Patch} (hp : p ∈ hs.flatMap (patchesOf new)) :
    p.stop = p.start + 1 ∧ new[p.start]? = some p.text := by
  induction h with
  | done => cases hp
  | keep _ _ ih => exact ih (congrArg (· + _) hij) hEven hp
  | @hunk i j h hs hOld hNew _ hRest ih =>
    obtain ⟨hEvenHere, hEvenRest⟩ := List.forall_mem_cons.1 hEven
    have hLengths : h.oldLength = h.newLength := eq_of_beq hEvenHere
    rw [List.flatMap_cons, patchesOf_eq hOld hNew, if_pos hEvenHere] at hp
    rcases List.mem_append.1 hp with hp | hp
    · obtain ⟨k, hText, hStart, hStop⟩ := Format.exists_of_mem_linePatches hp
      have hk := (List.getElem?_eq_some_iff.1 hText).1
      rw [length_run hRest.le.2] at hk
      rw [run, List.getElem?_take_of_lt hk, List.getElem?_drop, ← hij, ← hStart] at hText
      exact ⟨by omega, hText⟩
    · exact ih (by omega) hEvenRest hp

/-- A patch that does not end in a line feed stands at the end of the lines. -/
theorem terminated (hTiles : Tiles old new i j hs) (hNew : ∀ line ∈ new.dropLast, line.Terminated)
    {p : Format.Patch} (hp : p ∈ hs.flatMap (patchesOf new)) :
    p.stop = old.length ∨ p.text.Terminated := by
  induction hTiles with
  | done => cases hp
  | keep _ _ ih => exact ih hp
  | @hunk i j h hs hOld hNewStart hEnd hRest ih =>
    rcases List.mem_append.1 (List.flatMap_cons ▸ hp) with hp | hp
    · obtain ⟨-, -, k, n, hText, hLength, hLast⟩ := Format.exists_of_mem_patchesOf hp
      by_cases hn : n = 0
      · right
        rw [hText, hn]
        exact Or.inl rfl
      · have hi : h.old = i := hOld (Or.inr (by omega))
        have hj : h.new = j := hNewStart (by omega)
        by_cases hm : h.new + k + n < new.length
        · right
          rw [hText]
          apply Text.terminated_flatten
          intro line hLine
          apply hNew
          rw [List.dropLast_eq_take]
          exact Format.mem_take_of_mem_run (Nat.le_sub_one_of_lt hm) hLine
        · left
          have := hRest.le.2
          have hStop := hLast (by omega)
          have hOldEnd := hEnd (by omega)
          omega
    · exact ih hp

end RexxEditing.Diff.Tiles
