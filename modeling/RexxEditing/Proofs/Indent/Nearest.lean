import RexxEditing.Proofs.Highlight.Delimiter
import RexxEditing.Proofs.Indent.CodeLine

/-! # The nearest code line

The search for a code line goes up from a line and ends at the first line that holds code. So it
finds the greatest number of such a line, or there is none.

What it takes for code is not quite what a reader would: a string that does not end on its line is
no code to the search. A line with nothing else on it is passed over.

* `findCodeLine?_isNearest`: the search finds the nearest line that it takes for a code line.
* `isSome_ofLine?_iff`: which lines these are, by their characters.
* `findCodeLine?_nearest`: the search, by the characters of the lines.
* `findCodeLine?_skips_open_string`: a line of code that is passed over.
-/

namespace RexxEditing.Indent

open Text (isSeparator)

/-! ## The search -/

/-- Whether `found` is the greatest number below `i` with the property, if there is one. -/
def IsNearest (P : Nat → Prop) (i : Nat) (found : Option Nat) : Prop :=
  match found with
  | some p => p < i ∧ P p ∧ ∀ k, p < k → k < i → ¬ P k
  | none => ∀ k, k < i → ¬ P k

theorem IsNearest.congr {P Q : Nat → Prop} {i : Nat} {found : Option Nat}
    (h : IsNearest P i found) (hIff : ∀ k, k < i → (P k ↔ Q k)) : IsNearest Q i found := by
  cases found with
  | none =>
    intro k hk hQ
    exact h k hk ((hIff k hk).2 hQ)
  | some p =>
    obtain ⟨hLt, hP, hBetween⟩ := h
    refine ⟨hLt, (hIff p hLt).1 hP, ?_⟩
    intro k hpk hki hQ
    exact hBetween k hpk hki ((hIff k hki).2 hQ)

/-- One line further down, the line itself comes first. -/
theorem IsNearest.succ {P : Nat → Prop} {i : Nat} {found : Option Nat} (h : IsNearest P i found) :
    (P i → IsNearest P (i + 1) (some i)) ∧ (¬ P i → IsNearest P (i + 1) found) := by
  constructor
  · intro hP
    exact ⟨Nat.lt_succ_self i, hP, fun k hik hki => by omega⟩
  · intro hNot
    cases found with
    | none =>
      intro k hk hP
      rcases Nat.lt_succ_iff_lt_or_eq.1 hk with hk | rfl
      · exact h k hk hP
      · exact hNot hP
    | some p =>
      obtain ⟨hLt, hPp, hBetween⟩ := h
      refine ⟨Nat.lt_succ_of_lt hLt, hPp, ?_⟩
      intro k hpk hk hP
      rcases Nat.lt_succ_iff_lt_or_eq.1 hk with hk | rfl
      · exact hBetween k hpk hk hP
      · exact hNot hP

theorem Buffer.linesBefore_succ (b : Buffer) (i : Nat) :
    b.linesBefore (i + 1) =
      (if i < b.count then ((b.line? i).map (i, ·)).toList else []) ++ b.linesBefore i := by
  unfold linesBefore
  by_cases h : i < b.count
  · rw [if_pos h, Nat.min_eq_left (Nat.succ_le_of_lt h), Nat.min_eq_left (Nat.le_of_lt h),
      List.range_succ, List.reverse_append, List.filterMap_append]
    cases hLine : b.line? i <;> simp [hLine]
  · rw [if_neg h, Nat.min_eq_right (by omega), Nat.min_eq_right (by omega), List.nil_append]

/-- The code line that line `i` is. -/
def Buffer.codeLine? (b : Buffer) (states : List State) (i : Nat) : Option CodeLine :=
  if i < b.count then
    (b.line? i).bind fun line => CodeLine.ofLine? i line (states.getD i .normal)
  else none

/-- The search from one line further down. -/
theorem findCodeLine?_linesBefore_succ (b : Buffer) (states : List State) (i : Nat) :
    findCodeLine? (b.linesBefore (i + 1)) states =
      (b.codeLine? states i).or (findCodeLine? (b.linesBefore i) states) := by
  rw [Buffer.linesBefore_succ, findCodeLine?, List.findSome?_append, Buffer.codeLine?]
  congr 1
  split
  · cases hLine : b.line? i with
    | none => rfl
    | some line => simp
  · rfl

theorem CodeLine.eq_of_ofLine? {index : Nat} {line : Text} {entry : State} {found : CodeLine}
    (h : CodeLine.ofLine? index line entry = some found) :
    found.index = index ∧ found.text = line := by
  rw [CodeLine.ofLine?_eq] at h
  obtain ⟨part, -, rfl⟩ := Option.map_eq_some_iff.1 h
  exact ⟨rfl, rfl⟩

/-- **The search** finds the nearest code line. -/
theorem findCodeLine?_isNearest (b : Buffer) (states : List State) (i : Nat) :
    IsNearest (fun k => (b.codeLine? states k).isSome = true) i
      ((findCodeLine? (b.linesBefore i) states).map CodeLine.index) := by
  induction i with
  | zero =>
    intro k hk
    cases hk
  | succ i ih =>
    rw [findCodeLine?_linesBefore_succ]
    cases hCode : b.codeLine? states i with
    | none => exact ih.succ.2 (by simp [hCode])
    | some found =>
      have hIndex : found.index = i := by
        unfold Buffer.codeLine? at hCode
        split at hCode
        · obtain ⟨line, -, hFound⟩ := Option.bind_eq_some_iff.1 hCode
          exact (CodeLine.eq_of_ofLine? hFound).1
        · cases hCode
      rw [Option.some_or, Option.map_some, hIndex]
      exact ih.succ.1 (by simp [hCode])

/-! ## Characters of code -/

/-- Whether the piece has a character of code: one that is no separator and stands in no comment. -/
def HasCodeChar (piece : Piece) : Prop :=
  piece.isRemark = false ∧ ∃ c ∈ piece.text, isSeparator c = false

/-- Whether the line has a character of code that does not belong to a region from above. A string
is code, whether or not it ends on the line. -/
def HasCode (entry : State) (line : Text) : Prop :=
  ∃ piece ∈ Piece.own entry line, HasCodeChar piece

/-- Whether the line has code, but only in a string that does not end on the line. -/
def HasOnlyOpenString (entry : State) (line : Text) : Prop :=
  HasCode entry line ∧
    ∀ piece ∈ Piece.own entry line, HasCodeChar piece → piece.isComplete = false

theorem exists_ofCode_own (entry : State) (line : Text) :
    ∃ code, Piece.own entry line = Piece.ofCode code := by
  unfold Piece.own
  split
  · exact ⟨line, rfl⟩
  · split
    · exact ⟨_, rfl⟩
    · exact ⟨[], by rw [Piece.ofCode]⟩

/-- Every piece with a character of code makes its line a code line, open strings apart. -/
theorem isCode_iff {code : Text} {piece : Piece} (h : piece ∈ Piece.ofCode code) :
    piece.isCode = true ↔ HasCodeChar piece ∧ piece.isComplete = true := by
  have hFits := Piece.fits_ofCode code piece h
  have hDelimited := Piece.delimited_ofCode code piece h
  have hNotEmpty (text : Text) (hText : text ≠ [] ∧ ∀ c ∈ text, isSeparator c = false) :
      ∃ c ∈ text, isSeparator c = false := by
    obtain ⟨c, cs, rfl⟩ := List.exists_cons_of_ne_nil hText.1
    exact ⟨c, List.mem_cons_self, hText.2 c List.mem_cons_self⟩
  cases piece with
  | blank text =>
    refine iff_of_false (fun hCode => nomatch hCode) ?_
    rintro ⟨⟨-, c, hc, hSep⟩, -⟩
    rw [hFits c hc] at hSep
    cases hSep
  | code shape text => exact iff_of_true rfl ⟨⟨rfl, hNotEmpty text hFits⟩, rfl⟩
  | unknown text => exact iff_of_true rfl ⟨⟨rfl, hNotEmpty text hFits⟩, rfl⟩
  | closed region text =>
    cases region with
    | comment => exact iff_of_false (fun hCode => nomatch hCode) fun hChar => nomatch hChar.1.1
    | string quote =>
      obtain ⟨body, rfl, -⟩ := hDelimited
      refine iff_of_true rfl ⟨⟨rfl, quote.char, List.mem_cons_self, ?_⟩, rfl⟩
      cases quote <;> rfl
  | lineComment text =>
    exact iff_of_false (fun hCode => nomatch hCode) fun hChar => nomatch hChar.1.1
  | unclosed region text =>
    exact iff_of_false (fun hCode => nomatch hCode) fun hChar => nomatch hChar.2

/-- **Code lines by their characters.** -/
theorem isSome_ofLine?_iff {index : Nat} {line : Text} {entry : State} :
    (CodeLine.ofLine? index line entry).isSome = true ↔
      HasCode entry line ∧ ¬ HasOnlyOpenString entry line := by
  have hSome : (CodeLine.ofLine? index line entry).isSome = true ↔
      ∃ piece ∈ Piece.own entry line, piece.isCode = true := by
    rw [CodeLine.ofLine?_eq, Option.isSome_map, ← Option.ne_none_iff_isSome, ne_eq,
      Piece.codePart?_eq_none_iff]
    simp
  obtain ⟨code, hOwn⟩ := exists_ofCode_own entry line
  have hIff (piece : Piece) (hMem : piece ∈ Piece.own entry line) :
      piece.isCode = true ↔ HasCodeChar piece ∧ piece.isComplete = true :=
    isCode_iff (hOwn ▸ hMem)
  rw [hSome]
  constructor
  · rintro ⟨piece, hMem, hCode⟩
    obtain ⟨hChar, hComplete⟩ := (hIff piece hMem).1 hCode
    refine ⟨⟨piece, hMem, hChar⟩, ?_⟩
    rintro ⟨-, hOnly⟩
    rw [hOnly piece hMem hChar] at hComplete
    cases hComplete
  · rintro ⟨hHas, hNot⟩
    by_contra hNone
    refine hNot ⟨hHas, ?_⟩
    intro piece hMem hChar
    rw [← Bool.not_eq_true]
    intro hComplete
    exact hNone ⟨piece, hMem, (hIff piece hMem).2 ⟨hChar, hComplete⟩⟩

/-! ## Lists of lines -/

/-- The state in which line `p` of a list of lines is entered. -/
def entryOf (lines : List Text) (p : Nat) : State := State.after .normal (lines.take p)

theorem entryStates_ofLines (lines : List Text) {i p : Nat} {line : Text} (hi : p < i)
    (h : lines[p]? = some line) :
    ((Buffer.ofLines lines).entryStates i).getD p .normal = entryOf lines p := by
  obtain ⟨hp, -⟩ := List.getElem?_eq_some_iff.1 h
  have hLine : ((List.range i).map fun k => ((Buffer.ofLines lines).line? k).getD [])[p]? =
      some line := by
    simp [Buffer.ofLines, hi, h]
  have hAbove : (List.range p).map (fun k => ((Buffer.ofLines lines).line? k).getD []) =
      lines.take p := by
    refine List.ext_getElem (by simp [Nat.le_of_lt hp]) ?_
    intro k hk _
    have hLt : k < lines.length := by
      simp only [List.length_map, List.length_range] at hk
      omega
    simp [Buffer.ofLines, hLt]
  rw [Buffer.entryStates, List.getD_eq_getElem?_getD, State.sequence_getElem? .normal hLine,
    Option.getD_some, ← List.map_take, List.take_range, Nat.min_eq_left (Nat.le_of_lt hi), hAbove]
  rfl

/-- Line `p` of the list has a property together with the state in which it is entered. -/
def AtLine (lines : List Text) (P : State → Text → Prop) (p : Nat) : Prop :=
  ∃ line, lines[p]? = some line ∧ P (entryOf lines p) line

theorem isSome_codeLine?_iff (lines : List Text) {i k : Nat} (hk : k < i) :
    let b := Buffer.ofLines lines
    (b.codeLine? (b.entryStates i) k).isSome = true ↔
      AtLine lines (fun entry line => HasCode entry line ∧ ¬ HasOnlyOpenString entry line) k := by
  intro b
  cases hLine : lines[k]? with
  | none =>
    have hBuffer : b.line? k = none := hLine
    simp [Buffer.codeLine?, AtLine, hBuffer, hLine]
  | some line =>
    have hBuffer : b.line? k = some line := hLine
    have hCount : k < b.count := (List.getElem?_eq_some_iff.1 hLine).1
    rw [Buffer.codeLine?, if_pos hCount, hBuffer, Option.bind_some,
      entryStates_ofLines lines hk hLine, isSome_ofLine?_iff]
    simp [AtLine, hLine]

/-- **The nearest code line.** The search up from line `i` finds the greatest number below `i` of a
line with code of its own outside of comments, unless all of that is in a string that does not end
on the line. As long as there is no line of that sort, it finds the nearest line with code. -/
theorem findCodeLine?_nearest (lines : List Text) (i : Nat) :
    let b := Buffer.ofLines lines
    let found := (findCodeLine? (b.linesBefore i) (b.entryStates i)).map CodeLine.index
    IsNearest (AtLine lines fun entry line => HasCode entry line ∧ ¬ HasOnlyOpenString entry line) i
        found ∧
      ((∀ p, p < i → ¬ AtLine lines HasOnlyOpenString p) →
        IsNearest (AtLine lines HasCode) i found) := by
  intro b found
  have hFound : IsNearest
      (AtLine lines fun entry line => HasCode entry line ∧ ¬ HasOnlyOpenString entry line) i
      found := by
    refine (findCodeLine?_isNearest b (b.entryStates i) i).congr ?_
    intro k hk
    exact isSome_codeLine?_iff lines hk
  refine ⟨hFound, ?_⟩
  intro hNone
  refine hFound.congr ?_
  intro k hk
  constructor
  · rintro ⟨line, hLine, hHas, -⟩
    exact ⟨line, hLine, hHas⟩
  · rintro ⟨line, hLine, hHas⟩
    exact ⟨line, hLine, hHas, fun hOnly => hNone k hk ⟨line, hLine, hOnly⟩⟩

/-- A line of code with a string and a comment that goes on after the line. -/
theorem findCodeLine?_nearest_above_comment :
    let lines := ["say 'a' /* b".toList, "c */".toList]
    IsNearest (AtLine lines HasCode) 1 (some 0) := by
  intro lines
  have hNone : ∀ p, p < 1 → ¬ AtLine lines HasOnlyOpenString p := by
    rintro p hp ⟨line, hLine, hOnly⟩
    obtain rfl := Nat.lt_one_iff.1 hp
    obtain rfl := Option.some.inj hLine
    have hSome : (CodeLine.ofLine? 0 "say 'a' /* b".toList .normal).isSome = true := by
      decide +kernel
    exact (isSome_ofLine?_iff.1 hSome).2 hOnly
  have hFound : (findCodeLine? ((Buffer.ofLines lines).linesBefore 1)
      ((Buffer.ofLines lines).entryStates 1)).map CodeLine.index = some 0 := by
    decide +kernel
  have hNearest := (findCodeLine?_nearest lines 1).2 hNone
  rwa [hFound] at hNearest

/-- A line with nothing but a string on it that goes on after the line is code, but the search
passes over it. -/
theorem findCodeLine?_skips_open_string :
    let lines := ["'abc".toList, "b'".toList]
    let b := Buffer.ofLines lines
    ¬ IsNearest (AtLine lines HasCode) 1
      ((findCodeLine? (b.linesBefore 1) (b.entryStates 1)).map CodeLine.index) := by
  intro lines b
  have hFound : findCodeLine? (b.linesBefore 1) (b.entryStates 1) = none := by decide +kernel
  have hOwn : Piece.own .normal "'abc".toList =
      [.unclosed (.string .single) "'abc".toList] := by decide +kernel
  rw [hFound]
  intro hNearest
  refine hNearest 0 Nat.zero_lt_one ⟨_, rfl, .unclosed (.string .single) "'abc".toList, ?_, rfl, ?_⟩
  · exact hOwn ▸ List.mem_singleton_self _
  · exact ⟨'\'', List.mem_cons_self, rfl⟩

end RexxEditing.Indent
