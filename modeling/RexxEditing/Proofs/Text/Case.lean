import RexxEditing.Proofs.Text.Lines
import RexxEditing.Proofs.Text.Word
import RexxEditing.Text.Character
import RexxEditing.Text.Position

/-! # Texts in small letters

A function of characters is blind to case if a capital of ASCII and its small letter have the same
image. What is cut out of a text by such functions is the same part in any case of its letters.

* `caseBlind_of_capitals`: the capitals are all that has to be looked at.
* `takeWhile_lower`, `dropWhile_lower`: runs of characters.
* `lines_lower`, `cut?_lower`, `slice?_lower`: lines and parts.
* `words_lower`: words.
* `LineTable.ofText_lower`: places.
* `differences`: the characters in which two texts differ. White space at the start is not among
  them, and line ends are not either.
-/

namespace RexxEditing

/-! ## Characters -/

/-- Whether the function does not tell a capital from its small letter. -/
def CaseBlind {β : Type} (f : Char → β) : Prop := ∀ c : Char, f c.toLower = f c

theorem toLower_cases (c : Char) :
    c.toLower = c ∨ ∃ n < 26, c = Char.ofNat (65 + n) ∧ c.toLower = Char.ofNat (97 + n) := by
  by_cases hUpper : 65 ≤ c.toNat ∧ c.toNat ≤ 90
  · right
    have hChar : c = Char.ofNat (65 + (c.toNat - 65)) := by
      rw [Nat.add_sub_cancel' hUpper.1, Char.ofNat_toNat]
    have hSmall : ∀ n < 26, (Char.ofNat (65 + n)).toLower = Char.ofNat (97 + n) := by decide
    have hBound : c.toNat - 65 < 26 := by omega
    refine ⟨c.toNat - 65, hBound, hChar, ?_⟩
    rw [← hSmall _ hBound, ← hChar]
  · left
    have hVal : ¬(c.val ≥ 'A'.val ∧ c.val ≤ 'Z'.val) := hUpper
    exact dif_neg hVal

/-- A function is blind to case if it does not tell any capital from its small letter. -/
theorem caseBlind_of_capitals {β : Type} {f : Char → β}
    (h : ∀ n < 26, f (Char.ofNat (97 + n)) = f (Char.ofNat (65 + n))) : CaseBlind f := by
  intro c
  rcases toLower_cases c with hSame | ⟨n, hn, hCapital, hSmall⟩
  · rw [hSame]
  · rw [hSmall, h n hn, ← hCapital]

/-- A character of a class without capitals has no case. -/
theorem toLower_eq_self {p : Char → Bool} (h : ∀ n < 26, p (Char.ofNat (65 + n)) = false) {c : Char}
    (hc : p c = true) : c.toLower = c := by
  rcases toLower_cases c with hSame | ⟨n, hn, hCapital, -⟩
  · exact hSame
  · rw [hCapital, h n hn] at hc
    cases hc

theorem toLower_toLower (c : Char) : c.toLower.toLower = c.toLower :=
  (caseBlind_of_capitals (by decide) : CaseBlind Char.toLower) c

theorem caseBlind_utf8Size : CaseBlind Char.utf8Size := caseBlind_of_capitals (by decide)

theorem caseBlind_isWhite : CaseBlind Text.isWhite := caseBlind_of_capitals (by decide)

/-- A character that is no letter is known in any case. -/
theorem toLower_eq_iff {c d : Char} (hd : d.isAlpha = false) : c.toLower = d ↔ c = d := by
  rcases toLower_cases c with hSame | ⟨n, hn, hCapital, hSmall⟩
  · rw [hSame]
  · have hAlpha : ∀ n < 26, (Char.ofNat (97 + n)).isAlpha = true ∧
        (Char.ofNat (65 + n)).isAlpha = true := by decide
    refine iff_of_false ?_ ?_
    · rintro rfl
      rw [hSmall, (hAlpha n hn).1] at hd
      cases hd
    · rintro rfl
      rw [hCapital, (hAlpha n hn).2] at hd
      cases hd

namespace Text

/-! ## Parts of a text -/

@[simp] theorem lower_nil : lower [] = [] := rfl

@[simp] theorem lower_cons (c : Char) (t : Text) : lower (c :: t) = c.toLower :: t.lower := rfl

@[simp] theorem lower_append (s t : Text) : lower (s ++ t) = s.lower ++ t.lower := List.map_append

@[simp] theorem length_lower (t : Text) : t.lower.length = t.length := List.length_map _

theorem lower_eq_nil_iff {t : Text} : t.lower = [] ↔ t = [] := List.map_eq_nil_iff

@[simp] theorem lower_take (t : Text) (n : Nat) : lower (t.take n) = t.lower.take n :=
  List.map_take

@[simp] theorem lower_drop (t : Text) (n : Nat) : lower (t.drop n) = t.lower.drop n :=
  List.map_drop

@[simp] theorem lower_lower (t : Text) : t.lower.lower = t.lower := by
  rw [lower, lower, List.map_map]
  apply List.map_congr_left
  intro c _
  exact toLower_toLower c

theorem lower_spaces (n : Nat) : lower (spaces n) = spaces n := List.map_replicate

@[simp] theorem byteSize_lower (t : Text) : t.lower.byteSize = t.byteSize := by
  induction t with
  | nil => rfl
  | cons c cs ih => rw [lower_cons, byteSize_cons, byteSize_cons, ih, caseBlind_utf8Size c]

section Runs

variable {p : Char → Bool} (h : CaseBlind p) (t : Text)
include h

theorem takeWhile_lower : t.lower.takeWhile p = lower (t.takeWhile p) := by
  have hp : p ∘ Char.toLower = p := funext h
  rw [lower, List.takeWhile_map, hp]
  rfl

theorem dropWhile_lower : t.lower.dropWhile p = lower (t.dropWhile p) := by
  have hp : p ∘ Char.toLower = p := funext h
  rw [lower, List.dropWhile_map, hp]
  rfl

theorem all_lower : t.lower.all p = t.all p := by
  have hp : p ∘ Char.toLower = p := funext h
  rw [lower, List.all_map, hp]

end Runs

theorem trimStart_lower (t : Text) : t.lower.trimStart = lower t.trimStart :=
  dropWhile_lower caseBlind_isWhite t

theorem trim_lower (t : Text) : t.lower.trim = lower t.trim := by
  have hReverse (s : Text) : s.lower.reverse = lower s.reverse := (List.map_reverse).symm
  rw [trim, trimStart_lower, hReverse, dropWhile_lower caseBlind_isWhite, hReverse]
  rfl

theorem isAllWhite_lower (t : Text) : t.lower.isAllWhite = t.isAllWhite :=
  all_lower caseBlind_isWhite t

/-! ## Lines -/

theorem lines_lower (t : Text) : t.lower.lines = t.lines.map lower := by
  induction t with
  | nil => rfl
  | cons c cs ih =>
    obtain ⟨line, rest, hLines⟩ := exists_lines_eq_cons cs
    rw [hLines, List.map_cons] at ih
    by_cases hc : c = '\n'
    · subst hc
      show lines ('\n' :: lower cs) = _
      rw [lines_newline_cons, lines_newline_cons, hLines, ih]
      rfl
    · have hLower : c.toLower ≠ '\n' := mt (toLower_eq_iff rfl).1 hc
      rw [lower_cons, lines_cons_of_ne hLower ih, lines_cons_of_ne hc hLines]
      rfl

theorem ofLines_lower (lines' : List Text) :
    ofLines (lines'.map lower) = lower (ofLines lines') := by
  induction lines' with
  | nil => rfl
  | cons line rest ih =>
    cases rest with
    | nil => rfl
    | cons next more =>
      rw [List.map_cons, ofLines_cons (by simp), ofLines_cons (by simp), ih, lower_append]
      rfl

theorem splitReturn_lower (t : Text) : t.lower.splitReturn = (t.dropReturn.lower, t.ending) := by
  have hLast : t.lower.getLast? = some '\r' ↔ t.getLast? = some '\r' := by
    rw [lower, List.getLast?_map]
    cases t.getLast? with
    | none => simp
    | some c => simp [toLower_eq_iff]
  unfold dropReturn ending splitReturn
  by_cases h : t.getLast? = some '\r'
  · rw [if_pos h, if_pos (hLast.2 h)]
    exact congrArg (·, ['\r']) List.map_dropLast.symm
  · rw [if_neg h, if_neg (mt hLast.1 h)]

theorem dropReturn_lower (t : Text) : t.lower.dropReturn = lower t.dropReturn := by
  rw [dropReturn, splitReturn_lower]

theorem ending_lower (t : Text) : t.lower.ending = t.ending := by
  rw [ending, splitReturn_lower]

theorem lower_ending (t : Text) : lower t.ending = t.ending := by
  rcases t.ending_cases with h | h <;> rw [h] <;> rfl

/-! ## Words -/

theorem eqIgnoreCase_lower (s t : Text) : s.lower.eqIgnoreCase t = s.eqIgnoreCase t := by
  rw [eqIgnoreCase, lower_lower]
  rfl

theorem caseBlind_isWordChar : CaseBlind isWordChar := caseBlind_of_capitals (by decide)

theorem words_lower (t : Text) : t.lower.words = t.words.map lower := by
  induction t with
  | nil => rfl
  | cons c cs ih =>
    have hBlind := caseBlind_isWordChar c
    by_cases hc : isWordChar c = true
    · rw [hc] at hBlind
      cases cs with
      | nil => simp [words, hBlind, hc]
      | cons d ds =>
        rw [lower_cons] at ih
        rw [lower_cons, lower_cons, words_cons_cons hBlind, words_cons_cons hc,
          caseBlind_isWordChar d, ih]
        split
        · cases words (d :: ds) <;> rfl
        · rfl
    · have hNot : isWordChar c = false := by simpa using hc
      rw [hNot] at hBlind
      rw [lower_cons, words_cons_of_not hBlind, words_cons_of_not hNot, ih]

theorem fold_lower (t : Text) : fold t.lower = fold t := by
  have hFold : CaseBlind foldChar := caseBlind_of_capitals (by decide)
  rw [fold, lower, List.map_map]
  exact List.map_congr_left fun c _ => hFold c

/-! ## Differences -/

/-- The characters in which two texts of one length differ, in order, as pairs. -/
def differences (s t : Text) : List (Char × Char) := (s.zip t).filter fun (c, d) => c != d

theorem differences_self (t : Text) : differences t t = [] := by
  induction t with
  | nil => rfl
  | cons c cs ih =>
    rw [differences, List.zip_cons_cons, List.filter_cons_of_neg (by simp)]
    exact ih

theorem differences_append {s s' : Text} (h : s.length = s'.length) (t t' : Text) :
    differences (s ++ t) (s' ++ t') = differences s s' ++ differences t t' := by
  rw [differences, List.zip_append h, List.filter_append]
  rfl

theorem length_eq_of_lower_eq {s t : Text} (h : s.lower = t.lower) : s.length = t.length := by
  rw [← length_lower, h, length_lower]

/-- Texts that are equal but for case start with the same white space. -/
theorem takeWhile_isWhite_eq {s t : Text} (h : s.lower = t.lower) :
    s.takeWhile isWhite = t.takeWhile isWhite := by
  have hWhite (r : Text) : lower (r.takeWhile isWhite) = r.takeWhile isWhite := by
    refine (List.map_congr_left fun c hc => ?_).trans (List.map_id _)
    exact toLower_eq_self (by decide) (List.all_eq_true.1 List.all_takeWhile c hc)
  rw [← hWhite s, ← takeWhile_lower caseBlind_isWhite, h, takeWhile_lower caseBlind_isWhite, hWhite]

theorem differences_trimStart {s t : Text} (h : s.lower = t.lower) :
    differences s.trimStart t.trimStart = differences s t := by
  have hFront := takeWhile_isWhite_eq h
  have hSplit := differences_append (congrArg List.length hFront) s.trimStart t.trimStart
  rw [congrArg (differences · _) hFront, differences_self] at hSplit
  rw [trimStart, trimStart, List.takeWhile_append_dropWhile,
    List.takeWhile_append_dropWhile] at hSplit
  exact hSplit.symm

theorem differences_dropReturn {s t : Text} (h : s.lower = t.lower) :
    differences s.dropReturn t.dropReturn = differences s t := by
  have hEnding : s.ending = t.ending := by rw [← ending_lower, h, ending_lower]
  have hDrop : s.dropReturn.lower = t.dropReturn.lower := by
    rw [← dropReturn_lower, h, dropReturn_lower]
  have hSplit := differences_append (length_eq_of_lower_eq hDrop) s.ending t.ending
  rw [dropReturn_append_ending, dropReturn_append_ending, hEnding, differences_self,
    List.append_nil] at hSplit
  exact hSplit.symm

theorem differences_ofLines {lines' lines'' : List Text}
    (h : lines'.map lower = lines''.map lower) :
    differences (ofLines lines') (ofLines lines'') =
      (List.zipWith differences lines' lines'').flatten := by
  induction lines' generalizing lines'' with
  | nil => rfl
  | cons line rest ih =>
    cases lines'' with
    | nil => cases h
    | cons line' rest' =>
      obtain ⟨hLine, hRest⟩ := List.cons_eq_cons.1 h
      have hLength := length_eq_of_lower_eq hLine
      rw [List.zipWith_cons_cons, List.flatten_cons, ← ih hRest]
      cases rest with
      | nil =>
        obtain rfl : rest' = [] := List.map_eq_nil_iff.1 hRest.symm
        exact (List.append_nil _).symm
      | cons next more =>
        have hNe : rest' ≠ [] := by
          rintro rfl
          cases hRest
        rw [ofLines_cons (List.cons_ne_nil _ _), ofLines_cons hNe, differences_append hLength]
        rfl

/-! ## Places -/

theorem cut?_lower (t : Text) (n : Nat) :
    t.lower.cut? n = (t.cut? n).map fun (before, after) => (before.lower, after.lower) := by
  fun_induction cut? t n with
  | case1 cs => cases cs <;> rfl
  | case2 => rfl
  | case3 c cs n hc ih =>
    rw [lower_cons, cut?, caseBlind_utf8Size c, if_pos hc, ih, Option.map_map, Option.map_map]
    rfl
  | case4 c cs n hc => rw [lower_cons, cut?, caseBlind_utf8Size c, if_neg hc, Option.map_none]

theorem slice?_lower (t : Text) (start stop : Nat) :
    t.lower.slice? start stop = (t.slice? start stop).map lower := by
  unfold slice?
  split
  · rw [cut?_lower]
    cases t.cut? start with
    | none => rfl
    | some parts =>
      simp only [Option.map_some, Option.bind_eq_bind, Option.bind_some, cut?_lower]
      cases cut? parts.2 (stop - start) <;> rfl
  · rfl

end Text

theorem LineTable.startsFrom_lower (base : Nat) (lines : List Text) :
    startsFrom base (lines.map Text.lower) = startsFrom base lines := by
  induction lines generalizing base with
  | nil => rfl
  | cons line rest ih => rw [List.map_cons, startsFrom, startsFrom, Text.byteSize_lower, ih]

theorem LineTable.ofText_lower (t : Text) : ofText t.lower = ofText t := by
  rw [ofText, ofText, Text.lines_lower, startsFrom_lower, Text.byteSize_lower]

end RexxEditing
