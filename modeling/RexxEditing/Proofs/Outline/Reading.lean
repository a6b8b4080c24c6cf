import Mathlib.Data.List.TakeDrop
import RexxEditing.Outline
import RexxEditing.Proofs.Lexeme
import RexxEditing.Proofs.Text.Lines

/-! # Two readings of a label

The outline reads a label off the characters of a line, the tokens off its pieces. Both want a name
and a colon at the start of the line. They part in two points. A name of the outline may start with
`#`, which starts no symbol and opens a comment before a blank. And the outline knows no blanks but
spaces and tabs.

* `Label.exists_isOf`: the parts of a line with a label.
* `Label.ofLine?_eq_ofPieces?`: apart from these points the two readings of a line are one.
* `declarations`: what a reading finds on lines that follow each other.
-/

namespace RexxEditing

open Text (isBlank)

/-! ## Runs of blanks -/

section Runs

variable {p q : Char → Bool} {t : Text}

theorem Text.takeWhile_eq_of_all (hpq : ∀ c, q c = true → p c = true)
    (h : (t.takeWhile p).all q = true) : t.takeWhile q = t.takeWhile p := by
  induction t with
  | nil => rfl
  | cons c cs ih =>
    by_cases hp : p c = true
    · rw [List.takeWhile_cons_of_pos hp, List.all_cons, Bool.and_eq_true] at h
      rw [List.takeWhile_cons_of_pos hp, List.takeWhile_cons_of_pos h.1, ih h.2]
    · rw [List.takeWhile_cons_of_neg hp, List.takeWhile_cons_of_neg (mt (hpq c) hp)]

theorem Text.dropWhile_eq_of_all (hpq : ∀ c, q c = true → p c = true)
    (h : (t.takeWhile p).all q = true) : t.dropWhile q = t.dropWhile p := by
  have hTake := takeWhile_eq_of_all hpq h
  have hAppend := (List.takeWhile_append_dropWhile (p := q) (l := t)).trans
    (List.takeWhile_append_dropWhile (p := p) (l := t)).symm
  rw [hTake] at hAppend
  exact List.append_cancel_left hAppend

/-- A run that is not all of the narrower kind leaves the narrower run at a character between. -/
theorem Text.exists_dropWhile_of_not_all (h : ¬(t.takeWhile p).all q = true) :
    ∃ c cs, t.dropWhile q = c :: cs ∧ p c = true ∧ q c = false := by
  induction t with
  | nil => exact absurd rfl h
  | cons c cs ih =>
    by_cases hp : p c = true
    · rw [List.takeWhile_cons_of_pos hp, List.all_cons, Bool.and_eq_true] at h
      by_cases hq : q c = true
      · rw [List.dropWhile_cons_of_pos hq]
        exact ih fun hAll => h ⟨hq, hAll⟩
      · exact ⟨c, cs, List.dropWhile_cons_of_neg hq, hp, Bool.eq_false_iff.2 hq⟩
    · rw [List.takeWhile_cons_of_neg hp] at h
      exact absurd rfl h

end Runs

namespace Outline

/-! ## Two readings of a line -/

/-- What follows a colon. -/
def afterColon? : Text → Option Text
  | ':' :: after => some after
  | _ => none

theorem afterColon?_eq_none {c : Char} (h : c ≠ ':') (cs : Text) :
    afterColon? (c :: cs) = none := by
  unfold afterColon?
  split
  next hCons => exact absurd (List.cons.inj hCons).1 h
  next => rfl

/-- The label at the start of a line, for the given blanks and characters of a name. -/
def Label.read? (gap start rest : Char → Bool) (line : Text) : Option Label :=
  match line.dropWhile gap with
  | [] => none
  | c :: cs =>
    if start c then
      (afterColon? ((cs.dropWhile rest).dropWhile gap)).map
        (⟨line.takeWhile gap, c :: cs.takeWhile rest, ·⟩)
    else none

theorem Label.read?_cases {gap start rest : Char → Bool} {line : Text} {label : Label}
    (h : Label.read? gap start rest line = some label) :
    ∃ c cs after, line.dropWhile gap = c :: cs ∧ start c = true ∧
      label = ⟨line.takeWhile gap, c :: cs.takeWhile rest, after⟩ := by
  unfold Label.read? at h
  split at h
  · cases h
  next c cs hBody =>
    split at h
    next hStart =>
      obtain ⟨after, -, rfl⟩ := Option.map_eq_some_iff.1 h
      exact ⟨c, cs, after, hBody, hStart, rfl⟩
    next => cases h

/-- The label at the start of a line as its pieces have it: a symbol before a colon. -/
def Label.ofPieces? : Text → Option Label :=
  Label.read? isBlank Lexeme.isSymbolStart Lexeme.isSymbolRest

theorem isNameStart_eq (c : Char) : isNameStart c = (Lexeme.isSymbolStart c || c == '#') := by
  unfold isNameStart Lexeme.isSymbolStart Lexeme.isSymbolMark
  simp only [Bool.or_assoc, Bool.or_comm (c == '#')]

theorem isNameRest_eq : isNameRest = Lexeme.isSymbolRest := by
  funext c
  unfold isNameRest Lexeme.isSymbolRest Char.isAlphanum
  rw [isNameStart_eq, Lexeme.isSymbolStart]
  ac_rfl

theorem Label.ofLine?_eq_read? (line : Text) :
    Label.ofLine? line = Label.read? isGap isNameStart Lexeme.isSymbolRest line := by
  unfold Label.ofLine? Label.read?
  simp only [List.span_eq_takeWhile_dropWhile, isNameRest_eq]
  cases line.dropWhile isGap with
  | nil => rfl
  | cons c cs =>
    simp only
    congr 1
    generalize (cs.dropWhile Lexeme.isSymbolRest).dropWhile isGap = after
    unfold afterColon?
    cases after with
    | nil => rfl
    | cons d ds =>
      by_cases hColon : d = ':'
      · rw [hColon]
        rfl
      · simp [hColon]

/-- The parts of a line with a label: blanks, the name, more blanks, the colon and the rest. -/
structure Label.IsOf (label : Label) (line between : Text) : Prop where
  line_eq : line = label.gap ++ (label.name ++ (between ++ ':' :: label.rest))
  gap : ∀ c ∈ label.gap, isGap c = true
  between : ∀ c ∈ between, isGap c = true
  name : ∃ c cs, label.name = c :: cs ∧ isNameStart c = true ∧
    ∀ d ∈ cs, Lexeme.isSymbolRest d = true

theorem Label.exists_isOf {line : Text} {label : Label} (h : Label.ofLine? line = some label) :
    ∃ between, label.IsOf line between := by
  rw [ofLine?_eq_read?] at h
  unfold read? at h
  split at h
  · cases h
  next c cs hBody =>
    split at h
    next hStart =>
      obtain ⟨after, hColon, rfl⟩ := Option.map_eq_some_iff.1 h
      have hAfter : (cs.dropWhile Lexeme.isSymbolRest).dropWhile isGap = ':' :: after := by
        unfold afterColon? at hColon
        split at hColon
        next hCons =>
          cases hColon
          exact hCons
        next => cases hColon
      refine ⟨(cs.dropWhile Lexeme.isSymbolRest).takeWhile isGap, ?_,
        List.all_eq_true.1 List.all_takeWhile, List.all_eq_true.1 List.all_takeWhile,
        c, _, rfl, hStart, List.all_eq_true.1 List.all_takeWhile⟩
      rw [← hAfter, List.takeWhile_append_dropWhile, List.cons_append,
        List.takeWhile_append_dropWhile, ← hBody, List.takeWhile_append_dropWhile]
    next => cases h

theorem isBlank_of_isGap (c : Char) (h : isGap c = true) : isBlank c = true := by
  unfold isBlank
  rw [isGap] at h
  rw [h]
  rfl

theorem isSymbolStart_of_isBlank {c : Char} (h : isBlank c = true) :
    Lexeme.isSymbolStart c = false :=
  Lexeme.not_of_isBlank (by decide) h

theorem isSymbolRest_of_isSymbolStart {c : Char} (h : Lexeme.isSymbolStart c = true) :
    Lexeme.isSymbolRest c = true := by
  rw [← isNameRest_eq, isNameRest, isNameStart_eq, h]
  rfl

/-- Whether all blanks before the first name of a line and behind it are spaces and tabs. -/
def hasPlainGaps (line : Text) : Bool :=
  let body := line.dropWhile isBlank
  (line.takeWhile isBlank).all isGap &&
    ((body.dropWhile Lexeme.isSymbolRest).takeWhile isBlank).all isGap

/-- A label that starts with `#` is none of the pieces: a number sign is no symbol. -/
theorem Label.ofPieces?_of_hash {line : Text} {label : Label} (h : Label.ofLine? line = some label)
    (hHash : label.name.head? = some '#') : Label.ofPieces? line = none := by
  rw [ofLine?_eq_read?] at h
  obtain ⟨c, cs, after, hBody, -, rfl⟩ := Label.read?_cases h
  obtain rfl : c = '#' := Option.some.inj hHash
  by_cases hFront : (line.takeWhile isBlank).all isGap = true
  · unfold ofPieces? Label.read?
    rw [← Text.dropWhile_eq_of_all isBlank_of_isGap hFront, hBody]
    rfl
  · obtain ⟨d, ds, hDrop, hBlank, -⟩ := Text.exists_dropWhile_of_not_all hFront
    obtain ⟨rfl, -⟩ := List.cons.inj (hBody.symm.trans hDrop)
    cases hBlank

/-- **Labels of a line.** The outline and the pieces read the same label, unless its name starts
with `#` for the one or other blanks than spaces and tabs stand around it for the other. -/
theorem Label.ofLine?_eq_ofPieces? (line : Text) :
    ((Label.ofLine? line).filter fun label => label.name.head? != some '#') =
      (Label.ofPieces? line).filter fun _ => hasPlainGaps line := by
  rw [ofLine?_eq_read?]
  unfold ofPieces? hasPlainGaps
  by_cases hFront : (line.takeWhile isBlank).all isGap = true
  · simp only [Label.read?, Text.takeWhile_eq_of_all isBlank_of_isGap hFront,
      Text.dropWhile_eq_of_all isBlank_of_isGap hFront, hFront, Bool.true_and]
    cases line.dropWhile isBlank with
    | nil => rfl
    | cons c cs =>
      simp only [isNameStart_eq]
      by_cases hStart : Lexeme.isSymbolStart c = true
      · have hHash : c ≠ '#' := by
          rintro rfl
          cases hStart
        rw [List.dropWhile_cons_of_pos (isSymbolRest_of_isSymbolStart hStart)]
        simp only [hStart, Bool.true_or, ↓reduceIte]
        generalize cs.dropWhile Lexeme.isSymbolRest = after
        by_cases hBehind : (after.takeWhile isBlank).all isGap = true
        · rw [Text.dropWhile_eq_of_all isBlank_of_isGap hBehind, hBehind]
          cases afterColon? (after.dropWhile isBlank) with
          | none => rfl
          | some rest => simp [Option.filter_some, hHash]
        · obtain ⟨d, ds, hDrop, hBlank, -⟩ := Text.exists_dropWhile_of_not_all hBehind
          have hColon : d ≠ ':' := by
            rintro rfl
            cases hBlank
          rw [hDrop, afterColon?_eq_none hColon, Bool.eq_false_iff.2 hBehind]
          simp
      · -- only `#` starts a name and no symbol
        rw [Bool.eq_false_iff.2 hStart, Bool.false_or]
        by_cases hHash : c = '#'
        · simp [hHash]
        · simp [hHash]
  · obtain ⟨d, ds, hDrop, hBlank, -⟩ := Text.exists_dropWhile_of_not_all hFront
    have hHash : d ≠ '#' := by
      rintro rfl
      cases hBlank
    simp [Label.read?, hDrop, isNameStart_eq, isSymbolStart_of_isBlank hBlank, hHash, hFront]

/-- Where both readings give a label, it is one that they share. -/
theorem Label.shared_of_ofLine?_of_ofPieces? {line : Text} {label label' : Label}
    (h : Label.ofLine? line = some label) (h' : Label.ofPieces? line = some label') :
    label.name.head? ≠ some '#' ∧ hasPlainGaps line = true := by
  have hHash : label.name.head? ≠ some '#' := by
    intro hHash
    rw [Label.ofPieces?_of_hash h hHash] at h'
    cases h'
  refine ⟨hHash, ?_⟩
  have hShared := Label.ofLine?_eq_ofPieces? line
  rw [h, h', Option.filter_some, Option.filter_some, if_pos (bne_iff_ne.2 hHash)] at hShared
  by_contra hGaps
  rw [if_neg hGaps] at hShared
  cases hShared

/-! ## Labels of lines that follow each other -/

/-- A label on one of several lines. -/
structure Declaration where
  /-- The number of its line. -/
  index : Nat
  /-- The byte where the line starts. -/
  base : Nat
  line : Text
  label : Label

/-- The place of the name. -/
def Declaration.span (d : Declaration) : Span :=
  let start := d.base + d.label.gap.byteSize
  ⟨start, start + d.label.name.byteSize⟩

/-- What a reading declares on a line that is entered in the given state. -/
def declaration? (read? : Text → Option Label) (entry : State) (index base : Nat) (line : Text) :
    Option Declaration :=
  if entry.isNormal then
    ((read? line).filter (!Vocabulary.keywords.contains ·.name)).map (⟨index, base, line, ·⟩)
  else none

/-- What a reading declares on lines that follow each other. -/
def declarations (read? : Text → Option Label) (entry : State) (index base : Nat) :
    List Text → List Declaration
  | [] => []
  | line :: below =>
    (declaration? read? entry index base line).toList ++
      declarations read? (entry.next line) (index + 1) (base + line.byteSize + 1) below

theorem filter_declarations (read? : Text → Option Label) (p : Text → Label → Bool) (entry : State)
    (index base : Nat) (lines : List Text) :
    (declarations read? entry index base lines).filter (fun d => p d.line d.label) =
      declarations (fun line => (read? line).filter (p line)) entry index base lines := by
  induction lines generalizing entry index base with
  | nil => rfl
  | cons line below ih =>
    rw [declarations, declarations, List.filter_append, ih]
    congr 1
    unfold declaration?
    cases entry with
    | inside region => rfl
    | normal =>
      simp only [State.isNormal, ↓reduceIte]
      cases read? line with
      | none => rfl
      | some label =>
        rw [Option.filter_some, Option.filter_some]
        cases hp : p line label <;> cases hKeyword : Vocabulary.keywords.contains label.name <;>
          simp [Option.filter_some, hp, hKeyword]

theorem of_mem_declarations {read? : Text → Option Label} {entry : State} {index base : Nat}
    {lines : List Text} {d : Declaration} (h : d ∈ declarations read? entry index base lines) :
    ∃ k, lines[k]? = some d.line ∧ d.index = index + k ∧
      d.base = base + Text.linesSize (lines.take k) ∧ read? d.line = some d.label := by
  induction lines generalizing entry index base with
  | nil => cases h
  | cons line below ih =>
    rw [declarations, List.mem_append, Option.mem_toList] at h
    obtain h | h := h
    · unfold declaration? at h
      split at h
      · obtain ⟨label, hLabel, rfl⟩ := Option.map_eq_some_iff.1 h
        refine ⟨0, rfl, rfl, rfl, ?_⟩
        exact (Option.filter_eq_some_iff.1 hLabel).1
      · cases h
    · obtain ⟨k, hLine, hIndex, hBase, hRead⟩ := ih h
      refine ⟨k + 1, hLine, by omega, ?_, hRead⟩
      rw [hBase, List.take_succ_cons, Text.linesSize_cons]
      omega

end Outline

end RexxEditing
