import RexxEditing.Proofs.Indent.CodeLine
import RexxEditing.Proofs.Outline.Reading
import RexxEditing.Proofs.Text.Position

/-! # Labels of the outline and of the tokens

A line that is entered in code has at most one label token: its first symbol, if a colon follows and
it is no keyword. That is the second reading of a label, so the labels of a text can be compared
line by line with the routines of its outline.

* `Piece.filter_label_tokensOf`: behind a piece that is not blank stands no label.
* `Piece.filter_label_ofCode`: the label token of a line.
* `routines_agree`: the routines of a text and its label tokens.
* `routines_disagree`: where they are not the same.
-/

namespace RexxEditing

/-! ## Labels among the pieces of a line -/

namespace Piece

theorem ofCode_cons_symbol {c : Char} (hc : Lexeme.isSymbolStart c = true) (cs : Text) :
    ofCode (c :: cs) =
      code .symbol (c :: cs.takeWhile Lexeme.isSymbolRest) ::
        ofCode (cs.dropWhile Lexeme.isSymbolRest) := by
  rw [ofCode]
  simp only [Lexeme.first, Lexeme.rest, Lexeme.extent_of_isSymbolStart hc, Lexeme.take_runLength,
    Lexeme.drop_runLength]
  rfl

/-- The first piece of code that starts with no blank. -/
theorem exists_ofCode_cons {c : Char} (hc : Text.isSeparator c = false) (cs : Text) :
    ∃ piece rest, ofCode (c :: cs) = piece :: rest ∧ piece.isBlank = false ∧
      ∀ shape, piece.shape? = some shape → (Lexeme.extent c cs).1 = some shape := by
  have hSpace : (Lexeme.first c cs).isSpace = false := by
    rw [← Lexeme.isSeparator_eq_isSpace List.mem_cons_self, hc]
  rw [ofCode]
  split
  · exact ⟨_, _, rfl, rfl, fun _ h => by cases h⟩
  next shape hShape =>
    rw [Lexeme.isSpace, hShape, Option.any_some] at hSpace
    split
    · split
      · exact ⟨_, _, rfl, rfl, fun _ h => by cases h⟩
      · exact ⟨_, _, rfl, rfl, fun _ h => by cases h⟩
    · split
      · exact ⟨_, _, rfl, rfl, fun _ h => by cases h⟩
      · rw [hSpace]
        exact ⟨_, _, rfl, rfl, fun _ h => hShape.trans h⟩

theorem neighbour_cons_of_not_isBlank {piece : Piece} (h : piece.isBlank = false)
    (pieces : List Piece) : neighbour (piece :: pieces) = some ⟨piece, false⟩ := by
  cases piece with
  | blank => cases h
  | _ => rfl

theorem isSome_neighbour_cons {pieces : List Piece} (h : (neighbour pieces).isSome = true)
    (piece : Piece) : (neighbour (piece :: pieces)).isSome = true := by
  cases piece with
  | blank => rwa [neighbour, Option.isSome_map]
  | _ => rfl

theorem symbolKind_ne_label (word : Text) (before : Neighbour) (after : Option Neighbour) :
    symbolKind word (some before) after ≠ .label := by
  unfold symbolKind
  simp only [Option.isNone_some, Bool.false_and, Bool.false_eq_true, ↓reduceIte]
  repeat' split
  all_goals nofun

theorem kind?_ne_label {piece : Piece} {before : List Piece}
    (h : (neighbour before).isSome = true ∨ piece.shape? ≠ some .symbol) (after : List Piece) :
    piece.kind? before after ≠ some .label := by
  cases piece with
  | blank | unclosed | lineComment | unknown => nofun
  | closed region => cases region <;> nofun
  | code shape text =>
    intro hLabel
    have hKind : codeKind shape text (neighbour before) (neighbour after) = .label :=
      Option.some.inj hLabel
    cases shape with
    | symbol =>
      obtain ⟨n, hBefore⟩ := Option.isSome_iff_exists.1 (h.resolve_right fun hNe => hNe rfl)
      rw [hBefore] at hKind
      exact symbolKind_ne_label _ _ _ hKind
    | number =>
      rw [codeKind] at hKind
      split at hKind <;> cases hKind
    | _ => cases hKind

theorem filter_label_toList {kind? : Option Kind} (h : kind? ≠ some .label) (span : Span) :
    ((kind?.map (⟨·, span⟩ : Kind → Token)).toList.filter (·.kind == .label)) = [] := by
  cases kind? with
  | none => rfl
  | some kind => cases kind <;> first | rfl | exact absurd rfl h

/-- Behind a piece that is not blank stands no label. -/
theorem filter_label_tokensOf {before : List Piece} (h : (neighbour before).isSome = true)
    (base : Nat) (pieces : List Piece) :
    (Indent.tokensOf base before pieces).filter (·.kind == .label) = [] := by
  induction pieces generalizing base before with
  | nil => rfl
  | cons piece rest ih =>
    rw [Indent.tokensOf_cons, List.filter_append, ih (isSome_neighbour_cons h piece),
      List.append_nil]
    exact filter_label_toList (kind?_ne_label (.inl h) rest) _

/-- What follows the blanks at the start of a line starts with no separator. -/
theorem isSeparator_of_dropWhile {line cs : Text} {c : Char} (hLine : '\n' ∉ line)
    (h : line.dropWhile Text.isBlank = c :: cs) : Text.isSeparator c = false := by
  have hBlank := List.head?_dropWhile_not Text.isBlank line
  have hMem : c ∈ line := (List.dropWhile_suffix _).subset (h ▸ List.mem_cons_self)
  have hFeed : c ≠ '\n' := fun hFeed => hLine (hFeed ▸ hMem)
  rw [h, List.head?_cons] at hBlank
  rw [Text.isSeparator, hBlank, Bool.false_or, beq_eq_false_iff_ne]
  exact hFeed

/-- A colon follows code if it is its first character that is not blank. -/
theorem neighbour_isColon {code : Text} (hCode : '\n' ∉ code) :
    (neighbour (ofCode code)).any (·.hasShape .colon) =
      (Outline.afterColon? (code.dropWhile Text.isBlank)).isSome := by
  have hBlank (t : Text) (pieces : List Piece) :
      (neighbour (blank t :: pieces)).any (·.hasShape .colon) =
        (neighbour pieces).any (·.hasShape .colon) := by
    rw [neighbour, Option.any_map]
    rfl
  rw [← ofCode_dropWhile_blank (fun pieces => (neighbour pieces).any (·.hasShape .colon)) hBlank]
  cases hBody : code.dropWhile Text.isBlank with
  | nil =>
    rw [ofCode]
    rfl
  | cons c cs =>
    by_cases hColon : c = ':'
    · rw [hColon, ofCode]
      rfl
    · obtain ⟨piece, rest, hOfCode, hPiece, hShape⟩ :=
        exists_ofCode_cons (isSeparator_of_dropWhile hCode hBody) cs
      rw [hOfCode, neighbour_cons_of_not_isBlank hPiece, Outline.afterColon?_eq_none hColon]
      rw [Option.any_some, Option.isSome_none, Neighbour.hasShape, beq_eq_false_iff_ne]
      exact fun h => hColon (Lexeme.extent_eq_colon_iff.1 (hShape _ h))

/-- The blanks at the start of a line only move the tokens behind them. -/
theorem exists_tokensOf_body (base : Nat) (line : Text) :
    ∃ before, neighbour before = none ∧
      Indent.tokensOf base [] (ofCode line) =
        Indent.tokensOf (base + Text.byteSize (line.takeWhile Text.isBlank)) before
          (ofCode (line.dropWhile Text.isBlank)) := by
  cases line with
  | nil => exact ⟨[], rfl, rfl⟩
  | cons c cs =>
    by_cases hc : Text.isBlank c = true
    · refine ⟨[blank (c :: cs.takeWhile Text.isBlank)], rfl, ?_⟩
      rw [ofCode_cons_blank hc, Indent.tokensOf_cons, List.takeWhile_cons_of_pos hc,
        List.dropWhile_cons_of_pos hc]
      rfl
    · refine ⟨[], rfl, ?_⟩
      rw [List.takeWhile_cons_of_neg hc, List.dropWhile_cons_of_neg hc]
      rfl

theorem symbolKind_eq_label_iff {word : Text} {after : Option Neighbour} :
    symbolKind word none after = .label ↔
      Vocabulary.keywords.contains word = false ∧ after.any (·.hasShape .colon) = true := by
  unfold symbolKind
  simp only [Option.any_none, Option.isNone_none, Bool.false_and, Bool.true_and,
    Bool.false_eq_true, ↓reduceIte]
  by_cases hKeyword : Vocabulary.keywords.contains word = true
  · simp [hKeyword]
  · by_cases hColon : after.any (·.hasShape .colon) = true
    · simp [hKeyword, hColon]
    · simp only [hKeyword, hColon, Bool.false_eq_true, ↓reduceIte, and_false, iff_false]
      split <;> nofun

/-- A symbol that no piece stands before is a label if a colon follows and it is no keyword. -/
theorem filter_label_symbol {before : List Piece} (hBefore : neighbour before = none) (word : Text)
    {behind : Text} (hBehind : '\n' ∉ behind) (span : Span) :
    (((code .symbol word).kind? before (ofCode behind)).map
        (⟨·, span⟩ : Kind → Token)).toList.filter (·.kind == .label) =
      (((Outline.afterColon? (behind.dropWhile Text.isBlank)).filter
        fun _ => !Vocabulary.keywords.contains word).map fun _ => ⟨.label, span⟩).toList := by
  have hKind := @symbolKind_eq_label_iff word (neighbour (ofCode behind))
  rw [neighbour_isColon hBehind] at hKind
  rw [kind?, codeKind, hBefore]
  cases hAfter : Outline.afterColon? (behind.dropWhile Text.isBlank) with
  | none =>
    rw [hAfter] at hKind
    apply filter_label_toList
    intro h
    cases (hKind.1 (Option.some.inj h)).2
  | some after =>
    rw [hAfter] at hKind
    rw [Option.filter_some]
    cases hKeyword : Vocabulary.keywords.contains word with
    | true =>
      apply filter_label_toList
      intro h
      have hNot := (hKind.1 (Option.some.inj h)).1
      rw [hKeyword] at hNot
      cases hNot
    | false =>
      rw [hKind.2 ⟨hKeyword, rfl⟩]
      rfl

/-- **Labels of a line.** A line in code has at most one label token, at its first symbol. -/
theorem filter_label_ofCode {line : Text} (hLine : '\n' ∉ line) (index base : Nat) :
    (Indent.tokensOf base [] (ofCode line)).filter (·.kind == .label) =
      ((Outline.declaration? Outline.Label.ofPieces? .normal index base line).map
        fun d => ⟨.label, d.span⟩).toList := by
  obtain ⟨before, hBefore, hTokens⟩ := exists_tokensOf_body base line
  rw [hTokens, Outline.declaration?, if_pos (show State.normal.isNormal = true from rfl)]
  unfold Outline.Label.ofPieces? Outline.Label.read?
  cases hBody : line.dropWhile Text.isBlank with
  | nil =>
    rw [ofCode]
    rfl
  | cons c cs =>
    simp only
    split
    next hStart =>
      have hBehind : '\n' ∉ cs.dropWhile Lexeme.isSymbolRest := by
        intro hMem
        have hMem := List.mem_cons_of_mem c ((List.dropWhile_suffix _).subset hMem)
        exact hLine ((List.dropWhile_suffix _).subset (hBody ▸ hMem))
      rw [ofCode_cons_symbol hStart, Indent.tokensOf_cons, List.filter_append,
        filter_label_tokensOf rfl, List.append_nil, filter_label_symbol hBefore _ hBehind]
      cases Outline.afterColon? ((cs.dropWhile Lexeme.isSymbolRest).dropWhile Text.isBlank) with
      | none => rfl
      | some after =>
        rw [Option.filter_some, Option.map_some, Option.filter_some]
        split <;> rfl
    next hStart =>
      obtain ⟨piece, rest, hOfCode, hPiece, hShape⟩ :=
        exists_ofCode_cons (isSeparator_of_dropWhile hLine hBody) cs
      have hSymbol : piece.shape? ≠ some .symbol := fun h =>
        hStart (Lexeme.isSymbolStart_of_extent (hShape _ h))
      rw [hOfCode, Indent.tokensOf_cons, List.filter_append,
        filter_label_toList (kind?_ne_label (.inr hSymbol) rest), filter_label_tokensOf]
      · rfl
      · rw [neighbour_cons_of_not_isBlank hPiece]
        rfl

end Piece

namespace Outline

/-! ## Labels of a text -/

theorem filter_label_ofLine {line : Text} (hLine : '\n' ∉ line) (index base : Nat) (entry : State)
    (openFrom : Option Nat) :
    (LineScan.ofLine line base entry openFrom).tokens.filter (·.kind == .label) =
      ((declaration? Label.ofPieces? entry index base line).map
        fun d => ⟨.label, d.span⟩).toList := by
  cases entry with
  | normal =>
    rw [LineScan.ofLine_normal]
    exact Piece.filter_label_ofCode hLine index base
  | inside region =>
    -- the region comes first, and nothing behind it starts the line
    have hRegion : (region.kind == .label) = false := by cases region <;> rfl
    cases hEnd : region.length? line with
    | none =>
      rw [LineScan.ofLine_unclosed hEnd]
      rfl
    | some n =>
      rw [LineScan.ofLine_closed hEnd]
      simp only [List.filter_cons, hRegion, Bool.false_eq_true, ↓reduceIte]
      exact Piece.filter_label_tokensOf rfl _ _

theorem kind_ne_label_of_openToken? {carry : Carry} {stop : Nat} {token : Token}
    (h : carry.openToken? stop = some token) : token.kind ≠ .label := by
  unfold Carry.openToken? at h
  obtain ⟨start, -, h⟩ := Option.bind_eq_some_iff.1 h
  obtain ⟨kind, hKind, h⟩ := Option.bind_eq_some_iff.1 h
  split at h
  · obtain rfl := Option.some.inj h
    rintro rfl
    unfold State.kind? Region.kind at hKind
    repeat' split at hKind
    all_goals cases hKind
  · cases h

/-- The label tokens of lines that follow each other. -/
theorem filter_label_tokensFrom {lines : List Text} (hLines : ∀ line ∈ lines, '\n' ∉ line)
    (index base : Nat) (carry : Carry) (stop : Nat) :
    (tokensFrom base carry lines stop).filter (·.kind == .label) =
      (declarations Label.ofPieces? carry.state index base lines).map
        fun d => ⟨.label, d.span⟩ := by
  induction lines generalizing index base carry with
  | nil =>
    rw [declarations, List.map_nil, List.filter_eq_nil_iff]
    intro token hToken hLabel
    have hOpen : carry.openToken? stop = some token := Option.mem_toList.1 hToken
    exact kind_ne_label_of_openToken? hOpen (beq_iff_eq.1 hLabel)
  | cons line below ih =>
    obtain ⟨hLine, hBelow⟩ := List.forall_mem_cons.1 hLines
    rw [tokensFrom_cons]
    simp only
    rw [List.filter_append, filter_label_ofLine hLine index, ih hBelow (index + 1), declarations,
      List.map_append, Option.toList_map]
    rfl

/-- The line and the place of a declaration. -/
def Declaration.place (d : Declaration) : Nat × Span := (d.index, d.span)

/-- The line and the place of the name of a routine. -/
def Routine.place (r : Routine) : Nat × Span := (r.line, r.range.span)

/-- The lines and the places of the label tokens of a text. -/
def labelPlaces (text : Text) : List (Nat × Span) :=
  ((classify text .normal).tokens.filter (·.kind == .label)).map fun token =>
    (((LineTable.ofText text).position token.span.start).line, token.span)

theorem map_routinesFrom (table : LineTable) (entry : State) (index base : Nat)
    (lines : List Text) :
    (routinesFrom table entry index base lines).map (fun r => (r.place, r.name)) =
      (declarations Label.ofLine? entry index base lines).map
        fun d => (d.place, d.label.name) := by
  induction lines generalizing entry index base with
  | nil => rfl
  | cons line below ih =>
    rw [routinesFrom, declarations, List.map_append, List.map_append, ih]
    congr 1
    unfold declaration? Routine.ofLine?
    cases entry with
    | inside region => rfl
    | normal =>
      simp only [State.isNormal, ↓reduceIte]
      cases Label.ofLine? line with
      | none => rfl
      | some label =>
        simp only [Option.filter_some]
        cases hKeyword : Vocabulary.keywords.contains label.name with
        | true => simp [hKeyword]
        | false =>
          simp [hKeyword]
          rfl

/-- The name of a label stands on the line of the label. -/
theorem line_of_mem_declarations {text : Text} {d : Declaration}
    (h : d ∈ declarations Label.ofPieces? .normal 0 0 text.lines) :
    ((LineTable.ofText text).position d.span.start).line = d.index := by
  obtain ⟨k, hLine, hIndex, hBase, hRead⟩ := of_mem_declarations h
  obtain ⟨hk, hGet⟩ := List.getElem?_eq_some_iff.1 hLine
  have hGap : d.label.gap.byteSize ≤ d.line.byteSize := by
    obtain ⟨c, cs, after, -, -, hLabel⟩ := Label.read?_cases hRead
    have hAppend := congrArg Text.byteSize
      (List.takeWhile_append_dropWhile (p := Text.isBlank) (l := d.line))
    rw [Text.byteSize_append] at hAppend
    rw [hLabel]
    exact Nat.le.intro hAppend
  have hNext : Text.linesSize (text.lines.take (k + 1)) =
      Text.linesSize (text.lines.take k) + (d.line.byteSize + 1) := by
    rw [List.take_succ_eq_append_getElem hk, hGet, Text.linesSize_append, Text.linesSize_cons,
      Text.linesSize_nil]
  have hStart : d.span.start = d.base + d.label.gap.byteSize := rfl
  rw [hIndex, Nat.zero_add]
  apply LineTable.line_position hk <;> omega

theorem labelPlaces_eq (text : Text) :
    labelPlaces text =
      (declarations Label.ofPieces? .normal 0 0 text.lines).map Declaration.place := by
  rw [labelPlaces, classify_eq,
    filter_label_tokensFrom (fun _ h => Text.newline_notMem_of_mem_lines h) 0, List.map_map]
  apply List.map_congr_left
  intro d hd
  exact Prod.ext (line_of_mem_declarations hd) rfl

theorem map_routines (text : Text) :
    (routines text).map (fun r => (r.place, r.name)) =
      (declarations Label.ofLine? .normal 0 0 text.lines).map fun d => (d.place, d.label.name) :=
  map_routinesFrom (LineTable.ofText text) .normal 0 0 text.lines

theorem exists_of_mem_routines {text : Text} {r : Routine} (h : r ∈ routines text) :
    ∃ d ∈ declarations Label.ofLine? .normal 0 0 text.lines,
      d.place = r.place ∧ d.label.name = r.name := by
  have hMem : (r.place, r.name) ∈ (routines text).map fun r => (r.place, r.name) :=
    List.mem_map_of_mem h
  rw [map_routines] at hMem
  obtain ⟨d, hd, hEq⟩ := List.mem_map.1 hMem
  exact ⟨d, hd, congrArg Prod.fst hEq, congrArg Prod.snd hEq⟩

/-- The places of the routines that do not start with `#`. -/
theorem filter_map_routines (text : Text) :
    ((routines text).filter fun r => r.name.head? != some '#').map Routine.place =
      (declarations (fun line => (Label.ofLine? line).filter fun label =>
        label.name.head? != some '#') .normal 0 0 text.lines).map Declaration.place := by
  have hFilter := congrArg
    (fun l => (l.filter fun x : (Nat × Span) × Text => x.2.head? != some '#').map Prod.fst)
    (map_routines text)
  simp only [List.filter_map, List.map_map] at hFilter
  rw [← filter_declarations Label.ofLine? fun _ label => label.name.head? != some '#']
  exact hFilter

/-- The places of the label tokens that have plain blanks around the name. -/
theorem filter_labelPlaces (text : Text) :
    (labelPlaces text).filter (fun place => (text.lines[place.1]?).any hasPlainGaps) =
      (declarations (fun line => (Label.ofPieces? line).filter fun _ => hasPlainGaps line)
        .normal 0 0 text.lines).map Declaration.place := by
  rw [← filter_declarations Label.ofPieces? fun line _ => hasPlainGaps line, labelPlaces_eq,
    List.filter_map]
  congr 1
  apply List.filter_congr
  intro d hd
  obtain ⟨k, hLine, hIndex, -⟩ := of_mem_declarations hd
  rw [Function.comp_apply, Declaration.place, hIndex, Nat.zero_add, hLine, Option.any_some]

/-- A label that both list starts with no `#` and has plain blanks around its name. -/
theorem shared_of_mem_declarations {text : Text} {d d' : Declaration}
    (hd : d ∈ declarations Label.ofLine? .normal 0 0 text.lines)
    (hd' : d' ∈ declarations Label.ofPieces? .normal 0 0 text.lines) (h : d.index = d'.index) :
    d.label.name.head? ≠ some '#' ∧ (text.lines[d'.index]?).any hasPlainGaps = true := by
  obtain ⟨k, hLine, hIndex, -, hRead⟩ := of_mem_declarations hd
  obtain ⟨k', hLine', hIndex', -, hRead'⟩ := of_mem_declarations hd'
  obtain rfl : k = k' := by omega
  rw [Option.some.inj (hLine.symm.trans hLine')] at hRead
  rw [hIndex', Nat.zero_add, hLine', Option.any_some]
  exact Label.shared_of_ofLine?_of_ofPieces? hRead hRead'

/-- **Outline and highlighting.** The routines of a text that do not start with `#` are, in order,
its label tokens with no blanks but spaces and tabs around the name. So both list the same labels if
and only if there are no others. -/
theorem routines_agree (text : Text) :
    ((routines text).filter fun r => r.name.head? != some '#').map Routine.place =
        (labelPlaces text).filter (fun place => (text.lines[place.1]?).any hasPlainGaps) ∧
      ((routines text).map Routine.place = labelPlaces text ↔
        (∀ r ∈ routines text, r.name.head? ≠ some '#') ∧
          ∀ place ∈ labelPlaces text, (text.lines[place.1]?).any hasPlainGaps = true) := by
  have hShared : ((routines text).filter fun r => r.name.head? != some '#').map Routine.place =
      (labelPlaces text).filter (fun place => (text.lines[place.1]?).any hasPlainGaps) := by
    rw [filter_map_routines, filter_labelPlaces]
    simp only [Label.ofLine?_eq_ofPieces?]
  refine ⟨hShared, ?_, ?_⟩
  · intro hPlaces
    constructor
    · intro r hr
      obtain ⟨d, hd, hPlace, hName⟩ := exists_of_mem_routines hr
      have hMem : r.place ∈ labelPlaces text := hPlaces ▸ List.mem_map_of_mem hr
      rw [labelPlaces_eq] at hMem
      obtain ⟨d', hd', hPlace'⟩ := List.mem_map.1 hMem
      have hIndex : d.index = d'.index := congrArg Prod.fst (hPlace.trans hPlace'.symm)
      rw [← hName]
      exact (shared_of_mem_declarations hd hd' hIndex).1
    · intro place hMem
      have hMem' : place ∈ (routines text).map Routine.place := hPlaces ▸ hMem
      obtain ⟨r, hr, hr'⟩ := List.mem_map.1 hMem'
      obtain ⟨d, hd, hPlace, -⟩ := exists_of_mem_routines hr
      rw [labelPlaces_eq] at hMem
      obtain ⟨d', hd', rfl⟩ := List.mem_map.1 hMem
      have hIndex : d.index = d'.index := congrArg Prod.fst (hPlace.trans hr')
      exact (shared_of_mem_declarations hd hd' hIndex).2
  · rintro ⟨hHash, hPlain⟩
    rw [List.filter_eq_self.2 hPlain, List.filter_eq_self.2] at hShared
    · exact hShared
    · intro r hr
      exact bne_iff_ne.2 (hHash r hr)

/-- A comment that starts with `#` is listed in the outline, and a label behind a form feed is
not. -/
theorem routines_disagree :
    (routines "# : note".toList).map Routine.place = [(0, ⟨0, 1⟩)] ∧
      labelPlaces "# : note".toList = [] ∧
      routines "\x0cmain: nop".toList = [] ∧
      labelPlaces "\x0cmain: nop".toList = [(0, ⟨1, 5⟩)] := by
  decide +kernel

end Outline

end RexxEditing
