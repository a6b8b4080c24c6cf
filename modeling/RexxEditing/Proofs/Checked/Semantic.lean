import RexxEditing.Proofs.Checked.Document
import RexxEditing.Proofs.Checked.Position

/-! # Semantic tokens by checked arithmetic

A token over several lines is cut at the line ends, which takes the spans of its lines and the
positions of the parts. The tokens are sorted, and each is written down by its distance from the one
before. A distance has to be in order, in lines and, on one line, in columns.

* `semanticTokens?_eq`: the semantic tokens of a text.
* `SemanticToken.exists_encodeFrom?`: tokens in reading order have numbers.
* `exists_numbers?`: the semantic tokens of a text have numbers.
-/

namespace RexxEditing

/-! ## Reading order -/

theorem Position.eq_iff {p q : Position} : p = q ↔ p.line = q.line ∧ p.column = q.column := by
  obtain ⟨line, column⟩ := p
  obtain ⟨line', column'⟩ := q
  simp

namespace SemanticToken

variable {a b c : SemanticToken}

theorem le_iff : le a b = true ↔
    (a.range.start = b.range.start ∧ a.range.stop.le b.range.stop = true) ∨
      (a.range.start ≠ b.range.start ∧ a.range.start.le b.range.start = true) := by
  unfold le
  split <;> simp [*]

theorem start_le_of_le (h : le a b = true) : a.range.start.le b.range.start = true := by
  rcases le_iff.1 h with ⟨hStart, -⟩ | ⟨-, hStart⟩
  · rw [hStart, Position.le_iff]
    omega
  · exact hStart

theorem le_trans (hab : le a b = true) (hbc : le b c = true) : le a c = true := by
  simp only [le_iff, Position.le_iff, ne_eq, Position.eq_iff] at *
  omega

theorem le_total (a b : SemanticToken) : (le a b || le b a) = true := by
  simp only [Bool.or_eq_true, le_iff, Position.le_iff, ne_eq, Position.eq_iff]
  omega

/-! ## Numbers -/

/-- A token that stands behind another has numbers, if it does not end before it starts. -/
theorem exists_encode? {previous : Position} {t : SemanticToken}
    (hStart : previous.le t.range.start = true) (hSpan : t.range.span.start ≤ t.range.span.stop) :
    ∃ numbers, encode? previous t = some numbers := by
  have hOrder := Position.le_iff.1 hStart
  have hLines : diff? t.range.start.line previous.line =
      some (t.range.start.line - previous.line) := Checked.diff?_eq (by omega)
  rw [encode?, hLines]
  simp only [Option.bind_eq_bind, Option.bind_some, Checked.diff?_eq hSpan]
  split
  next hSame =>
    have hColumns : previous.column ≤ t.range.start.column := by omega
    rw [Checked.diff?_eq hColumns]
    exact ⟨_, rfl⟩
  next => exact ⟨_, rfl⟩

/-- **Numbers of tokens.** Tokens in reading order have numbers. -/
theorem exists_encodeFrom? {previous : Position} {tokens : List SemanticToken}
    (hFirst : ∀ t ∈ tokens, previous.le t.range.start = true)
    (hOrder : tokens.Pairwise fun a b => le a b = true)
    (hSpans : ∀ t ∈ tokens, t.range.span.start ≤ t.range.span.stop) :
    ∃ numbers, encodeFrom? previous tokens = some numbers := by
  induction tokens generalizing previous with
  | nil => exact ⟨[], rfl⟩
  | cons t rest ih =>
    obtain ⟨hHead, hRest⟩ := List.pairwise_cons.1 hOrder
    obtain ⟨hSpan, hSpans⟩ := List.forall_mem_cons.1 hSpans
    obtain ⟨first, hEncode⟩ := exists_encode? (hFirst t List.mem_cons_self) hSpan
    obtain ⟨others, hOthers⟩ := ih (fun u hu => start_le_of_le (hHead u hu)) hRest hSpans
    refine ⟨first ++ others, ?_⟩
    rw [encodeFrom?, hEncode, hOthers]
    rfl

/-- The tokens of a span are not empty. -/
theorem start_lt_of_mem_ofSpan {table : LineTable} {kind : SemanticKind} {span : Span}
    {t : SemanticToken} (h : t ∈ ofSpan table kind span) :
    t.range.span.start < t.range.span.stop := by
  have hRange {range : Range} (h : ofRange? kind range = some t) :
      t.range.span.start < t.range.span.stop := by
    unfold ofRange? at h
    split at h
    next hLess =>
      cases h
      exact hLess
    next => cases h
  unfold ofSpan at h
  dsimp only at h
  split at h
  · exact hRange (Option.mem_toList.1 h)
  · obtain ⟨line, -, hLine⟩ := List.mem_filterMap.1 h
    obtain ⟨lineSpan, -, hPart⟩ := Option.bind_eq_some_iff.1 hLine
    exact hRange hPart

theorem start_lt_of_mem_ofText {text : Text} {t : SemanticToken} (h : t ∈ ofText text) :
    t.range.span.start < t.range.span.stop := by
  obtain ⟨token, -, hToken⟩ := List.mem_flatMap.1 (List.mem_mergeSort.1 h)
  unfold ofToken at hToken
  split at hToken
  · exact start_lt_of_mem_ofSpan hToken
  · cases hToken

/-- **The numbers of a text.** All distances between the semantic tokens of a text are in order. -/
theorem exists_encodeAll? (text : Text) :
    ∃ numbers, encodeAll? (ofText text) = some numbers := by
  apply exists_encodeFrom?
  · intro t _
    rw [Position.le_iff]
    show 0 < t.range.start.line ∨ 0 = t.range.start.line ∧ 0 ≤ t.range.start.column
    omega
  · exact List.pairwise_mergeSort (fun a b c => le_trans (a := a) (b := b) (c := c)) le_total _
  · exact fun t ht => Nat.le_of_lt (start_lt_of_mem_ofText ht)

end SemanticToken

namespace Checked

open SemanticToken (ofRange?)

/-! ## Tokens of a text -/

def onLine? (table : LineTable) (kind : SemanticKind) (span : Span) (line : Nat) :
    Option (Option SemanticToken) := do
  match ← lineSpan? table line with
  | none => return none
  | some lineSpan =>
    let range ← range? table ⟨max span.start lineSpan.start, min span.stop lineSpan.stop⟩
    return ofRange? kind range

def onLines? (table : LineTable) (kind : SemanticKind) (span : Span) :
    List Nat → Option (List SemanticToken)
  | [] => some []
  | line :: rest => do
    let here ← onLine? table kind span line
    let others ← onLines? table kind span rest
    return here.toList ++ others

def ofSpan? (table : LineTable) (kind : SemanticKind) (span : Span) :
    Option (List SemanticToken) := do
  let range ← range? table span
  if range.isSingleLine then return (ofRange? kind range).toList
  else
    onLines? table kind span
      (List.range' range.start.line (range.stop.line + 1 - range.start.line))

def ofTokens? (table : LineTable) : List Token → Option (List SemanticToken)
  | [] => some []
  | token :: rest => do
    let here ← match SemanticKind.ofKind? token.kind with
      | some kind => ofSpan? table kind token.span
      | none => some []
    let others ← ofTokens? table rest
    return here ++ others

noncomputable def semanticTokens? (text : Text) : Option (List SemanticToken) := do
  let classification ← classify? text .normal
  let tokens ← ofTokens? (LineTable.ofText text) classification.tokens
  return tokens.mergeSort SemanticToken.le

/-- The numbers of the semantic tokens of a text. -/
noncomputable def numbers? (text : Text) : Option (List UInt32) := do
  let tokens ← semanticTokens? text
  SemanticToken.encodeAll? tokens

section Tokens

variable (text : Text) (kind : SemanticKind) (span : Span)

theorem onLine?_eq (line : Nat) :
    onLine? (LineTable.ofText text) kind span line =
      some (SemanticToken.onLine? (LineTable.ofText text) kind span line) := by
  unfold onLine? SemanticToken.onLine?
  simp only [lineSpan?_eq, range?_eq, Option.bind_eq_bind, Option.bind_some]
  cases (LineTable.ofText text).span? line <;> rfl

theorem onLines?_eq (lines : List Nat) :
    onLines? (LineTable.ofText text) kind span lines =
      some (lines.filterMap (SemanticToken.onLine? (LineTable.ofText text) kind span)) := by
  induction lines with
  | nil => rfl
  | cons line rest ih =>
    rw [onLines?, onLine?_eq, ih, List.filterMap_cons]
    cases SemanticToken.onLine? (LineTable.ofText text) kind span line <;> rfl

theorem ofSpan?_eq :
    ofSpan? (LineTable.ofText text) kind span =
      some (SemanticToken.ofSpan (LineTable.ofText text) kind span) := by
  unfold ofSpan? SemanticToken.ofSpan
  simp only [range?_eq, Option.bind_eq_bind, Option.bind_some]
  split
  · rfl
  · exact onLines?_eq text kind span _

end Tokens

theorem ofTokens?_eq (text : Text) (tokens : List Token) :
    ofTokens? (LineTable.ofText text) tokens =
      some (tokens.flatMap (SemanticToken.ofToken (LineTable.ofText text))) := by
  induction tokens with
  | nil => rfl
  | cons token rest ih =>
    rw [ofTokens?, ih, List.flatMap_cons, SemanticToken.ofToken]
    cases SemanticKind.ofKind? token.kind with
    | none => rfl
    | some kind =>
      simp only [ofSpan?_eq]
      rfl

/-- **The semantic tokens of a text** are found. -/
theorem semanticTokens?_eq (text : Text) :
    semanticTokens? text = some (SemanticToken.ofText text) := by
  rw [semanticTokens?, classify?_eq]
  simp only [Option.bind_eq_bind, Option.bind_some, ofTokens?_eq]
  rfl

/-- **The numbers of a text** are found. -/
theorem exists_numbers? (text : Text) :
    ∃ numbers, numbers? text = some numbers ∧
      SemanticToken.encodeAll? (SemanticToken.ofText text) = some numbers := by
  obtain ⟨numbers, hNumbers⟩ := SemanticToken.exists_encodeAll? text
  refine ⟨numbers, ?_, hNumbers⟩
  rw [numbers?, semanticTokens?_eq]
  exact hNumbers

end Checked

end RexxEditing
