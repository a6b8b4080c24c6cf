import RexxEditing.Proofs.Semantic.Cuts

/-! # Reading the relative encoding

The numbers of semantic tokens are read five at a time. A reader adds up the lines, and the columns
on one line, and looks the category up in the legend. It finds the tokens again if they are in
reading order and nothing is lost in 32 bits.

* `decodeFrom`: the reader.
* `decodeFrom_encode?`: the numbers of one token, whatever follows them.
* `decodeFrom_encodeFrom?`: the numbers of many tokens.
* `isEncodable_ofText`: the semantic tokens of a text are in order and fit into 32 bits.
* `decode_encodeAll?`: what the reader finds.
-/

namespace RexxEditing.SemanticToken

/-- What the numbers of a token tell about it. -/
structure Entry where
  start : Position
  length : Nat
  kind : SemanticKind
  deriving DecidableEq, Repr

/-- What is told about a token. -/
def entry (t : SemanticToken) : Entry := ⟨t.range.start, t.range.span.length, t.kind⟩

/-- The position so many lines and columns behind another. On a later line, columns count from its
start. -/
def advance (previous : Position) (lines columns : UInt32) : Position :=
  if lines = 0 then ⟨previous.line, previous.column + columns.toNat⟩
  else ⟨previous.line + lines.toNat, columns.toNat⟩

/-- The tokens of numbers that follow a token at `previous`. Only whole groups of five numbers with
a category of the legend can be read. -/
def decodeFrom (previous : Position) : List UInt32 → Option (List Entry)
  | [] => some []
  | lines :: columns :: length :: index :: _ :: rest => do
    let start := advance previous lines columns
    let kind ← SemanticKind.legend[index.toNat]?
    let others ← decodeFrom start rest
    return ⟨start, length.toNat, kind⟩ :: others
  | _ => none

/-- The tokens of numbers. -/
def decode (numbers : List UInt32) : Option (List Entry) := decodeFrom .zero numbers

/-- Whether line, column and length of the token have 32 bits at most. -/
structure Fits (t : SemanticToken) : Prop where
  line : t.range.start.line < UInt32.size
  column : t.range.start.column < UInt32.size
  length : t.range.span.length < UInt32.size

/-- Whether the tokens are in the order of their starts, end no earlier than they start, and fit
into 32 bits. -/
structure IsEncodable (tokens : List SemanticToken) : Prop where
  sorted : tokens.Pairwise fun a b => a.range.start.le b.range.start = true
  ordered : ∀ t ∈ tokens, t.range.span.start ≤ t.range.span.stop
  fits : ∀ t ∈ tokens, t.Fits

/-! ## One token -/

theorem legend_getElem?_index (k : SemanticKind) :
    SemanticKind.legend[k.index.toUInt32.toNat]? = some k := by
  cases k <;> decide

theorem toNat_toUInt32 {n : Nat} (h : n < UInt32.size) : n.toUInt32.toNat = n :=
  UInt32.toNat_ofNat_of_lt' h

theorem toUInt32_eq_zero_iff {n : Nat} (h : n < UInt32.size) : n.toUInt32 = 0 ↔ n = 0 := by
  rw [← UInt32.toNat_inj, toNat_toUInt32 h]
  rfl

/-- The columns between two starts, from the start of the line if that is another one. -/
def columnsSince (previous start : Position) : Nat :=
  if start.line = previous.line then start.column - previous.column else start.column

theorem encode?_eq {previous : Position} {t : SemanticToken}
    (hStart : previous.le t.range.start = true) (hSpan : t.range.span.start ≤ t.range.span.stop) :
    encode? previous t =
      some [(t.range.start.line - previous.line).toUInt32,
        (columnsSince previous t.range.start).toUInt32,
        t.range.span.length.toUInt32, t.kind.index.toUInt32, 0] := by
  have hOrder := Position.le_iff.1 hStart
  have hLines : previous.line ≤ t.range.start.line := by omega
  rw [encode?, columnsSince, Checked.diff?_eq hLines]
  simp only [Option.bind_eq_bind, Option.bind_some, Checked.diff?_eq hSpan]
  by_cases hSame : t.range.start.line = previous.line
  · have hZero : t.range.start.line - previous.line = 0 := by omega
    have hColumns : previous.column ≤ t.range.start.column := by omega
    rw [if_pos hZero, if_pos hSame, Checked.diff?_eq hColumns]
    rfl
  · have hPositive : t.range.start.line - previous.line ≠ 0 := by omega
    rw [if_neg hPositive, if_neg hSame]
    rfl

/-- The reader comes from one start to the next. -/
theorem advance_eq {previous start : Position} (h : previous.le start = true)
    (hLine : start.line < UInt32.size) (hColumn : start.column < UInt32.size) :
    advance previous (start.line - previous.line).toUInt32
      (columnsSince previous start).toUInt32 = start := by
  have hOrder := Position.le_iff.1 h
  have hLineFits : start.line - previous.line < UInt32.size := by omega
  rw [Position.eq_iff, advance, columnsSince]
  by_cases hSame : start.line = previous.line
  · have hZero : start.line - previous.line = 0 := by omega
    have hColumnFits : start.column - previous.column < UInt32.size := by omega
    rw [if_pos ((toUInt32_eq_zero_iff hLineFits).2 hZero), if_pos hSame,
      toNat_toUInt32 hColumnFits]
    dsimp only
    omega
  · have hPositive : start.line - previous.line ≠ 0 := by omega
    rw [if_neg (mt (toUInt32_eq_zero_iff hLineFits).1 hPositive), if_neg hSame,
      toNat_toUInt32 hLineFits, toNat_toUInt32 hColumn]
    dsimp only
    omega

/-- **The numbers of one token.** The reader finds the token and goes on from its start. -/
theorem decodeFrom_encode? {previous : Position} {t : SemanticToken}
    (hStart : previous.le t.range.start = true) (hSpan : t.range.span.start ≤ t.range.span.stop)
    (hFits : t.Fits) (rest : List UInt32) :
    ∃ first, encode? previous t = some first ∧
      decodeFrom previous (first ++ rest) =
        (decodeFrom t.range.start rest).map (t.entry :: ·) := by
  refine ⟨_, encode?_eq hStart hSpan, ?_⟩
  have hAdvance := advance_eq hStart hFits.line hFits.column
  simp only [List.cons_append, List.nil_append, decodeFrom, hAdvance, legend_getElem?_index,
    toNat_toUInt32 hFits.length, Option.bind_eq_bind, Option.bind_some]
  cases decodeFrom t.range.start rest <;> rfl

/-! ## Many tokens -/

/-- **The numbers of many tokens.** -/
theorem decodeFrom_encodeFrom? {previous : Position} {tokens : List SemanticToken}
    (hFirst : ∀ t ∈ tokens, previous.le t.range.start = true) (h : IsEncodable tokens) :
    ∃ numbers, encodeFrom? previous tokens = some numbers ∧
      decodeFrom previous numbers = some (tokens.map entry) := by
  induction tokens generalizing previous with
  | nil => exact ⟨[], rfl, rfl⟩
  | cons t rest ih =>
    obtain ⟨hHead, hSorted⟩ := List.pairwise_cons.1 h.sorted
    obtain ⟨hSpan, hSpans⟩ := List.forall_mem_cons.1 h.ordered
    obtain ⟨hFits, hRest⟩ := List.forall_mem_cons.1 h.fits
    obtain ⟨others, hOthers, hDecoded⟩ := ih hHead ⟨hSorted, hSpans, hRest⟩
    obtain ⟨first, hEncode, hDecode⟩ :=
      decodeFrom_encode? (hFirst t List.mem_cons_self) hSpan hFits others
    refine ⟨first ++ others, ?_, ?_⟩
    · rw [encodeFrom?, hEncode, hOthers]
      rfl
    · rw [hDecode, hDecoded]
      rfl

/-! ## The tokens of a text -/

theorem length_le_linesSize (lines : List Text) : lines.length ≤ Text.linesSize lines := by
  induction lines with
  | nil => exact Nat.le_refl 0
  | cons line rest ih =>
    rw [List.length_cons, Text.linesSize_cons]
    omega

/-- A position has no more lines and columns in front of it than bytes. -/
theorem add_le_of_isAt {text : Text} {n : Nat} {p : Position} (h : text.IsAt n p) :
    p.line + p.column ≤ n := by
  obtain ⟨hLine, -, -⟩ := h.bounds
  obtain ⟨-, -, hOffset, -⟩ := h
  have hLines := length_le_linesSize (text.lines.take p.line)
  rw [List.length_take_of_le (Nat.le_of_lt hLine)] at hLines
  omega

/-- **The semantic tokens of a text** with less than `2 ^ 32` bytes can be encoded without loss. -/
theorem isEncodable_ofText {text : Text} (h : text.byteSize < UInt32.size) :
    IsEncodable (ofText text) := by
  rw [ofText_eq]
  refine ⟨?_, ?_, ?_⟩
  · apply (pairwise_before_parts text).imp
    intro a b hab
    exact start_le_of_le (le_of_before hab.1)
  · intro t ht
    exact Nat.le_of_lt (isPlaced_of_mem_parts ht).nonempty
  · intro t ht
    have hPlaced := isPlaced_of_mem_parts ht
    have hStop := hPlaced.stop.le_byteSize
    have hStart := add_le_of_isAt hPlaced.start
    have hOrder := hPlaced.nonempty
    have hLength : t.range.span.length = t.range.span.stop - t.range.span.start := rfl
    exact ⟨by omega, by omega, by omega⟩

/-- **The encoding can be read.** Tokens in the order of their starts whose lines, columns and
lengths fit into 32 bits have numbers, and the reader finds line, column, length and category of
each of them in these numbers, in order. The semantic tokens of a text with less than `2 ^ 32` bytes
are such tokens. -/
theorem decode_encodeAll? :
    (∀ tokens : List SemanticToken, IsEncodable tokens →
      ∃ numbers, encodeAll? tokens = some numbers ∧ decode numbers = some (tokens.map entry)) ∧
      ∀ text : Text, text.byteSize < UInt32.size → IsEncodable (ofText text) := by
  constructor
  · intro tokens h
    apply decodeFrom_encodeFrom? _ h
    intro t _
    rw [Position.le_iff]
    show 0 < t.range.start.line ∨ 0 = t.range.start.line ∧ 0 ≤ t.range.start.column
    omega
  · intro text h
    exact isEncodable_ofText h

/-- Two tokens on one line and one on the next. -/
theorem decode_encodeAll?_on_two_lines :
    let text : Text := "say 1\n  exit".toList
    let numbers := [0, 0, 3, 0, 0, 0, 4, 1, 3, 0, 1, 2, 4, 0, 0]
    text.byteSize < UInt32.size ∧ encodeAll? (ofText text) = some numbers ∧
      decode numbers =
        some [⟨⟨0, 0⟩, 3, .keyword⟩, ⟨⟨0, 4⟩, 1, .number⟩, ⟨⟨1, 2⟩, 4, .keyword⟩] := by
  intro text numbers
  have hSize : text.byteSize < UInt32.size := by decide +kernel
  obtain ⟨numbers', hEncode, hDecode⟩ :=
    decode_encodeAll?.1 (ofText text) (decode_encodeAll?.2 text hSize)
  have hNumbers : encodeAll? (ofText text) = some numbers := by
    rw [ofText_eq]
    decide +kernel
  obtain rfl : numbers' = numbers := Option.some.inj (hEncode.symm.trans hNumbers)
  refine ⟨hSize, hNumbers, ?_⟩
  rw [hDecode, ofText_eq]
  decide +kernel

end RexxEditing.SemanticToken
