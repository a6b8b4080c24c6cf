import RexxEditing.Proofs.Highlight.Tiling

/-! # Every byte has its place

The tokens of a text are apart from each other, lie in the text and cut no character. A byte outside
of them is a separator, and a token with a separator in it is a comment or a string.

* `classify_partition`: all of this for every text and every entry state.
-/

namespace RexxEditing

/-- Whether the token has byte `i` of the text. -/
def Token.Covers (t : Token) (i : Nat) : Prop := t.span.start ≤ i ∧ i < t.span.stop

/-- Whether byte `n` is the end of the text or the first byte of a character. -/
def Text.IsBoundary (t : Text) (n : Nat) : Prop := ∃ before after, t.cut? n = some (before, after)

namespace Tiles

variable {tokens : List Token} {text : Text}

/-- A token of a tiled text is not empty, lies in the text and cuts no character. -/
theorem span_fits (h : Tiles 0 tokens text) {t : Token} (ht : t ∈ tokens) :
    t.span.start < t.span.stop ∧ t.span.stop ≤ text.byteSize ∧
      text.IsBoundary t.span.start ∧ text.IsBoundary t.span.stop := by
  obtain ⟨before, part, after, rfl, hPart, hSpan, -⟩ := h.exists_part ht
  have hPos := Text.byteSize_pos hPart
  simp only [hSpan, Nat.zero_add]
  refine ⟨by omega, ?_, ⟨before, part ++ after, ?_⟩, ⟨before ++ part, after, ?_⟩⟩
  · simp only [Text.byteSize_append]
    omega
  · rw [List.append_assoc]
    exact Text.cut?_append before (part ++ after)
  · rw [← Text.byteSize_append]
    exact Text.cut?_append (before ++ part) after

theorem mem_separatorBytes (h : Tiles 0 tokens text) {i : Nat} {b : UInt8}
    (hb : text.bytes[i]? = some b) (hFree : ∀ t ∈ tokens, ¬ t.Covers i) :
    b ∈ Text.separatorBytes := by
  obtain ⟨before, c, after, hText, hStart, hStop, hMem⟩ := Text.exists_char_of_getElem?_bytes hb
  rw [Text.mem_separatorBytes_iff hMem]
  cases hc : Text.isSeparator c with
  | true => rfl
  | false =>
    obtain ⟨t, ht, hLeft, hRight⟩ := h.exists_token hText hc
    exact absurd ⟨by omega, by omega⟩ (hFree t ht)

/-- A token that is no region has no byte of a separator. -/
theorem notMem_separatorBytes (h : Tiles 0 tokens text) {t : Token} (ht : t ∈ tokens)
    (hKind : t.kind.isRegion = false) {i : Nat} {b : UInt8} (hb : text.bytes[i]? = some b)
    (hCovers : t.Covers i) : b ∉ Text.separatorBytes := by
  obtain ⟨before, part, after, rfl, -, hSpan, hRegion | hPart⟩ := h.exists_part ht
  · rw [hKind] at hRegion
    cases hRegion
  · obtain ⟨hStart, hStop⟩ := hCovers
    rw [hSpan] at hStart hStop
    have hMem : b ∈ part.bytes :=
      Text.mem_bytes_of_getElem?_bytes hb (by simpa using hStart) (by simpa using hStop)
    obtain ⟨c, hc, hEncode⟩ := List.mem_flatMap.1 hMem
    rw [Text.mem_separatorBytes_iff hEncode, hPart c hc]
    simp

theorem ordered (h : Tiles 0 tokens text) :
    tokens.Pairwise fun t u => t.span.start < u.span.start ∧ t.span.stop ≤ u.span.start := by
  refine h.pairwise.imp_of_mem fun ht _ hStop => ⟨?_, hStop⟩
  have hSpan := (h.span_fits ht).1
  omega

theorem eq_of_covers (h : Tiles 0 tokens text) {t u : Token} (ht : t ∈ tokens) (hu : u ∈ tokens)
    {i : Nat} (hti : t.Covers i) (hui : u.Covers i) : t = u := by
  obtain ⟨j, hj, rfl⟩ := List.getElem_of_mem ht
  obtain ⟨k, hk, rfl⟩ := List.getElem_of_mem hu
  have hApart := List.pairwise_iff_getElem.1 h.pairwise
  obtain ⟨hjStart, hjStop⟩ := hti
  obtain ⟨hkStart, hkStop⟩ := hui
  rcases Nat.lt_trichotomy j k with hjk | rfl | hkj
  · have hGap := hApart j k hj hk hjk
    omega
  · rfl
  · have hGap := hApart k j hk hj hkj
    omega

/-- Each byte is in exactly one token, or it is the byte of a separator in none. -/
theorem covers_or (h : Tiles 0 tokens text) {i : Nat} {b : UInt8} (hb : text.bytes[i]? = some b) :
    (∃ t ∈ tokens, t.Covers i ∧ ∀ u ∈ tokens, u.Covers i → u = t) ∨
      b ∈ Text.separatorBytes ∧ ∀ t ∈ tokens, ¬ t.Covers i := by
  by_cases hCovered : ∃ t ∈ tokens, t.Covers i
  · obtain ⟨t, ht, hti⟩ := hCovered
    exact Or.inl ⟨t, ht, hti, fun u hu hui => h.eq_of_covers hu ht hui hti⟩
  · have hFree : ∀ t ∈ tokens, ¬ t.Covers i := fun t ht hti => hCovered ⟨t, ht, hti⟩
    exact Or.inr ⟨h.mem_separatorBytes hb hFree, hFree⟩

end Tiles

/-- **Partition.** For every text and every entry state, the tokens are not empty, lie in the text,
start and end between characters, and follow each other without overlap. Every byte outside of them
is a space, tab, carriage return, form feed or line feed, and these stand in no token but comments
and strings. So each byte is in exactly one token, or it is such a separator in none. -/
theorem classify_partition (text : Text) (entry : State) :
    let tokens := (classify text entry).tokens
    (∀ t ∈ tokens, t.span.start < t.span.stop ∧ t.span.stop ≤ text.byteSize ∧
        text.IsBoundary t.span.start ∧ text.IsBoundary t.span.stop) ∧
      tokens.Pairwise (fun t u => t.span.start < u.span.start ∧ t.span.stop ≤ u.span.start) ∧
      (∀ i b, text.bytes[i]? = some b → (∀ t ∈ tokens, ¬ t.Covers i) → b ∈ Text.separatorBytes) ∧
      (∀ t ∈ tokens, t.kind ≠ .comment → t.kind ≠ .string →
        ∀ i b, text.bytes[i]? = some b → t.Covers i → b ∉ Text.separatorBytes) ∧
      ∀ i b, text.bytes[i]? = some b →
        (∃ t ∈ tokens, t.Covers i ∧ ∀ u ∈ tokens, u.Covers i → u = t) ∨
          b ∈ Text.separatorBytes ∧ ∀ t ∈ tokens, ¬ t.Covers i := by
  have hTiles := classify_tiles text entry
  refine ⟨fun t ht => hTiles.span_fits ht, hTiles.ordered,
    fun i b hb hFree => hTiles.mem_separatorBytes hb hFree,
    fun t ht hComment hString i b hb hCovers => ?_, fun i b hb => hTiles.covers_or hb⟩
  have hKind : t.kind.isRegion = false := by
    cases hk : t.kind <;> simp_all [Kind.isRegion]
  exact hTiles.notMem_separatorBytes ht hKind hb hCovers

end RexxEditing
