import RexxEditing.Text.Character

/-! # Bytes of a text

The UTF-8 form of a text, byte by byte. Five characters separate the tokens of a text: space, tab,
carriage return, form feed and line feed. All of them have one byte, and that byte stands in no
other character.

* `length_bytes`: the byte size of a text is the number of its bytes.
* `cut?_append`, `slice?_append`: a text can be cut after each of its characters, and each part is
  found at its place.
* `exists_char_of_getElem?_bytes`: every byte belongs to a character of the text.
* `ofNat_mem_utf8EncodeChar_iff`: the byte of an ASCII character stands in no other character.
* `mem_separatorBytes_iff`: a byte is that of a separator exactly if its character is a separator.
-/

namespace RexxEditing.Text

/-- The bytes of the text in UTF-8. -/
def bytes (t : Text) : List UInt8 := t.flatMap String.utf8EncodeChar

@[simp] theorem bytes_append (s t : Text) : bytes (s ++ t) = bytes s ++ bytes t :=
  List.flatMap_append

@[simp] theorem bytes_cons (c : Char) (cs : Text) :
    bytes (c :: cs) = String.utf8EncodeChar c ++ bytes cs := rfl

@[simp] theorem length_bytes (t : Text) : t.bytes.length = t.byteSize := by
  induction t with
  | nil => rfl
  | cons c cs ih => simp [ih]

theorem byteSize_pos {t : Text} (h : t ≠ []) : 0 < t.byteSize := by
  obtain ⟨c, cs, rfl⟩ := List.exists_cons_of_ne_nil h
  have := c.utf8Size_pos
  rw [byteSize_cons]
  omega

/-- There is a cut after every first part of a text. -/
theorem cut?_append (before after : Text) :
    cut? (before ++ after) before.byteSize = some (before, after) := by
  induction before with
  | nil => cases after <;> rfl
  | cons c cs ih =>
    obtain ⟨n, hn⟩ : ∃ n, c.utf8Size + byteSize cs = n + 1 :=
      Nat.exists_eq_add_one.2 (Nat.add_pos_left c.utf8Size_pos _)
    have hLe : c.utf8Size ≤ n + 1 := by omega
    have hRest : n + 1 - c.utf8Size = byteSize cs := by omega
    rw [byteSize_cons, hn, List.cons_append, cut?, if_pos hLe, hRest, ih]
    rfl

/-- The text of a part that has its place. -/
theorem slice?_append (before part after : Text) :
    slice? (before ++ part ++ after) before.byteSize (before.byteSize + part.byteSize) =
      some part := by
  have hStart := cut?_append before (part ++ after)
  have hPart := cut?_append part after
  have hSize : before.byteSize + part.byteSize - before.byteSize = part.byteSize := by omega
  simp [slice?, List.append_assoc, hStart, hSize, hPart]

/-- Byte `i` of a text belongs to one of its characters. -/
theorem exists_char_of_getElem?_bytes {t : Text} {i : Nat} {b : UInt8}
    (h : t.bytes[i]? = some b) :
    ∃ before c after, t = before ++ c :: after ∧ byteSize before ≤ i ∧
      i < byteSize before + c.utf8Size ∧ b ∈ String.utf8EncodeChar c := by
  induction t generalizing i with
  | nil => simp [bytes] at h
  | cons c cs ih =>
    rw [bytes_cons] at h
    by_cases hi : i < c.utf8Size
    · rw [List.getElem?_append_left (by simpa using hi)] at h
      exact ⟨[], c, cs, rfl, Nat.zero_le i, by simpa using hi, List.mem_of_getElem? h⟩
    · rw [List.getElem?_append_right (by simpa using hi), String.length_utf8EncodeChar] at h
      obtain ⟨before, d, after, rfl, hBefore, hAfter, hMem⟩ := ih h
      refine ⟨c :: before, d, after, rfl, ?_, ?_, hMem⟩ <;> rw [byteSize_cons] <;> omega

/-- The bytes of a part of a text are found at its place. -/
theorem mem_bytes_of_getElem?_bytes {before part after : Text} {i : Nat} {b : UInt8}
    (h : (bytes (before ++ part ++ after))[i]? = some b) (hStart : before.byteSize ≤ i)
    (hStop : i < before.byteSize + part.byteSize) : b ∈ part.bytes := by
  rw [List.append_assoc, bytes_append, bytes_append,
    List.getElem?_append_right (by simpa using hStart),
    List.getElem?_append_left (by simp only [length_bytes]; omega)] at h
  exact List.mem_of_getElem? h

/-! ## Separators -/

/-- Space, tab, carriage return, form feed and line feed stand between tokens. -/
def isSeparator (c : Char) : Bool := isBlank c || c == '\n'

/-- The bytes of the separators. -/
def separatorBytes : List UInt8 := [0x20, 0x09, 0x0d, 0x0c, 0x0a]

theorem isSeparator_iff {c : Char} :
    isSeparator c = true ↔ c = ' ' ∨ c = '\t' ∨ c = '\r' ∨ c = '\x0c' ∨ c = '\n' := by
  simp [isSeparator, isBlank, or_assoc]

/-- A character outside ASCII has no byte of an ASCII character. -/
theorem toNat_ge_of_mem_utf8EncodeChar {c : Char} (hc : 0x7f < c.toNat) {b : UInt8}
    (hb : b ∈ String.utf8EncodeChar c) : 0x80 ≤ b.toNat := by
  have hByte : ∀ n, 0x80 ≤ n → n < 0x100 → 0x80 ≤ (UInt8.ofNat n).toNat := by
    intro n hLow hHigh
    rw [UInt8.toNat_ofNat_of_lt' hHigh]
    exact hLow
  have hAscii : ¬ c.val.toNat ≤ 0x7f := Nat.not_le.2 hc
  simp only [String.utf8EncodeChar, if_neg hAscii] at hb
  split at hb
  · simp only [List.mem_cons, List.not_mem_nil, or_false] at hb
    rcases hb with rfl | rfl <;> exact hByte _ (by omega) (by omega)
  · split at hb
    · simp only [List.mem_cons, List.not_mem_nil, or_false] at hb
      rcases hb with rfl | rfl | rfl <;> exact hByte _ (by omega) (by omega)
    · simp only [List.mem_cons, List.not_mem_nil, or_false] at hb
      rcases hb with rfl | rfl | rfl | rfl <;> exact hByte _ (by omega) (by omega)

theorem utf8EncodeChar_of_ascii {c : Char} (hc : c.toNat ≤ 0x7f) :
    String.utf8EncodeChar c = [UInt8.ofNat c.toNat] := by
  have hVal : c.val.toNat ≤ 0x7f := hc
  simp only [String.utf8EncodeChar, if_pos hVal]
  rfl

/-- The byte of an ASCII character stands in no other character. -/
theorem ofNat_mem_utf8EncodeChar_iff {c d : Char} (hd : d.toNat ≤ 0x7f) :
    UInt8.ofNat d.toNat ∈ String.utf8EncodeChar c ↔ c = d := by
  have hByte (e : Char) (he : e.toNat ≤ 0x7f) : (UInt8.ofNat e.toNat).toNat = e.toNat :=
    UInt8.toNat_ofNat_of_lt' (Nat.lt_of_le_of_lt he (by decide))
  by_cases hc : c.toNat ≤ 0x7f
  · rw [utf8EncodeChar_of_ascii hc, List.mem_singleton, ← UInt8.toNat_inj, hByte c hc, hByte d hd,
      Char.toNat_inj]
    exact eq_comm
  · constructor
    · intro hMem
      have hHigh := toNat_ge_of_mem_utf8EncodeChar (Nat.lt_of_not_le hc) hMem
      rw [hByte d hd] at hHigh
      omega
    · rintro rfl
      exact absurd hd hc

theorem newlineByte_mem_bytes_iff {t : Text} : 0x0a ∈ t.bytes ↔ '\n' ∈ t := by
  have hFeed (c : Char) : 0x0a ∈ String.utf8EncodeChar c ↔ c = '\n' :=
    ofNat_mem_utf8EncodeChar_iff (show '\n'.toNat ≤ 0x7f by decide)
  simp only [bytes, List.mem_flatMap, hFeed, exists_eq_right]

theorem mem_separatorBytes_iff {c : Char} {b : UInt8} (hb : b ∈ String.utf8EncodeChar c) :
    b ∈ separatorBytes ↔ isSeparator c = true := by
  -- an ASCII character is known from its byte
  have hEq (d : Char) (hd : d.toNat ≤ 0x7f) : b = UInt8.ofNat d.toNat ↔ c = d := by
    constructor
    · rintro rfl
      exact (ofNat_mem_utf8EncodeChar_iff hd).1 hb
    · rintro rfl
      rw [utf8EncodeChar_of_ascii hd] at hb
      exact List.mem_singleton.1 hb
  simp only [separatorBytes, List.mem_cons, List.not_mem_nil, or_false, isSeparator_iff]
  exact or_congr (hEq ' ' (by decide)) <| or_congr (hEq '\t' (by decide)) <|
    or_congr (hEq '\r' (by decide)) <| or_congr (hEq '\x0c' (by decide)) (hEq '\n' (by decide))

end RexxEditing.Text
