import RexxEditing.Proofs.Settings.Precedence

/-! # A setting on top of all files

A setting is made after all files were read. What the files hold does not matter then: the field is
there, even if a file has put something else in the place of its section.

* `decodeSection_put`: a field that was put into its section is read from there.
* `offset_of_load`: a setting of the offset wins over every file.
-/

namespace RexxEditing.Settings

/-! ## Entries of tables -/

theorem Value.lookup?_putEntry (entries : List (String × Value)) (key : String) (v : Value) :
    lookup? (putEntry entries key v) key = some v := by
  induction entries with
  | nil => simp [putEntry, lookup?]
  | cons entry rest ih =>
    obtain ⟨k, old⟩ := entry
    rw [putEntry]
    split
    · rename_i hk
      simp [lookup?, hk]
    · rename_i hk
      rw [lookup?, List.find?_cons_of_neg (by simpa using hk)]
      exact ih

theorem Value.exists_put_eq (root : Value) (key : String) (v : Value) :
    ∃ origin entries, root.put key v = .mk origin (.table entries) ∧
      lookup? entries key = some v := by
  obtain ⟨origin, data⟩ := root
  cases data with
  | table entries => exact ⟨origin, putEntry entries key v, rfl, lookup?_putEntry entries key v⟩
  | _ => exact ⟨none, putEntry [] key v, rfl, lookup?_putEntry [] key v⟩

/-! ## Fields of sections -/

theorem decodeSection_put {α : Type} (read : Decoder α) (s : Section) (root inner v : Value) :
    decodeSection read s (root.put s.key (inner.put s.field v)) =
      read [.key s.key, .key s.field] v := by
  obtain ⟨_, entries, hRoot, hSection⟩ := root.exists_put_eq s.key (inner.put s.field v)
  obtain ⟨_, fields, hInner, hField⟩ := inner.exists_put_eq s.field v
  have hGet : (root.put s.key (inner.put s.field v)).get? s.key = some (inner.put s.field v) := by
    rw [hRoot]
    exact hSection
  rw [decodeSection, hGet, Option.getD_some, hInner]
  simp only [Value.data, hField]

/-- **A setting of the offset** wins over every file. -/
theorem offset_of_load {disk : Files.Disk} {layers : List Layer} {n : Integer} {c : Config}
    (h : load disk layers ([Override.offset n].map Override.entry) = .ok c) :
    (0 ≤ n.value ∧ n.value < offsetLimit) ∧ c.offset = n.value.toNat := by
  rw [load, Override.parseKeys_map] at h
  change (addLayers disk (.ofConfig .default) layers >>= _) = _ at h
  cases hRoot : addLayers disk (.ofConfig .default) layers with
  | error e =>
    rw [hRoot] at h
    cases h
  | ok root =>
    have hSet : setAll? root (lastOfEach [(Override.offset n).step]) =
        some (root.put Section.indentation.key
          (((root.get? Section.indentation.key).getD .unit).put Section.indentation.field
            (.ofData (.integer n)))) := by
      show (KeyPath.set? (Override.offset n).step.1 (Override.offset n).step.2 root).bind some = _
      rw [Override.set?_step]
      rfl
    rw [hRoot] at h
    change (orIndex (setAll? root (lastOfEach [(Override.offset n).step])) >>= decode) = _ at h
    rw [hSet] at h
    obtain ⟨hOffset, -, -⟩ := decode_eq_ok_iff.1 h
    rw [decodeSection_put] at hOffset
    exact decodeOffset_integer.1 hOffset

end RexxEditing.Settings
