import RexxEditing.Files.Tree

/-! # What a write changes

A text that is written to a file stands in the place of another text. So every path leads where it
led before, and only the paths to that file read something else.

* `get?_write`: what is at all names after a write.
* `follow_write`, `resolve_write`: a write to a file leads no path elsewhere.
* `rewritten_write`: what is read at every path after a write.
-/

namespace RexxEditing.Files.Tree

variable {t : Tree} {path : String} {names : List String}

/-! ## What a path reads -/

theorem disk_eq_ok_iff {content : Content} :
    t.disk path = .ok content ↔
      ∃ names, t.resolve path = .ok names ∧ t.get? names = some (.file content) := by
  show t.read path = .ok content ↔ _
  rw [read]
  cases hPath : t.resolve path with
  | error e =>
    constructor
    · intro h
      cases h
    · rintro ⟨_, h, -⟩
      cases h
  | ok names =>
    simp only [bind, Except.bind, Except.ok.injEq, exists_eq_left']
    constructor
    · intro h
      split at h
      · rename_i hGet
        cases h
        exact hGet
      · cases h
      · cases h
    · intro h
      rw [h]
      rfl

theorem disk_congr {t' : Tree} {other : String} (hPath : t'.resolve other = t.resolve path)
    (hGet : ∀ names, t.resolve path = .ok names → t'.get? names = t.get? names) :
    t'.disk other = t.disk path := by
  show t'.read other = t.read path
  rw [read, read, hPath]
  cases hNames : t.resolve path with
  | error e => rfl
  | ok names => simp only [bind, Except.bind, hGet names hNames]

theorem disk_of_resolve_eq {other : String} (h : t.resolve other = t.resolve path) :
    t.disk other = t.disk path :=
  disk_congr h fun _ _ => rfl

/-! ## After a write -/

theorem fst_overwrite (names : List String) (text : Text) (row : List String × Entry) :
    (overwrite names text row).1 = row.1 := by
  rw [overwrite]
  split <;> rfl

section Write

variable {content : Content} (text : Text) (hPath : t.resolve path = .ok names)
include hPath

theorem here_write : (t.write path text).here = t.here := by
  rw [write, hPath]

theorem names_write : (t.write path text).entries.map Prod.fst = t.entries.map Prod.fst := by
  rw [write, hPath, List.map_map]
  exact List.map_congr_left fun row _ => fst_overwrite names text row

theorem isPassed_write (others : List String) :
    (t.write path text).isPassed others = t.isPassed others := by
  have hPassed (t : Tree) : t.isPassed others =
      (others.isPrefixOf t.here || (t.entries.map Prod.fst).any others.isPrefixOf) := by
    rw [isPassed, List.any_map]
    rfl
  rw [hPassed, hPassed, here_write text hPath, names_write text hPath]

theorem find?_write (others : List String) :
    (t.write path text).entries.find? (·.1 == others) =
      (t.entries.find? (·.1 == others)).map (overwrite names text) := by
  rw [write, hPath, List.find?_map]
  simp only [Function.comp_def, fst_overwrite]

theorem get?_write_of_ne {others : List String} (hne : others ≠ names) :
    (t.write path text).get? others = t.get? others := by
  rw [get?, get?, find?_write text hPath, isPassed_write text hPath]
  cases hFind : t.entries.find? (·.1 == others) with
  | none => rfl
  | some row =>
    have hName : row.1 = others := by simpa using List.find?_some hFind
    simp [overwrite, hName, hne]

variable (hFile : t.get? names = some (.file content))
include hFile

theorem get?_write_self : (t.write path text).get? names = some (.file (.text text)) := by
  rw [get?] at hFile
  rw [get?, find?_write text hPath]
  cases hFind : t.entries.find? (·.1 == names) with
  | none =>
    -- what only stands in front of other names is a directory
    rw [hFind] at hFile
    dsimp only at hFile
    split at hFile <;> cases hFile
  | some row =>
    have hName : row.1 = names := by simpa using List.find?_some hFind
    simp [overwrite, hName]

theorem get?_write (others : List String) :
    (t.write path text).get? others =
      if others = names then some (.file (.text text)) else t.get? others := by
  by_cases hSame : others = names
  · rw [if_pos hSame, hSame, get?_write_self text hPath hFile]
  · rw [if_neg hSame, get?_write_of_ne text hPath hSame]

/-- A write to a file leads no path elsewhere. -/
theorem follow_write (others route : List String) :
    (t.write path text).follow others route = t.follow others route := by
  induction route generalizing others with
  | nil => rfl
  | cons part rest ih =>
    rw [follow, follow, get?_write text hPath hFile]
    by_cases hSame : others = names
    · -- neither the old nor the new file leads further
      rw [if_pos hSame, hSame, hFile]
    · simp only [if_neg hSame, ih]

theorem resolve_write (other : String) : (t.write path text).resolve other = t.resolve other := by
  simp only [resolve, start, here_write text hPath, follow_write text hPath hFile]

end Write

/-- Whether `t'` is `t` with the file at a path changed to a text, and nothing else: the working
directory is the same, no name is new or gone, what is at all other names is as it was, every path
leads where it led, and only the paths that lead to the file read something else. -/
structure Rewritten (t : Tree) (path : String) (text : Text) (t' : Tree) : Prop where
  here_eq : t'.here = t.here
  names_eq : t'.entries.map Prod.fst = t.entries.map Prod.fst
  get?_other : ∀ names, t.resolve path ≠ .ok names → t'.get? names = t.get? names
  resolve_eq : ∀ other, t'.resolve other = t.resolve other
  disk_same : ∀ other, t.resolve other = t.resolve path → t'.disk other = .ok (.text text)
  disk_other : ∀ other, t.resolve other ≠ t.resolve path → t'.disk other = t.disk other

/-- **A write changes one file.** -/
theorem rewritten_write {content : Content} (h : t.disk path = .ok content) (text : Text) :
    t.Rewritten path text (t.write path text) := by
  obtain ⟨names, hPath, hFile⟩ := disk_eq_ok_iff.1 h
  have hResolve := resolve_write text hPath hFile
  have hOther (others : List String) (hne : t.resolve path ≠ .ok others) :
      (t.write path text).get? others = t.get? others := by
    refine get?_write_of_ne text hPath ?_
    rintro rfl
    exact hne hPath
  refine ⟨here_write text hPath, names_write text hPath, hOther, hResolve, fun other hSame => ?_,
    fun other hne => ?_⟩
  · exact disk_eq_ok_iff.2
      ⟨names, by rw [hResolve, hSame, hPath], get?_write_self text hPath hFile⟩
  · refine disk_congr (hResolve other) fun others hOthers => hOther others fun hSame => hne ?_
    rw [hOthers, hSame]

end RexxEditing.Files.Tree
