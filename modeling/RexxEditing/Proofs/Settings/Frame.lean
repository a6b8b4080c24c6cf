import RexxEditing.Proofs.Files.Write
import RexxEditing.Settings.Load

/-! # What loading depends on

A configuration is made of the files at the first places where they are looked for, and of nothing
else on the disk. So it stays the same when another file is rewritten.

* `load_congr`: disks on which the same files are found give the same configuration.
* `Layer.find?_rewritten`: a file is found where it was, if another one was rewritten.
-/

namespace RexxEditing.Settings

open Files (Disk Tree Content)

section Congr

variable {disk disk' : Disk} (hHere : disk'.here = disk.here)
include hHere

theorem Layer.entries_congr {l : Layer} (h : l.find? disk' = l.find? disk) :
    l.entries disk' = l.entries disk := by
  simp only [Layer.entries, Layer.read, h, Disk.relative, hHere]

theorem addLayers_congr {layers : List Layer} (h : ∀ l ∈ layers, l.find? disk' = l.find? disk)
    (root : Value) : addLayers disk' root layers = addLayers disk root layers := by
  induction layers generalizing root with
  | nil => rfl
  | cons l rest ih =>
    obtain ⟨hFirst, hRest⟩ := List.forall_mem_cons.1 h
    simp only [addLayers, Layer.entries_congr hHere hFirst, ih hRest]

theorem load_congr {layers : List Layer} (h : ∀ l ∈ layers, l.find? disk' = l.find? disk)
    (overrides : List (String × Value)) :
    load disk' layers overrides = load disk layers overrides := by
  simp only [load, addLayers_congr hHere h]

end Congr

/-! ## After a write -/

/-- The file at a path, with the path. -/
def fileAt? (disk : Disk) (path : String) : Option (String × Content) :=
  (disk.file? path).map fun content => (path, content)

section Rewritten

variable {t t' : Tree} {path : String} {text : Text} {content : Content}
  (h : t.Rewritten path text t') (hRead : t.disk path = .ok content)
include h hRead

theorem findSome?_fileAt?_rewritten {candidates : List String}
    (hOther : ∀ found, candidates.findSome? (fileAt? t.disk) = some found →
      t.resolve found.1 ≠ t.resolve path) :
    candidates.findSome? (fileAt? t'.disk) = candidates.findSome? (fileAt? t.disk) := by
  induction candidates with
  | nil => rfl
  | cons c rest ih =>
    rw [List.findSome?_cons] at hOther
    rw [List.findSome?_cons, List.findSome?_cons]
    by_cases hSame : t.resolve c = t.resolve path
    · -- the changed file itself is not the one that is found
      have hFile : fileAt? t.disk c = some (c, content) := by
        rw [fileAt?, Disk.file?, Tree.disk_of_resolve_eq hSame, hRead]
        rfl
      rw [hFile] at hOther
      exact absurd hSame (hOther (c, content) rfl)
    · have hDisk : fileAt? t'.disk c = fileAt? t.disk c := by
        rw [fileAt?, fileAt?, Disk.file?, Disk.file?, h.disk_other c hSame]
      rw [hDisk]
      cases hFile : fileAt? t.disk c with
      | some found => rfl
      | none =>
        rw [hFile] at hOther
        exact ih hOther

/-- **A layer** is found where it was, with the same content, if another file was rewritten. -/
theorem Layer.find?_rewritten {l : Layer}
    (hOther : ∀ found, l.find? t.disk = some found → t.resolve found.1 ≠ t.resolve path) :
    l.find? t'.disk = l.find? t.disk :=
  findSome?_fileAt?_rewritten h hRead hOther

end Rewritten

end RexxEditing.Settings
