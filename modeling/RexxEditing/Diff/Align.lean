import RexxEditing.Diff.Middle

/-! # Shortest scripts

The common start and the common end of two lists are kept. What is left between them is divided at
the middle of a shortest path, and each half is aligned in the same way.
-/

namespace RexxEditing.Diff

variable {α : Type} [DecidableEq α]

/-- A keeping operation, unless it keeps nothing. -/
def keepRun (old new length : Nat) : List Op :=
  if length = 0 then [] else [Op.keep old new length]

/-- A point that divides both lists into smaller parts. -/
def IsInside (old new : List α) (p : Nat × Nat) : Prop :=
  p.1 ≤ old.length ∧ p.2 ≤ new.length ∧ 0 < p.1 + p.2 ∧ p.1 + p.2 < old.length + new.length

instance (old new : List α) (p : Nat × Nat) : Decidable (IsInside old new p) :=
  inferInstanceAs (Decidable (_ ∧ _ ∧ _ ∧ _))

/-- A script from `old` to `new`, which stand at `a` and `c` of longer lists. -/
def align (a c : Nat) (old new : List α) : List Op :=
  let p := commonPrefix old new
  let s := commonSuffix (old.drop p) (new.drop p)
  let o := (old.drop p).take (old.length - p - s)
  let n := (new.drop p).take (new.length - p - s)
  let a' := a + p
  let c' := c + p
  let changed :=
    match o, n with
    | [], [] => []
    | _, [] => [Op.delete a' o.length c']
    | [], _ => [Op.insert a' c' n.length]
    | _, _ =>
      match middle? o n with
      | none => [Op.delete a' o.length c', Op.insert (a' + o.length) c' n.length]
      | some (x, y) =>
        if IsInside o n (x, y) then
          align a' c' (o.take x) (n.take y) ++ align (a' + x) (c' + y) (o.drop x) (n.drop y)
        else [Op.delete a' o.length c', Op.insert (a' + o.length) c' n.length]
  keepRun a c p ++ changed ++ keepRun (a' + o.length) (c' + n.length) s
termination_by old.length + new.length
decreasing_by
  all_goals
    rename_i h
    obtain ⟨hx, hy, hpos, hlt⟩ := h
    have ho : o.length ≤ old.length := by
      simp only [o, List.length_take, List.length_drop]; omega
    have hn : n.length ≤ new.length := by
      simp only [n, List.length_take, List.length_drop]; omega
    simp only [List.length_take, List.length_drop]
    omega

end RexxEditing.Diff
