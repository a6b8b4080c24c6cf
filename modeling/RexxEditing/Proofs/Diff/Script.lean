import RexxEditing.Diff.Align

/-! # Scripts between two lists

A script leads from a place in the old list and a place in the new list to two later places. A kept
run is not empty, is the same in both lists and names both places. A deletion names its place in the
old list, and an insertion names its place in the new list. The other place that a change names is
free: a change that is moved past another one keeps it as it was.

* `take_commonPrefix`, `drop_commonSuffix`: what two lists have in common at their ends.
* `Script.append_iff`: scripts are put together and taken apart at any operation.
* `align_script`: aligning two lists gives a script from their starts to their ends.
-/

namespace RexxEditing.Diff

variable {α : Type}

/-! ## Runs -/

theorem run_add (xs : List α) (i m n : Nat) :
    run xs i (m + n) = run xs i m ++ run xs (i + m) n := by
  rw [run, run, run, List.take_add, List.drop_drop]

theorem length_run {xs : List α} {i n : Nat} (h : i + n ≤ xs.length) : (run xs i n).length = n := by
  rw [run, List.length_take, List.length_drop]
  omega

theorem take_run (xs : List α) (i : Nat) {k n : Nat} (h : k ≤ n) :
    (run xs i n).take k = run xs i k := by
  rw [run, run, List.take_take, Nat.min_eq_left h]

theorem drop_run (xs : List α) (i k n : Nat) : (run xs i n).drop k = run xs (i + k) (n - k) := by
  rw [run, run, List.drop_take, List.drop_drop]

theorem take_eq_append_run (xs : List α) {i k : Nat} (h : i ≤ k) :
    xs.take k = xs.take i ++ run xs i (k - i) := by
  rw [run, ← List.take_add, Nat.add_sub_cancel' h]

theorem drop_eq_run_append (xs : List α) (i n : Nat) :
    xs.drop i = run xs i n ++ xs.drop (i + n) := by
  rw [run, ← List.drop_drop, List.take_append_drop]

/-- Whether `part` is what stands at element `i` of the list. -/
def StandsAt (xs : List α) (i : Nat) (part : List α) : Prop := run xs i part.length = part

namespace StandsAt

variable {xs part : List α} {i : Nat}

theorem self (xs : List α) : StandsAt xs 0 xs := List.take_length

theorem run_eq (h : StandsAt xs i part) {k n : Nat} (hkn : k + n ≤ part.length) :
    Diff.run xs (i + k) n = Diff.run part k n := by
  have hDrop := congrArg (List.drop k) h
  rw [drop_run] at hDrop
  rw [Diff.run.eq_def part, ← hDrop, take_run xs (i + k) (by omega)]

theorem run (h : StandsAt xs i part) {k n : Nat} (hkn : k + n ≤ part.length) :
    StandsAt xs (i + k) (Diff.run part k n) := by
  rw [StandsAt, length_run hkn, h.run_eq hkn]

theorem take (h : StandsAt xs i part) {n : Nat} (hn : n ≤ part.length) :
    StandsAt xs i (part.take n) := by
  have hRun : 0 + n ≤ part.length := by omega
  exact h.run hRun

theorem drop (h : StandsAt xs i part) {k : Nat} (hk : k ≤ part.length) :
    StandsAt xs (i + k) (part.drop k) := by
  have hRun : k + (part.length - k) ≤ part.length := by omega
  have hAll : Diff.run part k (part.length - k) = part.drop k := by
    rw [Diff.run, ← List.length_drop, List.take_length]
  rw [← hAll]
  exact h.run hRun

end StandsAt

/-! ## Common ends -/

section Common

variable [DecidableEq α]

theorem take_commonPrefix (as bs : List α) :
    as.take (commonPrefix as bs) = bs.take (commonPrefix as bs) := by
  fun_induction commonPrefix as bs with
  | case1 a as bs ih => simp [ih]
  | case2 => rfl
  | case3 => rfl

theorem commonSuffix_le_left (as bs : List α) : commonSuffix as bs ≤ as.length := by
  have h := commonPrefix_le_left as.reverse bs.reverse
  rwa [List.length_reverse] at h

theorem commonSuffix_le_right (as bs : List α) : commonSuffix as bs ≤ bs.length := by
  have h := commonPrefix_le_right as.reverse bs.reverse
  rwa [List.length_reverse] at h

theorem drop_commonSuffix (as bs : List α) :
    as.drop (as.length - commonSuffix as bs) = bs.drop (bs.length - commonSuffix as bs) := by
  have h := take_commonPrefix as.reverse bs.reverse
  rw [List.take_reverse, List.take_reverse, List.reverse_inj] at h
  exact h

end Common

/-! ## Scripts -/

/-- `Script old new i j ops i' j'`: the operations lead from element `i` of the old list and element
`j` of the new list to elements `i'` and `j'`. -/
inductive Script (old new : List α) : Nat → Nat → List Op → Nat → Nat → Prop
  | nil (i j : Nat) : Script old new i j [] i j
  | keep {i j n i' j' : Nat} {ops : List Op} : n ≠ 0 → run old i n = run new j n →
      Script old new (i + n) (j + n) ops i' j' → Script old new i j (Op.keep i j n :: ops) i' j'
  | delete {i j n i' j' : Nat} {ops : List Op} (place : Nat) :
      Script old new (i + n) j ops i' j' → Script old new i j (Op.delete i n place :: ops) i' j'
  | insert {i j n i' j' : Nat} {ops : List Op} (place : Nat) :
      Script old new i (j + n) ops i' j' → Script old new i j (Op.insert place j n :: ops) i' j'

namespace Script

variable {old new : List α} {i j i' j' i'' j'' : Nat} {xs ys : List Op}

theorem le (h : Script old new i j xs i' j') : i ≤ i' ∧ j ≤ j' := by
  induction h with
  | nil i j => exact ⟨Nat.le_refl i, Nat.le_refl j⟩
  | keep _ _ _ ih => omega
  | delete _ _ ih => omega
  | insert _ _ ih => omega

theorem append (h : Script old new i j xs i' j') (h' : Script old new i' j' ys i'' j'') :
    Script old new i j (xs ++ ys) i'' j'' := by
  induction h with
  | nil => exact h'
  | keep hPos hRun _ ih => exact .keep hPos hRun (ih h')
  | delete place _ ih => exact .delete place (ih h')
  | insert place _ ih => exact .insert place (ih h')

theorem append_iff : Script old new i j (xs ++ ys) i'' j'' ↔
    ∃ i' j', Script old new i j xs i' j' ∧ Script old new i' j' ys i'' j'' := by
  constructor
  · intro h
    induction xs generalizing i j with
    | nil => exact ⟨i, j, .nil i j, h⟩
    | cons op ops ih =>
      cases h with
      | keep hPos hRun hRest =>
        obtain ⟨i', j', hLeft, hRight⟩ := ih hRest
        exact ⟨i', j', .keep hPos hRun hLeft, hRight⟩
      | delete place hRest =>
        obtain ⟨i', j', hLeft, hRight⟩ := ih hRest
        exact ⟨i', j', .delete place hLeft, hRight⟩
      | insert place hRest =>
        obtain ⟨i', j', hLeft, hRight⟩ := ih hRest
        exact ⟨i', j', .insert place hLeft, hRight⟩
  · rintro ⟨i', j', hLeft, hRight⟩
    exact hLeft.append hRight

theorem keepRun {n : Nat} (h : run old i n = run new j n) :
    Script old new i j (Diff.keepRun i j n) (i + n) (j + n) := by
  unfold Diff.keepRun
  split
  · rename_i hn
    subst hn
    exact .nil i j
  · rename_i hn
    exact .keep hn h (.nil _ _)

/-- Everything is deleted, and everything else is inserted. -/
theorem replace (m n : Nat) :
    Script old new i j [Op.delete i m j, Op.insert (i + m) j n] (i + m) (j + n) :=
  .delete j (.insert (i + m) (.nil _ _))

end Script

/-! ## Aligned lists -/

/-- **Alignment.** Aligning two parts of lists gives a script that leads from their starts to their
ends. -/
theorem align_script [DecidableEq α] {old new : List α} {a c : Nat} {xs ys : List α}
    (hOld : StandsAt old a xs) (hNew : StandsAt new c ys) :
    Script old new a c (align a c xs ys) (a + xs.length) (c + ys.length) := by
  fun_induction align a c xs ys with
  | case1 a c xs ys p s o n a' c' changed ihAbove ihBelow =>
    have hpLeft : p ≤ xs.length := commonPrefix_le_left xs ys
    have hpRight : p ≤ ys.length := commonPrefix_le_right xs ys
    have hsLeft : s ≤ xs.length - p := by
      have := commonSuffix_le_left (xs.drop p) (ys.drop p)
      rwa [List.length_drop] at this
    have hsRight : s ≤ ys.length - p := by
      have := commonSuffix_le_right (xs.drop p) (ys.drop p)
      rwa [List.length_drop] at this
    have hoLength : o.length = xs.length - p - s := length_run (by omega)
    have hnLength : n.length = ys.length - p - s := length_run (by omega)
    have ho : StandsAt old a' o := hOld.run (by omega)
    have hn : StandsAt new c' n := hNew.run (by omega)
    have hStart : Script old new a c (keepRun a c p) a' c' := by
      apply Script.keepRun
      have hxs : run old (a + 0) p = run xs 0 p := hOld.run_eq (by omega)
      have hys : run new (c + 0) p = run ys 0 p := hNew.run_eq (by omega)
      rw [Nat.add_zero] at hxs hys
      rw [hxs, hys]
      exact take_commonPrefix xs ys
    have hStop : Script old new (a' + o.length) (c' + n.length)
        (keepRun (a' + o.length) (c' + n.length) s) (a' + o.length + s) (c' + n.length + s) := by
      apply Script.keepRun
      have hTail := drop_commonSuffix (xs.drop p) (ys.drop p)
      rw [List.drop_drop, List.drop_drop, List.length_drop, List.length_drop, ← hoLength,
        ← hnLength] at hTail
      have hxs : run old (a + (p + o.length)) s = run xs (p + o.length) s := hOld.run_eq (by omega)
      have hys : run new (c + (p + n.length)) s = run ys (p + n.length) s := hNew.run_eq (by omega)
      rw [← Nat.add_assoc] at hxs hys
      rw [hxs, hys, run, run, hTail]
    -- what is divided at an inner point is aligned on both sides of it
    have hHalves (x y : Nat) (h : IsInside o n (x, y)) : Script old new a' c'
        (align a' c' (o.take x) (n.take y) ++ align (a' + x) (c' + y) (o.drop x) (n.drop y))
        (a' + o.length) (c' + n.length) := by
      have hx : x ≤ o.length := h.1
      have hy : y ≤ n.length := h.2.1
      have hAbove := ihAbove x y h (ho.take hx) (hn.take hy)
      have hBelow := ihBelow x y h (ho.drop hx) (hn.drop hy)
      clear_value a' c' o n
      rw [List.length_take, List.length_take, Nat.min_eq_left hx, Nat.min_eq_left hy] at hAbove
      rw [List.length_drop, List.length_drop, Nat.add_assoc, Nat.add_assoc,
        Nat.add_sub_cancel' hx, Nat.add_sub_cancel' hy] at hBelow
      exact hAbove.append hBelow
    have hChanged : Script old new a' c' changed (a' + o.length) (c' + n.length) := by
      simp only [changed]
      clear_value a' c' o n
      split
      · exact .nil a' c'
      · exact .delete c' (.nil _ _)
      · exact .insert a' (.nil _ _)
      · split
        · exact .replace o.length n.length
        · split
          · exact hHalves _ _ ‹_›
          · exact .replace o.length n.length
    have hLast : a' + o.length + s = a + xs.length ∧ c' + n.length + s = c + ys.length := by
      omega
    rw [← hLast.1, ← hLast.2]
    exact (hStart.append hChanged).append hStop

end RexxEditing.Diff
