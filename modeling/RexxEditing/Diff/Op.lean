/-! # Edit scripts

A script turns one list into another. It keeps, deletes and inserts runs of elements. Every
operation names the run of the old list and the run of the new list that it is about.

* `commonPrefix_le_left`, `commonPrefix_le_right`: a common start is no longer than either list.
-/

namespace RexxEditing.Diff

/-- What an operation does. -/
inductive Tag where
  | keep
  | delete
  | insert
  deriving DecidableEq, Repr

/-- An operation on `oldLength` elements from `old` on and `newLength` elements from `new` on. A
deletion has no new elements and an insertion no old ones. -/
structure Op where
  tag : Tag
  old : Nat
  oldLength : Nat
  new : Nat
  newLength : Nat
  deriving DecidableEq, Repr

namespace Op

/-- Keeps `length` elements. -/
def keep (old new length : Nat) : Op := ⟨.keep, old, length, new, length⟩

/-- Deletes `length` old elements. -/
def delete (old length new : Nat) : Op := ⟨.delete, old, length, new, 0⟩

/-- Inserts `length` new elements. -/
def insert (old new length : Nat) : Op := ⟨.insert, old, 0, new, length⟩

/-- What the operations have together when each has `size` of it. -/
def total (size : Op → Nat) : List Op → Nat
  | [] => 0
  | op :: ops => size op + total size ops

end Op

variable {α : Type} [DecidableEq α]

/-- The length of the common start of two lists. -/
def commonPrefix : List α → List α → Nat
  | a :: as, b :: bs => if a = b then commonPrefix as bs + 1 else 0
  | _, _ => 0

/-- The length of the common end of two lists. -/
def commonSuffix (as bs : List α) : Nat := commonPrefix as.reverse bs.reverse

theorem commonPrefix_le_left (as bs : List α) : commonPrefix as bs ≤ as.length := by
  fun_induction commonPrefix as bs with
  | case1 a as b ih => simp only [List.length_cons]; omega
  | case2 => exact Nat.zero_le _
  | case3 => exact Nat.zero_le _

theorem commonPrefix_le_right (as bs : List α) : commonPrefix as bs ≤ bs.length := by
  fun_induction commonPrefix as bs with
  | case1 a as b ih => simp only [List.length_cons]; omega
  | case2 => exact Nat.zero_le _
  | case3 => exact Nat.zero_le _

/-- The `length` elements from `start` on. -/
def run (xs : List α) (start length : Nat) : List α := (xs.drop start).take length

end RexxEditing.Diff
