import RexxEditing.Diff.Op

/-! # Sliding changes

Where equal elements stand next to a change, the change may as well be made a little earlier or
later. Every deletion, then every insertion, is moved up as far as it goes and then down as far as
it goes. On its way it takes up changes of its own kind, and changes places with those of the other
kind, which keep the indices that they had.

Only an insertion moves past kept elements: the kept elements are compared with the new elements of
the change, and a deletion has none.
-/

namespace RexxEditing.Diff

/-- A script with a change in focus. -/
structure Focus where
  /-- The operations before the change, nearest first. -/
  before : List Op
  op : Op
  /-- The operations after the change. -/
  after : List Op
  deriving DecidableEq, Repr

namespace Op

/-- The kept run without its last `k` elements. -/
def dropEnd (q : Op) (k : Nat) : Op :=
  { q with oldLength := q.oldLength - k, newLength := q.newLength - k }

/-- The kept run without its first `k` elements. -/
def dropStart (q : Op) (k : Nat) : Op :=
  { q with
    old := q.old + k, new := q.new + k, oldLength := q.oldLength - k, newLength := q.newLength - k }

/-- The kept run with the `k` elements before it. -/
def growStart (q : Op) (k : Nat) : Op :=
  { q with
    old := q.old - k, new := q.new - k, oldLength := q.oldLength + k, newLength := q.newLength + k }

/-- The kept run with the `k` elements after it. -/
def growEnd (q : Op) (k : Nat) : Op :=
  { q with oldLength := q.oldLength + k, newLength := q.newLength + k }

/-- The change `k` elements earlier. -/
def moveUp (t : Op) (k : Nat) : Op := { t with old := t.old - k, new := t.new - k }

/-- The change `k` elements later. -/
def moveDown (t : Op) (k : Nat) : Op := { t with old := t.old + k, new := t.new + k }

/-- Two changes of one kind as one, at the place of the first. -/
def merge (q t : Op) : Op :=
  { q with oldLength := q.oldLength + t.oldLength, newLength := q.newLength + t.newLength }

/-- The number of steps that a change can take through the operation. -/
def weight (q : Op) : Nat := q.oldLength + 1

/-- The number of steps that a change can take through the operations. -/
def weights (ops : List Op) : Nat := total weight ops

end Op

variable {α : Type} [DecidableEq α]

/-- The kept run `q` before the change gives up its last `k` elements, and `q` itself if it has no
more. -/
def shrinkBefore (q : Op) (k : Nat) (before : List Op) : List Op :=
  if (q.dropEnd k).oldLength = 0 then before else q.dropEnd k :: before

/-- The kept run `q` after the change gives up its first `k` elements, and `q` itself if it has no
more. -/
def shrinkAfter (q : Op) (k : Nat) (after : List Op) : List Op :=
  if (q.dropStart k).oldLength = 0 then after else q.dropStart k :: after

/-- The last `k` elements of the kept run `q` stand after the change `t`. -/
def keepAfter (q t : Op) (k : Nat) : List Op → List Op
  | [] => [Op.keep (q.old + q.oldLength - k) (t.new + t.newLength - k) k]
  | r :: after =>
    if r.tag = .keep then r.growStart k :: after
    else Op.keep (q.old + q.oldLength - k) (t.new + t.newLength - k) k :: r :: after

/-- The first `k` elements of the kept run `q` stand before the change `t`. -/
def keepBefore (q t : Op) (k : Nat) : List Op → List Op
  | [] => [Op.keep q.old t.new k]
  | r :: before =>
    if r.tag = .keep then r.growEnd k :: before
    else Op.keep q.old t.new k :: r :: before

theorem weights_shrinkBefore_lt (q : Op) (k : Nat) (before : List Op) (hk : 0 < k)
    (hq : k ≤ q.oldLength) : Op.weights (shrinkBefore q k before) < Op.weights (q :: before) := by
  unfold shrinkBefore
  split <;> simp only [Op.weights, Op.weight, Op.dropEnd, Op.total] <;> omega

theorem weights_shrinkAfter_lt (q : Op) (k : Nat) (after : List Op) (hk : 0 < k)
    (hq : k ≤ q.oldLength) : Op.weights (shrinkAfter q k after) < Op.weights (q :: after) := by
  unfold shrinkAfter
  split <;> simp only [Op.weights, Op.weight, Op.dropStart, Op.total] <;> omega

theorem weights_lt_cons (q : Op) (ops : List Op) : Op.weights ops < Op.weights (q :: ops) := by
  simp only [Op.weights, Op.weight, Op.total]
  omega

/-- How many elements at the end of the kept run `q` are at the end of the change `t`, too. -/
def slackUp (old new : List α) (q t : Op) : Nat :=
  commonSuffix (run old q.old q.oldLength) (run new t.new t.newLength)

/-- How many elements at the start of the kept run `q` are at the start of the change `t`, too. -/
def slackDown (old new : List α) (q t : Op) : Nat :=
  commonPrefix (run old q.old q.oldLength) (run new t.new t.newLength)

theorem slackUp_le (old new : List α) (q t : Op) : slackUp old new q t ≤ q.oldLength := by
  refine Nat.le_trans (commonPrefix_le_left _ _) ?_
  rw [List.length_reverse, run]
  exact List.length_take_le _ _

theorem slackDown_le (old new : List α) (q t : Op) : slackDown old new q t ≤ q.oldLength := by
  refine Nat.le_trans (commonPrefix_le_left _ _) ?_
  rw [run]
  exact List.length_take_le _ _

/-- Moves the change in focus up as far as it goes. -/
def slideUp (old new : List α) (before : List Op) (t : Op) (after : List Op) : Focus :=
  match before with
  | [] => ⟨[], t, after⟩
  | q :: rest =>
    if q.tag = .keep then
      let k := slackUp old new q t
      if _h : k = 0 then ⟨q :: rest, t, after⟩
      else slideUp old new (shrinkBefore q k rest) (t.moveUp k) (keepAfter q t k after)
    else if q.tag = t.tag then slideUp old new rest (q.merge t) after
    else slideUp old new rest t (q :: after)
termination_by Op.weights before
decreasing_by
  · exact weights_shrinkBefore_lt q _ rest (Nat.pos_of_ne_zero _h) (slackUp_le old new q t)
  · exact weights_lt_cons q rest
  · exact weights_lt_cons q rest

/-- Moves the change in focus down as far as it goes. -/
def slideDown (old new : List α) (before : List Op) (t : Op) (after : List Op) : Focus :=
  match after with
  | [] => ⟨before, t, []⟩
  | q :: rest =>
    if q.tag = .keep then
      let k := slackDown old new q t
      if _h : k = 0 then ⟨before, t, q :: rest⟩
      else slideDown old new (keepBefore q t k before) (t.moveDown k) (shrinkAfter q k rest)
    else if q.tag = t.tag then slideDown old new before (t.merge q) rest
    else slideDown old new (q :: before) t rest
termination_by Op.weights after
decreasing_by
  · exact weights_shrinkAfter_lt q _ rest (Nat.pos_of_ne_zero _h) (slackDown_le old new q t)
  · exact weights_lt_cons q rest
  · exact weights_lt_cons q rest

/-- Slides every change of one kind, going down from the operations `before`. A change ends up no
higher than it was, so as many steps as the operations have elements are enough. -/
def slideFrom (old new : List α) (tag : Tag) : Nat → List Op → List Op → List Op
  | _, before, [] => before.reverse
  | 0, before, after => before.reverse ++ after
  | steps + 1, before, t :: after =>
    if t.tag = tag then
      let up := slideUp old new before t after
      let down := slideDown old new up.before up.op up.after
      slideFrom old new tag steps (down.op :: down.before) down.after
    else slideFrom old new tag steps (t :: before) after

/-- Slides the deletions of a script, then its insertions. -/
def slide (old new : List α) (ops : List Op) : List Op :=
  let steps := 2 * (old.length + new.length) + 2
  slideFrom old new .insert steps [] (slideFrom old new .delete steps [] ops)

end RexxEditing.Diff
