import RexxEditing.Diff.Op

/-! # Meeting in the middle

A shortest script is a path through the grid of the two lists, with a step right for a deletion, a
step down for an insertion and a free diagonal step for two equal elements. The search goes from
both corners at once. After `d` rounds each side knows, for every diagonal, how far it comes with
`d` steps that are not free. The two sides meet at a point through which a shortest path goes.
-/

namespace RexxEditing.Diff

/-- How far the paths from one corner come on every diagonal. -/
structure Frontier where
  reach : Array Nat
  /-- The place of diagonal zero. -/
  middle : Nat

namespace Frontier

/-- The frontier before the first round, wide enough for `rounds` rounds. -/
def start (rounds : Nat) : Frontier := ⟨Array.replicate (2 * rounds + 3) 0, rounds + 1⟩

/-- How far the paths come on diagonal `k`. -/
def get (f : Frontier) (k : Int) : Nat := f.reach.getD (k + f.middle).toNat 0

/-- Notes how far the paths come on diagonal `k`. -/
def set (f : Frontier) (k : Int) (x : Nat) : Frontier :=
  { f with reach := f.reach.setIfInBounds (k + f.middle).toNat x }

end Frontier

variable {α : Type} [DecidableEq α]

/-- Where a path stands on its diagonal: the point before its free steps and the point after. -/
structure Reach where
  x₀ : Nat
  y₀ : Nat
  x : Nat
  y : Nat

/-- The furthest point on diagonal `k` after one more step, taken from the better of the two
diagonals next to it. -/
def extend (old new : List α) (f : Frontier) (d : Nat) (k : Int) : Reach :=
  let x₀ :=
    if k = -d ∨ (k ≠ d ∧ f.get (k - 1) < f.get (k + 1)) then f.get (k + 1) else f.get (k - 1) + 1
  let y₀ := ((x₀ : Int) - k).toNat
  let free := commonPrefix (old.drop x₀) (new.drop y₀)
  ⟨x₀, y₀, x₀ + free, y₀ + free⟩

/-- The diagonals of round `d`, from the last to the first. -/
def diagonals (d : Nat) : List Int := (List.range (d + 1)).map fun (i : Nat) => (d : Int) - 2 * i

/-- One round of one side. It ends early with the first path that passes `meets`. -/
def sweep (old new : List α) (d : Nat) (meets : Int → Reach → Bool) (f : Frontier) :
    List Int → Except Reach Frontier
  | [] => .ok f
  | k :: ks =>
    let r := extend old new f d k
    if meets k r then .error r else sweep old new d meets (f.set k r.x) ks

/-- The two sides of the search. The far side reads both lists from their ends. -/
structure Search (α : Type) where
  old : List α
  new : List α
  oldReversed : List α
  newReversed : List α

namespace Search

/-- The difference of the two lengths. -/
def delta (s : Search α) : Int := (s.old.length : Int) - s.new.length

/-- Whether the near side, on diagonal `k` in round `d`, meets the far side `back`. This happens in
its rounds if the difference of the lengths is odd. -/
def nearMeets (s : Search α) (d : Nat) (back : Frontier) (k : Int) (r : Reach) : Bool :=
  s.delta % 2 == 1 && (k - s.delta).natAbs + 1 ≤ d &&
    s.old.length ≤ r.x + back.get (-(k - s.delta))

/-- Whether the far side, on diagonal `k` in round `d`, meets the near side `forth`. -/
def farMeets (s : Search α) (d : Nat) (forth : Frontier) (k : Int) (r : Reach) : Bool :=
  s.delta % 2 == 0 && (k - s.delta).natAbs ≤ d &&
    s.old.length ≤ r.x + forth.get (-(k - s.delta))

/-- The point where the sides meet in round `d` or one of the `rounds` rounds after it. -/
def meet? (s : Search α) (forth back : Frontier) (d : Nat) : Nat → Option (Nat × Nat)
  | 0 => none
  | rounds + 1 =>
    match sweep s.old s.new d (s.nearMeets d back) forth (diagonals d) with
    | .error r => some (r.x₀, r.y₀)
    | .ok forth =>
      match sweep s.oldReversed s.newReversed d (s.farMeets d forth) back (diagonals d) with
      | .error r => some (s.old.length - r.x, s.new.length - r.y)
      | .ok back => s.meet? forth back (d + 1) rounds

end Search

/-- A point through which a shortest path goes. -/
def middle? (old new : List α) : Option (Nat × Nat) :=
  let rounds := (old.length + new.length + 1) / 2 + 1
  let s : Search α := ⟨old, new, old.reverse, new.reverse⟩
  s.meet? (.start rounds) (.start rounds) 0 rounds

end RexxEditing.Diff
