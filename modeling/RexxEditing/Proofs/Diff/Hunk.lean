import RexxEditing.Diff.Hunk
import RexxEditing.Proofs.Diff.Slide

/-! # What hunks say

The hunks of two lists name what is deleted and what is inserted, in order, and all else is kept.
What they do not always name is the place of an insertion. A hunk that only inserts stands where its
insertion stands, and the place of a change that has moved past others may be out of date.

* `hunks_patch`: the hunks of two lists lead from one to the other, up to the places of insertions.
* `InPlace`: the insertions stand where they belong.
* `hunks_tile`: hunks with their insertions in place divide both lists.
-/

namespace RexxEditing.Diff

variable {α : Type} {old new : List α} {i j i' j' : Nat} {ops : List Op} {hs : List Hunk}

/-! ## Runs of changes -/

/-- Without kept runs, a script goes as far as its deletions in the old list and as far as its
insertions in the new list. -/
theorem Script.total_eq (h : Script old new i j ops i' j') (hOps : ∀ op ∈ ops, op.tag ≠ .keep) :
    i + Op.total Op.oldLength (ops.filter (·.tag == .delete)) = i' ∧
      j + Op.total Op.newLength (ops.filter (·.tag == .insert)) = j' := by
  induction h with
  | nil i j => exact ⟨rfl, rfl⟩
  | keep => exact absurd rfl (hOps _ List.mem_cons_self)
  | @delete i j n _ _ ops place _ ih =>
    have hRest := ih (List.forall_mem_cons.1 hOps).2
    rw [Nat.add_assoc] at hRest
    exact hRest
  | @insert i j n _ _ ops place _ ih =>
    have hRest := ih (List.forall_mem_cons.1 hOps).2
    rw [Nat.add_assoc j] at hRest
    exact hRest

theorem Script.head_eq (h : Script old new i j ops i' j') (hOps : ∀ op ∈ ops, op.tag ≠ .keep) :
    (∀ op, (ops.filter (·.tag == .delete)).head? = some op → op.old = i) ∧
      ∀ op, (ops.filter (·.tag == .insert)).head? = some op → op.new = j := by
  induction h with
  | nil =>
    constructor <;> intro op hHead <;> cases hHead
  | keep => exact absurd rfl (hOps _ List.mem_cons_self)
  | delete place _ ih =>
    obtain ⟨-, hNew⟩ := ih (List.forall_mem_cons.1 hOps).2
    refine ⟨?_, hNew⟩
    intro op hHead
    cases hHead
    rfl
  | insert place _ ih =>
    obtain ⟨hOld, -⟩ := ih (List.forall_mem_cons.1 hOps).2
    refine ⟨hOld, ?_⟩
    intro op hHead
    cases hHead
    rfl

/-! ## Hunks in order -/

/-- `Patches old new i j hs`: with the elements between them, which are kept, the hunks lead from
element `i` of the old list and element `j` of the new list to the ends of both. A hunk after which
no new element follows has no old element after it, either. -/
inductive Patches (old new : List α) : Nat → Nat → List Hunk → Prop
  | done : Patches old new old.length new.length []
  | keep {i j n : Nat} {hs : List Hunk} : run old i n = run new j n →
      Patches old new (i + n) (j + n) hs → Patches old new i j hs
  | hunk {i j : Nat} {h : Hunk} {hs : List Hunk} : (h.oldLength ≠ 0 → h.old = i) →
      (h.newLength ≠ 0 → h.new = j) →
      (j + h.newLength = new.length → i + h.oldLength = old.length) →
      Patches old new (i + h.oldLength) (j + h.newLength) hs → Patches old new i j (h :: hs)

theorem Script.ofOps?_patches (h : Script old new i j ops i' j')
    (hOps : ∀ op ∈ ops, op.tag ≠ .keep) (hEnd : j' = new.length → i' = old.length)
    (hPatches : Patches old new i' j' hs) :
    Patches old new i j ((Hunk.ofOps? ops).toList ++ hs) := by
  obtain ⟨hOldTotal, hNewTotal⟩ := h.total_eq hOps
  obtain ⟨hOld, hNew⟩ := h.head_eq hOps
  subst hOldTotal hNewTotal
  unfold Hunk.ofOps?
  generalize ops.filter (·.tag == .delete) = deletions at *
  generalize ops.filter (·.tag == .insert) = insertions at *
  dsimp only
  split
  · exact hPatches
  · exact .hunk (fun _ => hOld _ rfl) (fun hZero => absurd rfl hZero) hEnd hPatches
  · exact .hunk (fun hZero => absurd rfl hZero) (fun _ => hNew _ rfl) hEnd hPatches
  · exact .hunk (fun _ => hOld _ rfl) (fun _ => hNew _ rfl) hEnd hPatches

theorem collect_patches {pending : List Op} (hPending : Script old new i j pending.reverse i' j')
    (hTags : ∀ op ∈ pending, op.tag ≠ .keep)
    (hOps : Script old new i' j' ops old.length new.length) :
    Patches old new i j (Hunk.collect pending ops) := by
  fun_induction Hunk.collect pending ops generalizing i j i' j' with
  | case1 pending =>
    cases hOps
    rw [← List.append_nil (Hunk.ofOps? _).toList]
    exact hPending.ofOps?_patches (by simpa using hTags) (fun _ => rfl) .done
  | case2 pending op ops hKeep ih =>
    obtain ⟨n, -, hPos, hRun, hRest⟩ := hOps.of_keep hKeep
    apply hPending.ofOps?_patches (by simpa using hTags)
    · -- a kept element follows in both lists
      have := hRest.le
      omega
    · exact .keep hRun (ih (.nil _ _) (fun _ hMem => by cases hMem) hRest)
  | case3 pending op ops hKeep ih =>
    have hSplit : Script old new i' j' ([op] ++ ops) old.length new.length := hOps
    obtain ⟨a, b, hOp, hRest⟩ := Script.append_iff.1 hSplit
    apply ih _ _ hRest
    · rw [List.reverse_cons]
      exact hPending.append hOp
    · intro op' hMem
      rcases List.mem_cons.1 hMem with rfl | hMem
      · exact hKeep
      · exact hTags op' hMem

/-- **Hunks.** The hunks of two lists lead from one to the other. -/
theorem hunks_patch [DecidableEq α] (old new : List α) : Patches old new 0 0 (hunks old new) := by
  have hAligned := align_script (StandsAt.self old) (StandsAt.self new)
  rw [Nat.zero_add, Nat.zero_add] at hAligned
  exact collect_patches (.nil 0 0) (fun _ hMem => by cases hMem) (slide_script hAligned)

/-! ## Insertions in their places -/

/-- Whether every hunk that only inserts stands where as many old elements are kept before it as new
ones, when `taken` elements are deleted and `put` elements are inserted before the hunks. -/
def InPlaceFrom (taken put : Nat) : List Hunk → Prop
  | [] => True
  | h :: hs => (h.oldLength = 0 → h.old + put = h.new + taken) ∧
      InPlaceFrom (taken + h.oldLength) (put + h.newLength) hs

instance decidableInPlaceFrom : (taken put : Nat) → (hs : List Hunk) →
    Decidable (InPlaceFrom taken put hs)
  | _, _, [] => .isTrue trivial
  | taken, put, h :: hs =>
    have := decidableInPlaceFrom (taken + h.oldLength) (put + h.newLength) hs
    inferInstanceAs (Decidable (_ ∧ _))

/-- Whether the insertions of the hunks stand where they belong. -/
def InPlace (hs : List Hunk) : Prop := InPlaceFrom 0 0 hs

instance (hs : List Hunk) : Decidable (InPlace hs) := decidableInPlaceFrom 0 0 hs

/-- `Tiles old new i j hs`: the hunks and the kept elements between them divide what follows element
`i` of the old list and what follows element `j` of the new list. -/
inductive Tiles (old new : List α) : Nat → Nat → List Hunk → Prop
  | done : Tiles old new old.length new.length []
  | keep {i j n : Nat} {hs : List Hunk} : run old i n = run new j n →
      Tiles old new (i + n) (j + n) hs → Tiles old new i j hs
  | hunk {i j : Nat} {h : Hunk} {hs : List Hunk} : (h.oldLength ≠ 0 ∨ h.newLength ≠ 0 → h.old = i) →
      (h.newLength ≠ 0 → h.new = j) →
      (j + h.newLength = new.length → i + h.oldLength = old.length) →
      Tiles old new (i + h.oldLength) (j + h.newLength) hs → Tiles old new i j (h :: hs)

theorem Tiles.le (h : Tiles old new i j hs) : i ≤ old.length ∧ j ≤ new.length := by
  induction h with
  | done => exact ⟨Nat.le_refl _, Nat.le_refl _⟩
  | keep _ _ ih => omega
  | hunk _ _ _ _ ih => omega

theorem Patches.tiles (h : Patches old new i j hs) {taken put : Nat}
    (hPlace : InPlaceFrom taken put hs) (hKept : i + put = j + taken) : Tiles old new i j hs := by
  induction h generalizing taken put with
  | done => exact .done
  | keep hRun _ ih => exact .keep hRun (ih hPlace (by omega))
  | @hunk i j h hs hOld hNew hEnd _ ih =>
    obtain ⟨hInsertion, hRest⟩ := hPlace
    refine .hunk ?_ hNew hEnd (ih hRest (by omega))
    intro hNe
    by_cases hZero : h.oldLength = 0
    · have hj := hNew (hNe.resolve_left fun hNe => hNe hZero)
      have hPut := hInsertion hZero
      omega
    · exact hOld hZero

/-- **Tiling.** Hunks with their insertions in place divide both lists. -/
theorem hunks_tile [DecidableEq α] {old new : List α} (h : InPlace (hunks old new)) :
    Tiles old new 0 0 (hunks old new) :=
  (hunks_patch old new).tiles h rfl

end RexxEditing.Diff
