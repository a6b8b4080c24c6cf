import RexxEditing.Proofs.Diff.Hunk

/-! # Hunks lie in the new list

A hunk that only deletes has no new elements, but it has a place in the new list, and the elements
from there on are asked for all the same. A script says nothing about the places of deletions, so
they are followed from the alignment to the end of the slides.

* `standsBy_align`, `standsBy_slide`: no change has a place behind the end of the new list.
* `hunks_fit`: the new elements of a hunk are elements of the new list.
-/

namespace RexxEditing.Diff

variable {α : Type} {old new : List α} {n : Nat} {ops before after : List Op} {q t : Op} {k : Nat}

/-- No change stands behind element `n` of the new list. -/
def StandsBy (n : Nat) (ops : List Op) : Prop := ∀ op ∈ ops, op.tag ≠ .keep → op.new ≤ n

theorem standsBy_nil (n : Nat) : StandsBy n [] := fun _ h => by cases h

theorem standsBy_cons : StandsBy n (q :: ops) ↔ (q.tag ≠ .keep → q.new ≤ n) ∧ StandsBy n ops :=
  List.forall_mem_cons

theorem standsBy_append : StandsBy n (before ++ after) ↔ StandsBy n before ∧ StandsBy n after :=
  List.forall_mem_append

theorem standsBy_reverse : StandsBy n ops.reverse ↔ StandsBy n ops := by
  unfold StandsBy
  simp only [List.mem_reverse]

theorem StandsBy.cons_keep (h : StandsBy n ops) (hq : q.tag = .keep) : StandsBy n (q :: ops) :=
  standsBy_cons.2 ⟨fun hNe => absurd hq hNe, h⟩

/-! ## Alignment -/

theorem standsBy_keepRun (i j length n : Nat) : StandsBy n (keepRun i j length) := by
  unfold keepRun
  split
  · exact standsBy_nil n
  · exact (standsBy_nil n).cons_keep rfl

theorem standsBy_align [DecidableEq α] {a c : Nat} {xs ys : List α} (h : c + ys.length ≤ n) :
    StandsBy n (align a c xs ys) := by
  fun_induction align a c xs ys with
  | case1 a c xs ys p s o inserted a' c' changed ihAbove ihBelow =>
    have hp : p ≤ ys.length := commonPrefix_le_right xs ys
    have hInserted : inserted.length ≤ ys.length - p := by
      rw [← List.length_drop]
      exact List.length_take_le' _ _
    have hc : c' + inserted.length ≤ n := by omega
    have hPlace : c' ≤ n := by omega
    have hReplace (m m' : Nat) :
        StandsBy n [Op.delete a' m c', Op.insert (a' + o.length) c' m'] :=
      standsBy_cons.2 ⟨fun _ => hPlace, standsBy_cons.2 ⟨fun _ => hPlace, standsBy_nil n⟩⟩
    have hHalves (x y : Nat) (h : IsInside o inserted (x, y)) : StandsBy n
        (align a' c' (o.take x) (inserted.take y) ++
          align (a' + x) (c' + y) (o.drop x) (inserted.drop y)) := by
      have hy : y ≤ inserted.length := h.2.1
      refine standsBy_append.2 ⟨ihAbove x y h ?_, ihBelow x y h ?_⟩
      · rw [List.length_take]
        omega
      · rw [List.length_drop]
        omega
    have hChanged : StandsBy n changed := by
      simp only [changed]
      clear_value a' c' o inserted
      split
      · exact standsBy_nil n
      · exact standsBy_cons.2 ⟨fun _ => hPlace, standsBy_nil n⟩
      · exact standsBy_cons.2 ⟨fun _ => hPlace, standsBy_nil n⟩
      · split
        · exact hReplace _ _
        · split
          · exact hHalves _ _ ‹_›
          · exact hReplace _ _
    exact standsBy_append.2 ⟨standsBy_append.2 ⟨standsBy_keepRun _ _ _ _, hChanged⟩,
      standsBy_keepRun _ _ _ _⟩

/-! ## Slides -/

theorem StandsBy.shrinkBefore (h : StandsBy n before) (hq : q.tag = .keep) :
    StandsBy n (shrinkBefore q k before) := by
  unfold Diff.shrinkBefore
  split
  · exact h
  · exact h.cons_keep hq

theorem StandsBy.shrinkAfter (h : StandsBy n after) (hq : q.tag = .keep) :
    StandsBy n (shrinkAfter q k after) := by
  unfold Diff.shrinkAfter
  split
  · exact h
  · exact h.cons_keep hq

theorem StandsBy.keepAfter (h : StandsBy n after) : StandsBy n (keepAfter q t k after) := by
  unfold Diff.keepAfter
  split
  · exact h.cons_keep rfl
  next r rest =>
    split
    next hr => exact (standsBy_cons.1 h).2.cons_keep hr
    next => exact h.cons_keep rfl

theorem StandsBy.keepBefore (h : StandsBy n before) : StandsBy n (keepBefore q t k before) := by
  unfold Diff.keepBefore
  split
  · exact h.cons_keep rfl
  next r rest =>
    split
    next hr => exact (standsBy_cons.1 h).2.cons_keep hr
    next => exact h.cons_keep rfl

/-- All operations of a script with a change in focus. -/
def Focus.all (f : Focus) : List Op := f.before ++ f.op :: f.after

theorem standsBy_all : StandsBy n (Focus.all ⟨before, t, after⟩) ↔
    StandsBy n before ∧ (t.tag ≠ .keep → t.new ≤ n) ∧ StandsBy n after := by
  rw [Focus.all, standsBy_append, standsBy_cons]

variable [DecidableEq α]

theorem standsBy_slideUp (h : StandsBy n (Focus.all ⟨before, t, after⟩)) :
    StandsBy n (slideUp old new before t after).all := by
  fun_induction slideUp old new before t after with
  | case1 t after => exact h
  | case2 t after q rest hq k hk => exact h
  | case3 t after q rest hq k hk ih =>
    obtain ⟨hBefore, ht, hAfter⟩ := standsBy_all.1 h
    refine ih (standsBy_all.2 ⟨(standsBy_cons.1 hBefore).2.shrinkBefore hq, fun hTag => ?_,
      hAfter.keepAfter⟩)
    exact Nat.le_trans (Nat.sub_le _ _) (ht hTag)
  | case4 t after q rest hq hTags ih =>
    obtain ⟨hBefore, -, hAfter⟩ := standsBy_all.1 h
    obtain ⟨hFirst, hRest⟩ := standsBy_cons.1 hBefore
    exact ih (standsBy_all.2 ⟨hRest, hFirst, hAfter⟩)
  | case5 t after q rest hq hTags ih =>
    obtain ⟨hBefore, ht, hAfter⟩ := standsBy_all.1 h
    obtain ⟨hFirst, hRest⟩ := standsBy_cons.1 hBefore
    exact ih (standsBy_all.2 ⟨hRest, ht, standsBy_cons.2 ⟨hFirst, hAfter⟩⟩)

/-- A change that moves down passes no more than it has. -/
theorem add_slackDown_le (old : List α) {new : List α} (q : Op) {t : Op} (h : t.new ≤ new.length) :
    t.new + slackDown old new q t ≤ new.length := by
  have hSlack : slackDown old new q t ≤ (run new t.new t.newLength).length :=
    commonPrefix_le_right _ _
  rw [run, List.length_take, List.length_drop] at hSlack
  omega

theorem standsBy_slideDown (h : StandsBy new.length (Focus.all ⟨before, t, after⟩)) :
    StandsBy new.length (slideDown old new before t after).all := by
  fun_induction slideDown old new before t after with
  | case1 before t => exact h
  | case2 before t q rest hq k hk => exact h
  | case3 before t q rest hq k hk ih =>
    obtain ⟨hBefore, ht, hAfter⟩ := standsBy_all.1 h
    refine ih (standsBy_all.2 ⟨hBefore.keepBefore, fun hTag => ?_,
      (standsBy_cons.1 hAfter).2.shrinkAfter hq⟩)
    exact add_slackDown_le old q (ht hTag)
  | case4 before t q rest hq hTags ih =>
    obtain ⟨hBefore, ht, hAfter⟩ := standsBy_all.1 h
    exact ih (standsBy_all.2 ⟨hBefore, ht, (standsBy_cons.1 hAfter).2⟩)
  | case5 before t q rest hq hTags ih =>
    obtain ⟨hBefore, ht, hAfter⟩ := standsBy_all.1 h
    obtain ⟨hFirst, hRest⟩ := standsBy_cons.1 hAfter
    exact ih (standsBy_all.2 ⟨standsBy_cons.2 ⟨hFirst, hBefore⟩, ht, hRest⟩)

theorem standsBy_slideFrom {tag : Tag} {steps : Nat} (hBefore : StandsBy new.length before)
    (hAfter : StandsBy new.length after) :
    StandsBy new.length (slideFrom old new tag steps before after) := by
  fun_induction slideFrom old new tag steps before after with
  | case1 => exact standsBy_reverse.2 hBefore
  | case2 => exact standsBy_append.2 ⟨standsBy_reverse.2 hBefore, hAfter⟩
  | case3 before steps t after ht up down ih =>
    obtain ⟨hFirst, hRest⟩ := standsBy_cons.1 hAfter
    have hUp : StandsBy new.length up.all :=
      standsBy_slideUp (standsBy_all.2 ⟨hBefore, hFirst, hRest⟩)
    have hDown : StandsBy new.length down.all := standsBy_slideDown hUp
    obtain ⟨hAbove, hOp, hBelow⟩ := standsBy_all.1 hDown
    exact ih (standsBy_cons.2 ⟨hOp, hAbove⟩) hBelow
  | case4 before steps t after ht ih =>
    obtain ⟨hFirst, hRest⟩ := standsBy_cons.1 hAfter
    exact ih (standsBy_cons.2 ⟨hFirst, hBefore⟩) hRest

/-- **Sliding** moves no change out of the new list. -/
theorem standsBy_slide (h : StandsBy new.length ops) : StandsBy new.length (slide old new ops) :=
  standsBy_slideFrom (standsBy_nil _) (standsBy_slideFrom (standsBy_nil _) h)

/-! ## Hunks -/

omit [DecidableEq α] in
theorem Patches.le {i j : Nat} {hs : List Hunk} (h : Patches old new i j hs) :
    j ≤ new.length := by
  induction h with
  | done => exact Nat.le_refl _
  | keep _ _ ih => omega
  | hunk _ _ _ _ ih => omega

omit [DecidableEq α] in
theorem Patches.fit {i j : Nat} {hs : List Hunk} (h : Patches old new i j hs)
    (hPlaces : ∀ h ∈ hs, h.new ≤ new.length) :
    ∀ h ∈ hs, h.new + h.newLength ≤ new.length := by
  induction h with
  | done => exact fun _ hMem => by cases hMem
  | keep _ _ ih => exact ih hPlaces
  | @hunk i j h hs _ hNew _ hRest ih =>
    obtain ⟨hPlace, hPlaces⟩ := List.forall_mem_cons.1 hPlaces
    refine List.forall_mem_cons.2 ⟨?_, ih hPlaces⟩
    have hLe := hRest.le
    by_cases hZero : h.newLength = 0
    · omega
    · have hj := hNew hZero
      omega

theorem new_le_of_ofOps? {h : Hunk} (hOps : StandsBy n ops) (hHunk : Hunk.ofOps? ops = some h) :
    h.new ≤ n := by
  have hMem (tag : Tag) (hTag : tag ≠ .keep) {op : Op} {rest : List Op}
      (hFilter : ops.filter (·.tag == tag) = op :: rest) : op.new ≤ n := by
    have hOp : op ∈ ops.filter (·.tag == tag) := hFilter ▸ List.mem_cons_self
    obtain ⟨hOp, hKind⟩ := List.mem_filter.1 hOp
    exact hOps op hOp (beq_iff_eq.1 hKind ▸ hTag)
  unfold Hunk.ofOps? at hHunk
  dsimp only at hHunk
  split at hHunk
  · cases hHunk
  next hDelete _ =>
    cases hHunk
    exact hMem .delete (by decide) hDelete
  next _ hInsert =>
    cases hHunk
    exact hMem .insert (by decide) hInsert
  next _ hInsert =>
    cases hHunk
    exact hMem .insert (by decide) hInsert

theorem new_le_of_mem_collect {pending : List Op} {h : Hunk} (hPending : StandsBy n pending)
    (hOps : StandsBy n ops) (hMem : h ∈ Hunk.collect pending ops) : h.new ≤ n := by
  have hReverse := standsBy_reverse.2 hPending
  fun_induction Hunk.collect pending ops with
  | case1 pending => exact new_le_of_ofOps? hReverse (Option.mem_toList.1 hMem)
  | case2 pending op ops hKeep ih =>
    rcases List.mem_append.1 hMem with hMem | hMem
    · exact new_le_of_ofOps? hReverse (Option.mem_toList.1 hMem)
    · exact ih (standsBy_nil n) (standsBy_cons.1 hOps).2 hMem (standsBy_nil n)
  | case3 pending op ops hKeep ih =>
    obtain ⟨hFirst, hRest⟩ := standsBy_cons.1 hOps
    have hMore := standsBy_cons.2 ⟨hFirst, hPending⟩
    exact ih hMore hRest hMem (standsBy_reverse.2 hMore)

/-- **Hunks fit.** The new elements of a hunk are elements of the new list, and a hunk without new
elements stands at one of them or at the end. -/
theorem hunks_fit (old new : List α) :
    ∀ h ∈ hunks old new, h.new + h.newLength ≤ new.length := by
  apply (hunks_patch old new).fit
  intro h hMem
  have hAligned : StandsBy new.length (align 0 0 old new) :=
    standsBy_align (Nat.le_of_eq (Nat.zero_add _))
  exact new_le_of_mem_collect (standsBy_nil _) (standsBy_slide hAligned) hMem

end RexxEditing.Diff
