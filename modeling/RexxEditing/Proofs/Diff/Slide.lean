import RexxEditing.Diff.Slide
import RexxEditing.Proofs.Diff.Script

/-! # Sliding keeps a script

A change that slides changes places with one neighbour after the other. Changes of two kinds stand
in either order, changes of one kind are one change, and an insertion passes the kept elements that
are equal to its own. Each of these steps leaves a script that leads from the starts of both lists
to their ends, and so does a whole slide.

* `Script.swap`, `Script.merge`: what happens between two changes.
* `Focus.IsScript.passUp`, `Focus.IsScript.passDown`: what happens at a kept run.
* `slide_script`: sliding the changes of a script leaves a script.
-/

namespace RexxEditing.Diff

variable {α : Type} {old new : List α} {i j i' j' n k : Nat} {q t : Op} {ops : List Op}

/-! ## Neighbours -/

namespace Script

theorem of_keep (h : Script old new i j (q :: ops) i' j') (hq : q.tag = .keep) :
    ∃ n, q = Op.keep i j n ∧ n ≠ 0 ∧ run old i n = run new j n ∧
      Script old new (i + n) (j + n) ops i' j' := by
  cases h with
  | keep hPos hRun h => exact ⟨_, rfl, hPos, hRun, h⟩
  | delete => cases hq
  | insert => cases hq

theorem of_insert (h : Script old new i j (q :: ops) i' j') (hq : q.tag = .insert) :
    ∃ place n, q = Op.insert place j n ∧ Script old new i (j + n) ops i' j' := by
  cases h with
  | keep => cases hq
  | delete => cases hq
  | insert place h => exact ⟨place, _, rfl, h⟩

/-- A deletion and an insertion next to each other may change places. -/
theorem swap (h : Script old new i j (q :: t :: ops) i' j') (hq : q.tag ≠ .keep)
    (ht : t.tag ≠ .keep) (hTags : q.tag ≠ t.tag) : Script old new i j (t :: q :: ops) i' j' := by
  cases h with
  | keep => exact absurd rfl hq
  | delete place h =>
    cases h with
    | keep => exact absurd rfl ht
    | delete => exact absurd rfl hTags
    | insert place' h => exact .insert place' (.delete place h)
  | insert place h =>
    cases h with
    | keep => exact absurd rfl ht
    | delete place' h => exact .delete place' (.insert place h)
    | insert => exact absurd rfl hTags

/-- Two changes of one kind next to each other are one change. -/
theorem merge (h : Script old new i j (q :: t :: ops) i' j') (hq : q.tag ≠ .keep)
    (hTags : q.tag = t.tag) : Script old new i j (q.merge t :: ops) i' j' := by
  cases h with
  | keep => exact absurd rfl hq
  | delete place h =>
    cases h with
    | keep => cases hTags
    | delete place' h =>
      rw [Nat.add_assoc] at h
      exact .delete place h
    | insert => cases hTags
  | insert place h =>
    cases h with
    | keep => cases hTags
    | delete => cases hTags
    | insert place' h =>
      rw [Nat.add_assoc] at h
      exact .insert place h

theorem keep_keep {m : Nat} (hPos : m ≠ 0) (hFirst : run old i m = run new j m)
    (hNext : run old (i + m) n = run new (j + m) n)
    (h : Script old new (i + m + n) (j + m + n) ops i' j') :
    Script old new i j (Op.keep i j (m + n) :: ops) i' j' := by
  rw [Nat.add_assoc, Nat.add_assoc] at h
  refine .keep (by omega) ?_ h
  rw [run_add, run_add, hFirst, hNext]

/-! ## Kept runs next to a change -/

theorem shrinkBefore (h : Script old new 0 0 ops.reverse i j) (hRun : run old i n = run new j n) :
    Script old new 0 0 (shrinkBefore (Op.keep i j n) k ops).reverse (i + (n - k))
      (j + (n - k)) := by
  unfold Diff.shrinkBefore
  split
  · rename_i hZero
    have hnk : n - k = 0 := hZero
    rwa [hnk]
  · rename_i hPos
    rw [List.reverse_cons]
    have hShort : run old i (n - k) = run new j (n - k) := by
      rw [← take_run old i (Nat.sub_le n k), hRun, take_run new j (Nat.sub_le n k)]
    exact h.append (.keep hPos hShort (.nil _ _))

theorem shrinkAfter (hRun : run old i n = run new j n) (hk : k ≤ n)
    (h : Script old new (i + n) (j + n) ops i' j') :
    Script old new (i + k) (j + k) (shrinkAfter (Op.keep i j n) k ops) i' j' := by
  have hi : i + k + (n - k) = i + n := by omega
  have hj : j + k + (n - k) = j + n := by omega
  rw [← hi, ← hj] at h
  unfold Diff.shrinkAfter
  split
  · rename_i hZero
    have hnk : n - k = 0 := hZero
    rwa [hnk] at h
  · rename_i hPos
    have hRest : run old (i + k) (n - k) = run new (j + k) (n - k) := by
      rw [← drop_run, ← drop_run, hRun]
    exact .keep hPos hRest h

theorem keepAfter (hi : q.old + q.oldLength - k = i) (hj : t.new + t.newLength - k = j)
    (hPos : k ≠ 0) (hRun : run old i k = run new j k)
    (h : Script old new (i + k) (j + k) ops i' j') :
    Script old new i j (keepAfter q t k ops) i' j' := by
  cases ops with
  | nil =>
    rw [Diff.keepAfter, hi, hj]
    exact .keep hPos hRun h
  | cons r rest =>
    rw [Diff.keepAfter, hi, hj]
    split
    · rename_i hr
      obtain ⟨m, rfl, -, hNext, h⟩ := h.of_keep hr
      have hGrow : (Op.keep (i + k) (j + k) m).growStart k = Op.keep i j (k + m) := by
        simp only [Op.growStart, Op.keep, Nat.add_sub_cancel, Nat.add_comm k m]
      rw [hGrow]
      exact keep_keep hPos hRun hNext h
    · exact .keep hPos hRun h

theorem keepBefore (hi : q.old = i) (hj : t.new = j) (hPos : k ≠ 0)
    (hRun : run old i k = run new j k) (h : Script old new 0 0 ops.reverse i j) :
    Script old new 0 0 (keepBefore q t k ops).reverse (i + k) (j + k) := by
  cases ops with
  | nil =>
    rw [Diff.keepBefore, hi, hj]
    exact h.append (.keep hPos hRun (.nil _ _))
  | cons r rest =>
    rw [Diff.keepBefore, hi, hj]
    split
    · rename_i hr
      rw [List.reverse_cons, append_iff] at h
      obtain ⟨a, b, hRest, hLast⟩ := h
      obtain ⟨m, rfl, hPos', hFirst, hNil⟩ := hLast.of_keep hr
      cases hNil
      rw [List.reverse_cons]
      exact hRest.append (keep_keep hPos' hFirst hRun (.nil _ _))
    · rw [List.reverse_cons]
      exact h.append (.keep hPos hRun (.nil _ _))

end Script

/-! ## What a change may pass -/

/-- Only an insertion passes kept elements, since a deletion has no new elements. -/
theorem tag_eq_insert (h : Script old new i j (t :: ops) i' j') (ht : t.tag ≠ .keep)
    (hNew : 0 < t.newLength) : t.tag = .insert := by
  cases h with
  | keep => exact absurd rfl ht
  | delete => exact absurd hNew (Nat.lt_irrefl 0)
  | insert => rfl

section Slack

variable [DecidableEq α]

theorem slackUp_le_newLength (old new : List α) (q t : Op) : slackUp old new q t ≤ t.newLength :=
  Nat.le_trans (commonSuffix_le_right _ _) (List.length_take_le _ _)

theorem slackDown_le_newLength (old new : List α) (q t : Op) :
    slackDown old new q t ≤ t.newLength :=
  Nat.le_trans (commonPrefix_le_right _ _) (List.length_take_le _ _)

theorem run_slackUp {m place : Nat} (hOld : i + n ≤ old.length) (hNew : j + m ≤ new.length)
    (hk : slackUp old new (Op.keep i j' n) (Op.insert place j m) = k) :
    run old (i + (n - k)) k = run new (j + (m - k)) k := by
  have hkn : k ≤ n := hk ▸ slackUp_le old new _ _
  have hkm : k ≤ m := hk ▸ slackUp_le_newLength old new _ _
  have hTail := drop_commonSuffix (run old i n) (run new j m)
  have hSuffix : commonSuffix (run old i n) (run new j m) = k := hk
  rw [hSuffix, length_run hOld, length_run hNew, drop_run, drop_run, Nat.sub_sub_self hkn,
    Nat.sub_sub_self hkm] at hTail
  exact hTail

theorem run_slackDown {m place : Nat}
    (hk : slackDown old new (Op.keep i j' n) (Op.insert place j m) = k) :
    run old i k = run new j k := by
  have hkn : k ≤ n := hk ▸ slackDown_le old new _ _
  have hkm : k ≤ m := hk ▸ slackDown_le_newLength old new _ _
  have hHead := take_commonPrefix (run old i n) (run new j m)
  have hPrefix : commonPrefix (run old i n) (run new j m) = k := hk
  rw [hPrefix, take_run old i hkn, take_run new j hkm] at hHead
  exact hHead

end Slack

/-! ## A change in focus -/

namespace Focus

/-- Whether the operations lead from the starts of both lists to their ends. -/
def IsScript (old new : List α) (f : Focus) : Prop :=
  ∃ i j, Script old new 0 0 f.before.reverse i j ∧
    Script old new i j (f.op :: f.after) old.length new.length

theorem isScript_iff {f : Focus} : f.IsScript old new ↔
    Script old new 0 0 (f.before.reverse ++ f.op :: f.after) old.length new.length :=
  Script.append_iff.symm

theorem isScript_cons_iff {before after : List Op} : IsScript old new ⟨q :: before, t, after⟩ ↔
    ∃ i j, Script old new 0 0 before.reverse i j ∧
      Script old new i j (q :: t :: after) old.length new.length := by
  rw [isScript_iff, ← Script.append_iff, List.reverse_cons, List.append_assoc]
  rfl

namespace IsScript

variable [DecidableEq α] {before after : List Op}

/-- A change passes the kept elements before it that it ends with. -/
theorem passUp (h : IsScript old new ⟨q :: before, t, after⟩) (hq : q.tag = .keep)
    (ht : t.tag ≠ .keep) (hk : slackUp old new q t = k) (hPos : k ≠ 0) :
    IsScript old new ⟨shrinkBefore q k before, t.moveUp k, keepAfter q t k after⟩ := by
  obtain ⟨i, j, hBefore, h⟩ := isScript_cons_iff.1 h
  obtain ⟨n, rfl, -, hRun, h⟩ := h.of_keep hq
  have hkt : k ≤ t.newLength := hk ▸ slackUp_le_newLength old new _ t
  have hNew : 0 < t.newLength := by omega
  obtain ⟨place, m, rfl, hAfter⟩ := h.of_insert (tag_eq_insert h ht hNew)
  have hkn : k ≤ n := hk ▸ slackUp_le old new _ _
  have hkm : k ≤ m := hkt
  have hEnds := hAfter.le
  have hPassed : run old (i + (n - k)) k = run new (j + (n - k) + m) k := by
    have hj : j + (n - k) + m = j + n + (m - k) := by omega
    rw [hj]
    exact run_slackUp hEnds.1 hEnds.2 hk
  refine ⟨i + (n - k), j + (n - k), hBefore.shrinkBefore hRun, ?_⟩
  have hMoved : (Op.insert place (j + n) m).moveUp k = Op.insert (place - k) (j + (n - k)) m := by
    rw [← Nat.add_sub_assoc hkn]
    rfl
  rw [hMoved]
  apply Script.insert
  apply Script.keepAfter _ _ hPos hPassed
  · have hi : i + (n - k) + k = i + n := by omega
    have hj : j + (n - k) + m + k = j + n + m := by omega
    rwa [hi, hj]
  · exact Nat.add_sub_assoc hkn i
  · show j + n + m - k = j + (n - k) + m
    omega

/-- A change passes the kept elements after it that it starts with. -/
theorem passDown (h : IsScript old new ⟨before, t, q :: after⟩) (hq : q.tag = .keep)
    (ht : t.tag ≠ .keep) (hk : slackDown old new q t = k) (hPos : k ≠ 0) :
    IsScript old new ⟨keepBefore q t k before, t.moveDown k, shrinkAfter q k after⟩ := by
  obtain ⟨i, j, hBefore, h⟩ := h
  have hkt : k ≤ t.newLength := hk ▸ slackDown_le_newLength old new q t
  have hNew : 0 < t.newLength := by omega
  obtain ⟨place, m, rfl, hKept⟩ := h.of_insert (tag_eq_insert h ht hNew)
  obtain ⟨n, rfl, -, hRun, hAfter⟩ := hKept.of_keep hq
  have hkn : k ≤ n := hk ▸ slackDown_le old new _ _
  refine ⟨i + k, j + k, hBefore.keepBefore rfl rfl hPos (run_slackDown hk), ?_⟩
  apply Script.insert (place + k)
  rw [Nat.add_right_comm]
  exact Script.shrinkAfter hRun hkn hAfter

end IsScript

end Focus

/-! ## Whole slides -/

variable [DecidableEq α]

theorem slideUp_isScript {before after : List Op} (h : Focus.IsScript old new ⟨before, t, after⟩)
    (ht : t.tag ≠ .keep) :
    (slideUp old new before t after).IsScript old new ∧
      (slideUp old new before t after).op.tag = t.tag := by
  fun_induction slideUp old new before t after with
  | case1 t after => exact ⟨h, rfl⟩
  | case2 t after q rest hq k hk => exact ⟨h, rfl⟩
  | case3 t after q rest hq k hk ih => exact ih (h.passUp hq ht rfl hk) ht
  | case4 t after q rest hq hTags ih =>
    obtain ⟨i, j, hBefore, h⟩ := Focus.isScript_cons_iff.1 h
    have hMerged := ih ⟨i, j, hBefore, h.merge hq hTags⟩ hq
    exact ⟨hMerged.1, hMerged.2.trans hTags⟩
  | case5 t after q rest hq hTags ih =>
    obtain ⟨i, j, hBefore, h⟩ := Focus.isScript_cons_iff.1 h
    exact ih ⟨i, j, hBefore, h.swap hq ht hTags⟩ ht

theorem slideDown_isScript {before after : List Op} (h : Focus.IsScript old new ⟨before, t, after⟩)
    (ht : t.tag ≠ .keep) : (slideDown old new before t after).IsScript old new := by
  fun_induction slideDown old new before t after with
  | case1 before t => exact h
  | case2 before t q rest hq k hk => exact h
  | case3 before t q rest hq k hk ih => exact ih (h.passDown hq ht rfl hk) ht
  | case4 before t q rest hq hTags ih =>
    obtain ⟨i, j, hBefore, h⟩ := h
    exact ih ⟨i, j, hBefore, h.merge ht hTags.symm⟩ ht
  | case5 before t q rest hq hTags ih =>
    obtain ⟨i, j, hBefore, h⟩ := h
    exact ih (Focus.isScript_cons_iff.2 ⟨i, j, hBefore, h.swap ht hq (Ne.symm hTags)⟩) ht

theorem slideFrom_script {tag : Tag} (hTag : tag ≠ .keep) {steps : Nat} {before after : List Op}
    (h : Script old new 0 0 (before.reverse ++ after) old.length new.length) :
    Script old new 0 0 (slideFrom old new tag steps before after) old.length new.length := by
  fun_induction slideFrom old new tag steps before after with
  | case1 => rwa [List.append_nil] at h
  | case2 => exact h
  | case3 before steps t after ht up down ih =>
    have hUp := slideUp_isScript (Focus.isScript_iff.2 h) (ht ▸ hTag)
    have hDown := slideDown_isScript hUp.1 (hUp.2 ▸ ht ▸ hTag)
    apply ih
    rw [List.reverse_cons, List.append_assoc]
    exact Focus.isScript_iff.1 hDown
  | case4 before steps t after ht ih =>
    apply ih
    rwa [List.reverse_cons, List.append_assoc]

/-- **Sliding.** Sliding the changes of a script leaves a script. -/
theorem slide_script (h : Script old new 0 0 ops old.length new.length) :
    Script old new 0 0 (slide old new ops) old.length new.length := by
  apply slideFrom_script (by decide)
  exact slideFrom_script (by decide) h

end RexxEditing.Diff
