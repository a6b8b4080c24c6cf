import RexxEditing.Proofs.Indent.Stream
import RexxEditing.Session

/-! # Indenting a region through an editor

The editing mode keeps lines of its own while it indents a region, and tells the editor a column for
every line that is entered in code. Its lines are at every step those of the pass that indents a
text, so the columns are those of the pass. What the editor makes of them is its own affair: a
session trims spaces and tabs where the pass trims all white space.

* `Host.indentLines_eq`: what an editor is told, by the pass.
* `mem_requestsFrom`, `map_fst_requestsFrom`: the columns and the lines of these requests.
* `Session.foldl_requestsFrom`: what a session makes of them.
* `Host.indentRegion_agrees`: the region of all lines.
-/

namespace RexxEditing

open Text (isWhite spaces)
open Indent (Carried LineKind levelAbove stream reindent)

/-! ## Requests -/

/-- The lines entered in code and their columns, when the pass stands in front of line `i`. -/
def Indent.requestsFrom (offset i : Nat) (c : Carried) : List Text → List (Nat × Nat)
  | [] => []
  | line :: rest =>
    let below := requestsFrom offset (i + 1) (c.next line (c.place offset line.dropReturn)) rest
    match c.state with
    | .inside _ => below
    | .normal =>
      (i, if line.dropReturn.isAllWhite then 0
        else c.column offset (LineKind.ofLine line.dropReturn)) :: below

open Indent (requestsFrom)

theorem State.of_drop_eq_sequence {states : List State} {i : Nat} {entry : State} {line : Text}
    {rest : List Text} (h : states.drop i = entry.sequence (line :: rest)) :
    states[i]? = some entry ∧ states.drop (i + 1) = (entry.next line).sequence rest := by
  constructor
  · have hFirst := congrArg List.head? h
    rwa [List.head?_drop] at hFirst
  · have hTail := congrArg List.tail h
    rwa [List.tail_drop] at hTail

theorem Indent.place_eq_spaces {c : Carried} (hState : c.state = .normal) (offset : Nat)
    (line : Text) :
    c.place offset line =
      spaces (if line.isAllWhite then 0 else c.column offset (LineKind.ofLine line)) ++
        line.trimStart := by
  by_cases hBody : line.trimStart = []
  · rw [Carried.place_white hState offset hBody, if_pos (Text.trimStart_eq_nil_iff.1 hBody), hBody]
    rfl
  · rw [Carried.place_body hState offset hBody,
      if_neg fun hWhite => hBody (Text.trimStart_eq_nil_iff.2 hWhite)]

theorem regionColumn_eq (offset : Nat) (states : List State) (above : List Text) (line : Text)
    (below : List Text) (entry : State) :
    Host.regionColumn offset states (above ++ line :: below) above.length line =
      if line.isAllWhite then 0
      else Carried.column offset (LineKind.ofLine line) ⟨entry, levelAbove states above⟩ := by
  have hBelow : Indent.columnWith (.ofLines (above ++ line :: below)) above.length offset states =
      Indent.columnWith (.ofLines (above ++ [line])) above.length offset states :=
    Indent.columnWith_ofLines rfl offset rfl fun _ _ => rfl
  rw [Host.regionColumn, hBelow, Indent.columnWith_eq_column offset states above line entry]

section Host

variable {H : Type} (host : Host H)

/-- **What an editor is told.** The invariant is that the lines above stand as the pass has put
them. -/
theorem Host.indentLines_eq {offset : Nat} {states : List State} {above : List Text}
    {entry : State} {lines : List Text} (hStates : states.drop above.length = entry.sequence lines)
    (h : H) :
    host.indentLines offset states (above ++ lines.map Text.dropReturn) h
        (List.range' above.length lines.length) =
      let requests := requestsFrom offset above.length ⟨entry, levelAbove states above⟩ lines
      (requests.length, requests.foldl (fun h r => host.setIndentation h r.1 r.2) h) := by
  induction lines generalizing above entry h with
  | nil => rfl
  | cons line rest ih =>
    obtain ⟨hEntry, hTail⟩ := State.of_drop_eq_sequence hStates
    have hLine : (above ++ (line :: rest).map Text.dropReturn)[above.length]? =
        some line.dropReturn := by
      rw [List.getElem?_append_right (Nat.le_refl _), Nat.sub_self]
      rfl
    have hLevel (placed : Text) :
        (⟨entry.next line, levelAbove states (above ++ [placed])⟩ : Carried) =
          Carried.next ⟨entry, levelAbove states above⟩ line placed := by
      rw [Indent.levelAbove_concat, List.getD_eq_getElem?_getD, hEntry]
      rfl
    -- the lines below are handled with the line in its place above them
    have hBelow (placed : Text) (h : H) := @ih (above ++ [placed]) (entry.next line)
      (by rwa [List.length_append, List.length_singleton]) h
    simp only [List.length_append, List.length_singleton, List.append_assoc, List.singleton_append,
      hLevel] at hBelow
    rw [List.length_cons, List.range'_succ, Host.indentLines]
    simp only [hEntry, hLine]
    cases entry with
    | inside region => exact hBelow line.dropReturn h
    | normal =>
      have hPlace := @Indent.place_eq_spaces ⟨.normal, levelAbove states above⟩ rfl offset
        line.dropReturn
      have hColumn := regionColumn_eq offset states above line.dropReturn
        (rest.map Text.dropReturn) .normal
      rw [← List.map_cons] at hColumn
      have hSet (placed : Text) : (above ++ (line :: rest).map Text.dropReturn).set above.length
          placed = above ++ placed :: rest.map Text.dropReturn := by
        simp
      simp only [hColumn, hSet, ← hPlace, hBelow, requestsFrom]
      simp

end Host

namespace Indent

/-- Every line that is entered in code has one request, and they come in order. -/
theorem map_fst_requestsFrom (offset : Nat) {states : List State} {i : Nat} {c : Carried}
    {lines : List Text} (h : states.drop i = c.state.sequence lines) :
    (requestsFrom offset i c lines).map Prod.fst =
      (List.range' i lines.length).filter fun k => states[k]? = some .normal := by
  induction lines generalizing i c with
  | nil => rfl
  | cons line rest ih =>
    obtain ⟨hEntry, hTail⟩ := State.of_drop_eq_sequence h
    have hBelow := @ih (i + 1) (c.next line (c.place offset line.dropReturn)) hTail
    rw [List.length_cons, List.range'_succ, requestsFrom]
    cases hState : c.state with
    | inside region =>
      rw [hState] at hEntry
      rw [List.filter_cons_of_neg (by simp [hEntry]), ← hBelow]
    | normal =>
      rw [hState] at hEntry
      rw [List.filter_cons_of_pos (by simp [hEntry]), ← hBelow]
      rfl

/-- The column of a request is that of the line in its place. -/
theorem mem_requestsFrom {offset i : Nat} {c : Carried} {lines : List Text} {r : Nat × Nat}
    (h : r ∈ requestsFrom offset i c lines) :
    ∃ k line, r.1 = i + k ∧ lines[k]? = some line ∧
      (line.dropReturn.isAllWhite = true → r.2 = 0) ∧
      (stream offset c lines)[k]? =
        some (spaces r.2 ++ line.dropReturn.trimStart ++ line.ending) := by
  induction lines generalizing i c with
  | nil => cases h
  | cons line rest ih =>
    have hBelow (hr : r ∈ requestsFrom offset (i + 1)
        (c.next line (c.place offset line.dropReturn)) rest) :
        ∃ k line', r.1 = i + k ∧ (line :: rest)[k]? = some line' ∧
          (line'.dropReturn.isAllWhite = true → r.2 = 0) ∧
          (stream offset c (line :: rest))[k]? =
            some (spaces r.2 ++ line'.dropReturn.trimStart ++ line'.ending) := by
      obtain ⟨k, line', hIndex, hLine, hWhite, hPlaced⟩ := ih hr
      exact ⟨k + 1, line', by omega, hLine, hWhite, hPlaced⟩
    rw [requestsFrom] at h
    cases hState : c.state with
    | inside region =>
      rw [hState] at h
      exact hBelow h
    | normal =>
      rw [hState] at h
      rcases List.mem_cons.1 h with rfl | h
      · refine ⟨0, line, rfl, rfl, ?_, ?_⟩
        · intro hWhite
          exact if_pos hWhite
        · rw [stream, List.getElem?_cons_zero, place_eq_spaces hState]
      · exact hBelow h

end Indent

/-! ## Sessions -/

/-- Whether the white space in front of the line is made of spaces and tabs, a carriage return at
its end set aside. -/
def Text.HasPlainFront (line : Text) : Prop :=
  ∀ c ∈ line.dropReturn.takeWhile isWhite, c = ' ' ∨ c = '\t'

instance (line : Text) : Decidable line.HasPlainFront :=
  List.decidableBAll (fun c => c = ' ' ∨ c = '\t') _

namespace Session

theorem indentTo_eq {line : Text} (h : line.HasPlainFront) (column : Nat) :
    indentTo column line = spaces column ++ line.dropReturn.trimStart ++ line.ending := by
  have hParts : line.dropReturn.takeWhile isWhite ++
      (line.dropReturn.trimStart ++ line.ending) = line := by
    have hTrim : line.dropReturn.takeWhile isWhite ++ line.dropReturn.trimStart =
        line.dropReturn := List.takeWhile_append_dropWhile
    rw [← List.append_assoc, hTrim, Text.dropReturn_append_ending]
  have hFront : ∀ c ∈ line.dropReturn.takeWhile isWhite, (c == ' ' || c == '\t') = true := by
    intro c hc
    rcases h c hc with rfl | rfl <;> rfl
  -- behind the white space stands a character that is not white, or the carriage return
  have hStop : ∀ c, (line.dropReturn.trimStart ++ line.ending).head? = some c →
      (c == ' ' || c == '\t') = false := by
    intro c hc
    cases hBody : line.dropReturn.trimStart with
    | nil =>
      rw [hBody, List.nil_append] at hc
      rcases line.ending_cases with hEnding | hEnding <;> rw [hEnding] at hc <;> cases hc
      rfl
    | cons d rest =>
      rw [hBody] at hc
      cases hc
      have hWhite := Text.isWhite_of_trimStart hBody
      apply Bool.eq_false_iff.2
      intro hGap
      simp only [Bool.or_eq_true, beq_iff_eq] at hGap
      rcases hGap with rfl | rfl <;> cases hWhite
  have hDrop : line.dropWhile (fun c => c == ' ' || c == '\t') =
      line.dropReturn.trimStart ++ line.ending := by
    conv => lhs; rw [← hParts]
    rw [List.dropWhile_append_of_pos hFront]
    cases hRest : line.dropReturn.trimStart ++ line.ending with
    | nil => rfl
    | cons d rest =>
      rw [hRest] at hStop
      exact List.dropWhile_cons_of_neg (by simp [hStop d rfl])
  rw [indentTo, hDrop, List.append_assoc]

theorem lines_setIndentation {s : Session} {above rest : List Text} {line : Text}
    (h : s.text.lines = above ++ line :: rest) (column : Nat) :
    (s.setIndentation above.length column).text.lines =
      above ++ indentTo column line :: rest := by
  have hModify : (above ++ line :: rest).modify above.length (indentTo column) =
      above ++ indentTo column line :: rest := by
    simp [List.modify_eq_take_cons_drop]
  have hOld : ∀ old ∈ above ++ line :: rest, '\n' ∉ old := by
    rw [← h]
    exact fun old hOld => Text.newline_notMem_of_mem_lines hOld
  rw [setIndentation, h, hModify]
  refine Text.lines_ofLines (by simp) ?_
  intro new hNew hFeed
  rcases List.mem_append.1 hNew with hAbove | hBelow
  · exact hOld new (List.mem_append_left _ hAbove) hFeed
  · rcases List.mem_cons.1 hBelow with rfl | hRest
    · rcases List.mem_append.1 hFeed with hSpace | hBody
      · cases List.eq_of_mem_replicate hSpace
      · exact hOld line (by simp) ((List.dropWhile_sublist _).mem hBody)
    · exact hOld new (by simp [hRest]) hFeed

/-- **What a session makes of the requests** when the white space in front of its lines is made of
spaces and tabs. -/
theorem foldl_requestsFrom {offset : Nat} {c : Carried} {above lines : List Text} {s : Session}
    (hText : s.text.lines = above ++ lines)
    (hFront : ∀ p ∈ (c.state.sequence lines).zip lines, p.1 = .normal → p.2.HasPlainFront) :
    (requestsFrom offset above.length c lines).foldl (fun s r => s.setIndentation r.1 r.2) s =
      { s with text := Text.ofLines (above ++ stream offset c lines) } := by
  induction lines generalizing above c s with
  | nil =>
    rw [List.append_nil] at hText
    simp only [requestsFrom, List.foldl_nil, stream, List.append_nil, ← hText, Text.ofLines_lines]
  | cons line rest ih =>
    obtain ⟨hLine, hRest⟩ := List.forall_mem_cons.1 hFront
    -- the rest of the run, from a session in which the line is in its place
    have hRun (s' : Session)
        (hText' : s'.text.lines =
          above ++ (c.place offset line.dropReturn ++ line.ending) :: rest) :=
      @ih (c.next line (c.place offset line.dropReturn))
        (above ++ [c.place offset line.dropReturn ++ line.ending]) s'
        (by rw [hText', List.append_assoc]; rfl) hRest
    simp only [List.length_append, List.length_singleton, List.append_assoc,
      List.singleton_append] at hRun
    rw [requestsFrom]
    cases hState : c.state with
    | inside region =>
      have hSame : c.place offset line.dropReturn ++ line.ending = line := by
        rw [Carried.place, hState]
        exact line.dropReturn_append_ending
      rw [hSame] at hRun
      rw [hRun s hText, stream, hSame]
    | normal =>
      have hPlaced := indentTo_eq (hLine hState) (if line.dropReturn.isAllWhite then 0
        else c.column offset (LineKind.ofLine line.dropReturn))
      rw [← Indent.place_eq_spaces hState] at hPlaced
      generalize (if line.dropReturn.isAllWhite then 0
        else c.column offset (LineKind.ofLine line.dropReturn)) = column at hPlaced ⊢
      have hLines := lines_setIndentation hText column
      rw [hPlaced] at hLines
      rw [List.foldl_cons, hRun _ hLines, stream]
      rfl

end Session

/-! ## The region of all lines -/

/-- **Indenting a region agrees with indenting the text.** Whatever the editor is, indenting the
region of all lines makes one request for each line that is entered in code and no other, from the
first to the last, and the answer is their number. The column of a request is the one at which
indenting the text puts the line, and zero for a line of white space. A session has the indented
text afterwards, if the white space in front of these lines is made of spaces and tabs. -/
theorem Host.indentRegion_agrees (offset : Nat) (text : Text) {m : Nat}
    (hm : text.lines.length ≤ m) :
    ∃ requests : List (Nat × Nat),
      (∀ (H : Type) (host : Host H) (h : H), host.text h = text →
        host.indentRegion offset h 0 m =
          (requests.length, requests.foldl (fun h r => host.setIndentation h r.1 r.2) h)) ∧
      requests.map Prod.fst = (List.range text.lines.length).filter
        (fun i => (lineStates text .normal)[i]? = some .normal) ∧
      (∀ r ∈ requests, ∃ line, text.lines[r.1]? = some line ∧
        (line.dropReturn.isAllWhite = true → r.2 = 0) ∧
        (reindent offset text).lines[r.1]? =
          some (spaces r.2 ++ line.dropReturn.trimStart ++ line.ending)) ∧
      ∀ s : Session, s.text = text → s.offset = offset →
        (∀ p ∈ (lineStates text .normal).zip text.lines, p.1 = .normal → p.2.HasPlainFront) →
        s.indentRegion 0 m = (requests.length, { s with text := reindent offset text }) := by
  have hRun (H : Type) (host : Host H) (h : H) (hText : host.text h = text) :
      host.indentRegion offset h 0 m =
        ((requestsFrom offset 0 .start text.lines).length,
          (requestsFrom offset 0 .start text.lines).foldl
            (fun h r => host.setIndentation h r.1 r.2) h) := by
    have hLines := @Host.indentLines_eq H host offset (lineStates text .normal) [] .normal
      text.lines rfl h
    rw [Host.indentRegion, hText, List.length_map, Nat.min_eq_right hm]
    exact hLines
  refine ⟨requestsFrom offset 0 .start text.lines, hRun, ?_, ?_, ?_⟩
  · rw [List.range_eq_range']
    exact Indent.map_fst_requestsFrom offset rfl
  · intro r hr
    obtain ⟨k, line, hIndex, hLine, hWhite, hPlaced⟩ := Indent.mem_requestsFrom hr
    rw [Nat.zero_add] at hIndex
    rw [hIndex, Indent.lines_reindent_eq_stream]
    exact ⟨line, hLine, hWhite, hPlaced⟩
  · intro s hText hOffset hFront
    subst hOffset
    have hFold := @Session.foldl_requestsFrom s.offset .start [] text.lines s
      (by rw [hText]; rfl) hFront
    rw [List.nil_append, ← Indent.lines_reindent_eq_stream, Text.ofLines_lines] at hFold
    rw [Session.indentRegion, hRun Session Session.host s hText]
    exact congrArg (Prod.mk _) hFold

/-- Four of five lines are told to a session; the second line of a comment is left alone. -/
theorem Host.indentRegion_agrees_around_comment :
    let s := Session.ofText "do\r\n\t/* a\n b */\n \r\nsay 1".toList 2
    s.text.lines.length ≤ 9 ∧
      s.indentRegion 0 9 =
        (4, { s with text := "do\r\n  /* a\n b */\n\r\n  say 1".toList }) := by
  intro s
  have hm : s.text.lines.length ≤ 9 := by decide +kernel
  obtain ⟨requests, -, hLines, -, hSession⟩ := Host.indentRegion_agrees 2 s.text hm
  have hCount : requests.length = 4 := by
    rw [← List.length_map Prod.fst, hLines]
    decide +kernel
  refine ⟨hm, ?_⟩
  rw [hSession s rfl rfl (by decide +kernel), hCount]
  decide +kernel

end RexxEditing
