import RexxEditing.Proofs.Session.Body
import RexxEditing.Proofs.Session.Region

/-! # What an editing session keeps

All that the editing mode tells an editor is highlight tokens and columns of lines. So a property of
the editor that these two do not break outlasts every request. In a session, a column replaces the
spaces and tabs in front of a line, whatever state the line is entered in. The bodies of the lines
stay, and with them all that can be read off them.

* `Host.Keeps`: properties of an editor that the editing mode does not break.
* `Session.sameBodies_handle`: one request.
* `Session.sameBodies_handleAll`: a run of requests.
* `Session.handleAll_keeps`: the states, categories and words of the text during a session.
-/

namespace RexxEditing

/-! ## Any editor -/

namespace Host

variable {H : Type} {host : Host H} {P : H → Prop}

/-- Whether the property outlasts what an editor can be told. -/
structure Keeps (host : Host H) (P : H → Prop) : Prop where
  highlight : ∀ h token, P h → P (host.highlight h token)
  setIndentation : ∀ h line column, P h → P (host.setIndentation h line column)

namespace Keeps

theorem fontify (hKeeps : host.Keeps P) {h : H} (hP : P h) : P (host.fontify h).2 := by
  show P ((classify (host.text h) .normal).tokens.foldl host.highlight h)
  generalize (classify (host.text h) .normal).tokens = tokens
  induction tokens generalizing h with
  | nil => exact hP
  | cons token rest ih => exact ih (hKeeps.highlight h token hP)

theorem indentLine (hKeeps : host.Keeps P) (offset : Nat) {h : H} (hP : P h) :
    P (host.indentLine offset h).2 :=
  hKeeps.setIndentation h _ _ hP

theorem indentLines (hKeeps : host.Keeps P) (offset : Nat) (states : List State)
    (current : List Text) {h : H} (hP : P h) (indices : List Nat) :
    P (host.indentLines offset states current h indices).2 := by
  induction indices generalizing current h with
  | nil => exact hP
  | cons index rest ih =>
    unfold Host.indentLines
    split
    · apply ih
      exact hKeeps.setIndentation h _ _ hP
    · exact ih current hP

theorem indentRegion (hKeeps : host.Keeps P) (offset : Nat) {h : H} (hP : P h)
    (start stop : Nat) : P (host.indentRegion offset h start stop).2 :=
  hKeeps.indentLines offset _ _ hP _

end Keeps

end Host

/-! ## Sessions -/

namespace Session

theorem sameBodies_setIndentation (s : Session) (i column : Nat) :
    SameBodies (s.setIndentation i column).text s.text := by
  by_cases hi : i < s.text.lines.length
  · have hOld : s.text.lines =
        s.text.lines.take i ++ s.text.lines[i] :: s.text.lines.drop (i + 1) := by
      rw [← List.drop_eq_getElem_cons hi, List.take_append_drop]
    have hNew := lines_setIndentation hOld column
    have hBody : (indentTo column s.text.lines[i]).body = s.text.lines[i].body := by
      show (Text.spaces column ++ s.text.lines[i].body).body = s.text.lines[i].body
      rw [Text.body_spaces_append, Text.body_body]
    rw [List.length_take_of_le (Nat.le_of_lt hi)] at hNew
    rw [SameBodies, hNew]
    conv => rhs; rw [hOld]
    rw [List.map_append, List.map_append, List.map_cons, List.map_cons, hBody]
  · have hSame : s.text.lines.modify i (indentTo column) = s.text.lines :=
      List.modify_eq_self (Nat.le_of_not_lt hi)
    rw [setIndentation, hSame, Text.ofLines_lines]
    rfl

/-- The editing mode keeps the bodies of the lines of a session. -/
theorem keeps_sameBodies (text : Text) :
    host.Keeps fun s : Session => SameBodies s.text text where
  highlight _ _ h := h
  setIndentation s line column h := (s.sameBodies_setIndentation line column).trans h

/-- **One request** keeps the bodies of the lines. -/
theorem sameBodies_handle {s : Session} {text : Text} (h : SameBodies s.text text) (r : Request) :
    SameBodies (s.handle r).2.text text := by
  have hKeeps := keeps_sameBodies text
  cases r with
  | moveCursor line => exact h
  | fontify => exact hKeeps.fontify h
  | indentLine => exact hKeeps.indentLine s.offset h
  | indentRegion start stop => exact hKeeps.indentRegion s.offset h start stop
  | setIndentation line column => exact hKeeps.setIndentation s line column h
  | setOffset offset => exact h

/-- **A run of requests** keeps the bodies of the lines at every point, and the request there is
carried out on lines with these bodies, too. -/
theorem sameBodies_handleAll {s : Session} {text : Text} (h : SameBodies s.text text)
    {requests : List Request} {i : Nat} {r : Request} (hr : requests[i]? = some r) :
    ∃ before : Session, (s.handleAll requests)[i]? = some (before.handle r) ∧
      SameBodies before.text text := by
  induction requests generalizing s i with
  | nil => cases hr
  | cons first rest ih =>
    cases i with
    | zero =>
      cases hr
      exact ⟨s, rfl, h⟩
    | succ i => exact ih (sameBodies_handle h first) hr

/-- **Editing keeps the program.** Whatever is done in a session, and in whatever order, every
request is answered, and after it the text has as many lines as at first, each of them up to spaces
and tabs at its start. Each line is entered in the same state as at first. The tokens have the same
categories in the same order, and all but comments and strings cover the same words. Highlighting
gives the same state at the end of the text each time. -/
theorem handleAll_keeps (text : Text) (offset : Nat) {requests : List Request} {i : Nat}
    {r : Request} (hr : requests[i]? = some r) :
    ∃ answer s, ((ofText text offset).handleAll requests)[i]? = some (answer, s) ∧
      s.text.lines.length = text.lines.length ∧
      (∀ (j : Nat) line line', s.text.lines[j]? = some line' → text.lines[j]? = some line →
        line'.body = line.body) ∧
      lineStates s.text .normal = lineStates text .normal ∧
      (classify s.text .normal).tokens.map Token.kind =
        (classify text .normal).tokens.map Token.kind ∧
      (Indent.readings s.text).filter (fun word => !word.1.isRegion) =
        (Indent.readings text).filter (fun word => !word.1.isRegion) ∧
      (r = .fontify → answer = .state (classify text .normal).exit) := by
  have hStart : SameBodies (ofText text offset).text text := rfl
  obtain ⟨before, hAt, hBefore⟩ := sameBodies_handleAll hStart hr
  have hAfter := sameBodies_handle hBefore r
  refine ⟨(before.handle r).1, (before.handle r).2, hAt, hAfter.length_lines, ?_,
    hAfter.lineStates_eq .normal, hAfter.kinds_eq, hAfter.words_eq, ?_⟩
  · intro j line line' hLine' hLine
    exact hAfter.body_eq hLine' hLine
  · rintro rfl
    exact congrArg Answer.state (hBefore.exit_eq .normal)

/-- A line inside a comment and one inside a string are moved before the text is highlighted. -/
theorem handleAll_keeps_in_regions :
    let text := "do /* a\n b */ x\n\tsay 'c\n d".toList
    let requests := [.setIndentation 1 4, .setIndentation 3 0, .indentRegion 0 9, .fontify]
    ∃ s, ((ofText text 2).handleAll requests)[3]? = some (.state (.inside (.string .single)), s) ∧
      (classify s.text .normal).tokens.map Token.kind =
        [.keyword, .comment, .plainText, .keyword, .string] := by
  intro text requests
  obtain ⟨answer, s, hAt, -, -, -, hKinds, -, hExit⟩ :=
    @handleAll_keeps text 2 requests 3 .fontify rfl
  have hEnd : (classify text .normal).exit = .inside (.string .single) := by decide +kernel
  refine ⟨s, ?_, ?_⟩
  · rw [hAt, hExit rfl, hEnd]
  · rw [hKinds]
    decide +kernel

end Session

end RexxEditing
