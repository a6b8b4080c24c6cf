import RexxEditing.Highlight.Stream

/-! # Tokens on demand are the tokens of the text

A stream scans a line only when it needs a token, and some lines have none. What it still has to
give out is settled nevertheless: the tokens in its queue, those of the lines that are left, and the
region that is open at the end. One call takes the first of them away.

* `gives_next`: what one call gives, and what is left then.
* `take_eq`: what any number of calls give.
* `take_ofText`: the calls give the tokens of the text, and the call after the last token leaves the
  stream in the state at its end.
-/

namespace RexxEditing.TokenStream

/-- The tokens that are still to come. -/
def left (s : TokenStream) : List Token :=
  let (tokens, carry) := scanLines s.base s.carry s.lines
  s.queue ++ (tokens ++ (carry.openToken? s.size).toList)

/-- The state in which a text after this one is entered. -/
def last (s : TokenStream) : State := (scanLines s.base s.carry s.lines).2.state

/-- The stream with its next line scanned. -/
def scan (s : TokenStream) (line : Text) (rest : List Text) : TokenStream :=
  let scan := LineScan.ofLine line s.base s.carry.state s.carry.openFrom
  { s with
    lines := rest
    base := s.base + line.byteSize + 1
    carry := ⟨scan.exit, scan.openFrom⟩
    queue := scan.tokens }

/-! ## One call -/

/-- Whether a call gives the first token that is still to come, and leaves the others. A call that
gives none has scanned all lines. -/
structure Gives (s : TokenStream) (result : Option Token × TokenStream) : Prop where
  token_eq : result.1 = s.left.head?
  left_eq : result.2.left = s.left.tail
  last_eq : result.2.last = s.last
  lines_eq : result.1 = none → result.2.lines = []

section Scan

variable {s : TokenStream} {line : Text} {rest : List Text}

theorem left_scan (hQueue : s.queue = []) :
    (s.scan line rest).left = { s with lines := line :: rest }.left := by
  simp only [left, scan, scanLines, hQueue, List.nil_append, List.append_assoc]

theorem last_scan : (s.scan line rest).last = { s with lines := line :: rest }.last := rfl

end Scan

theorem gives_finish (s : TokenStream) (hQueue : s.queue = []) (hLines : s.lines = []) :
    s.Gives s.finish := by
  have hLeft : s.left = (s.carry.openToken? s.size).toList := by
    simp only [left, hQueue, hLines, scanLines, List.nil_append]
  have hAfter : s.finish.2.left = [] := by
    simp only [left, finish, hQueue, hLines, scanLines, Carry.openToken?, List.nil_append]
    rfl
  refine ⟨?_, ?_, ?_, fun _ => hLines⟩
  · rw [hLeft, finish, Option.head?_toList]
  · rw [hAfter, hLeft]
    cases s.carry.openToken? s.size <;> rfl
  · simp only [last, finish, hLines, scanLines]

/-- A token that waits in the queue is given out. -/
theorem gives_queue {s : TokenStream} {token : Token} {queue : List Token}
    (h : s.queue = token :: queue) : s.Gives (some token, { s with queue }) where
  token_eq := by simp only [left, h, List.cons_append, List.head?_cons]
  left_eq := by simp only [left, h, List.cons_append, List.tail_cons]
  last_eq := rfl
  lines_eq h := nomatch h

theorem gives_advance (s : TokenStream) (hQueue : s.queue = []) (lines : List Text) :
    { s with lines }.Gives (s.advance lines) := by
  induction lines generalizing s with
  | nil => exact gives_finish { s with lines := [] } hQueue rfl
  | cons line rest ih =>
    -- a scanned line hands its tokens to the queue, which changes nothing in what is left
    have hScan {result : Option Token × TokenStream} (h : (s.scan line rest).Gives result) :
        { s with lines := line :: rest }.Gives result :=
      ⟨left_scan hQueue ▸ h.token_eq, left_scan hQueue ▸ h.left_eq, h.last_eq.trans last_scan,
        h.lines_eq⟩
    apply hScan
    rw [advance]
    cases hTokens : (LineScan.ofLine line s.base s.carry.state s.carry.openFrom).tokens with
    | cons token queue => exact gives_queue (s := s.scan line rest) hTokens
    | nil =>
      have hEmpty : s.scan line rest = { s.scan line rest with queue := s.queue } := by
        rw [hQueue, ← hTokens]
        rfl
      rw [hEmpty]
      exact ih { s.scan line rest with queue := s.queue } hQueue

/-- **One call** gives the first token that is still to come. -/
theorem gives_next (s : TokenStream) : s.Gives s.next := by
  rw [next]
  split
  · rename_i token queue hQueue
    exact gives_queue hQueue
  · rename_i hQueue
    exact gives_advance s hQueue s.lines

/-! ## Any number of calls -/

/-- The tokens that `n` calls give, and the stream after them. -/
def take (s : TokenStream) : Nat → List Token × TokenStream
  | 0 => ([], s)
  | n + 1 =>
    let (token, s') := s.next
    let (tokens, s'') := s'.take n
    (token.toList ++ tokens, s'')

/-- **Calls one after the other** give the tokens that are still to come, from the first on. -/
theorem take_eq (s : TokenStream) (n : Nat) :
    (s.take n).1 = s.left.take n ∧ (s.take n).2.left = s.left.drop n ∧
      (s.take n).2.last = s.last := by
  induction n generalizing s with
  | zero => exact ⟨rfl, rfl, rfl⟩
  | succ n ih =>
    obtain ⟨hToken, hLeft, hLast, -⟩ := s.gives_next
    obtain ⟨hTokens, hAfter, hState⟩ := ih s.next.2
    rw [hLeft] at hTokens hAfter
    refine ⟨?_, hAfter.trans ?_, hState.trans hLast⟩
    · show s.next.1.toList ++ (s.next.2.take n).1 = _
      rw [hToken, hTokens]
      cases s.left <;> simp
    · rw [List.drop_tail]

theorem lines_next {s : TokenStream} (h : s.lines = []) : s.next.2.lines = [] := by
  rw [next, h]
  split <;> rfl

theorem lines_take {s : TokenStream} (h : s.lines = []) (n : Nat) : (s.take n).2.lines = [] := by
  induction n generalizing s with
  | zero => exact h
  | succ n ih => exact ih (lines_next h)

/-- After the call that gives none, all lines are scanned. -/
theorem lines_take_of_length_lt {s : TokenStream} {n : Nat} (h : s.left.length < n) :
    (s.take n).2.lines = [] := by
  induction n generalizing s with
  | zero => cases h
  | succ n ih =>
    obtain ⟨hToken, hLeft, -, hLines⟩ := s.gives_next
    show (s.next.2.take n).2.lines = []
    by_cases hNone : s.left = []
    · rw [hNone] at hToken
      exact lines_take (hLines hToken) n
    · apply ih
      rw [hLeft, List.length_tail]
      have hPos := List.length_pos_iff.2 hNone
      omega

theorem exitState_eq_last {s : TokenStream} (h : s.lines = []) : s.exitState = s.last := by
  rw [exitState, last, h, scanLines]

/-- **The stream of a text** gives the tokens of the text. Once it has no more, it is in the state
in which a text after it is entered. -/
theorem take_ofText (text : Text) (entry : State) (n : Nat) :
    ((ofText text entry).take n).1 = (classify text entry).tokens.take n ∧
      ((classify text entry).tokens.length < n →
        ((ofText text entry).take n).2.exitState = (classify text entry).exit) := by
  have hLeft : (ofText text entry).left = (classify text entry).tokens := rfl
  obtain ⟨hTokens, -, hLast⟩ := (ofText text entry).take_eq n
  refine ⟨hLeft ▸ hTokens, fun hLess => ?_⟩
  rw [exitState_eq_last (lines_take_of_length_lt (hLeft ▸ hLess)), hLast]
  rfl

/-- A comment that is not closed is the last token, and comes after a line without tokens. -/
example :
    let stream := ofText "say 1 /* a\n\nb".toList .normal
    stream.next.2.next.2.next.1 = some ⟨.comment, 6, 13⟩ ∧
      (stream.take 4).1 = (stream.take 3).1 := by
  decide +kernel

end RexxEditing.TokenStream
