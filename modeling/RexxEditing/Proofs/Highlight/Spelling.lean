import RexxEditing.Proofs.Highlight.Scan
import RexxEditing.Proofs.Text.Bytes

/-! # Tokens without places

Two texts that differ in their blanks have their tokens in different places. What can be compared is
the spelling of a text: the categories of its tokens and the parts of the text that they cover, in
order. The spelling is read off the pieces of the lines. A region that goes on after a line takes
the line feed and the next line with it.

* `map_reading_locate`: the tokens of the pieces of a line cover the texts of the pieces.
* `spelledFrom`: the same for lines, with the region that is open in front of them.
* `map_reading_classify`: the tokens of a text are its spelling, with their places forgotten.
-/

namespace RexxEditing

/-- The category of a token, and what it covers in the text that it was taken from. -/
def Token.reading (source : Text) (t : Token) : Kind × Option Text := (t.kind, t.text? source)

/-- The pieces of a line as categories and texts, `before` being those in front of them. -/
def Piece.spell (before : List Piece) : List Piece → List (Kind × Text)
  | [] => []
  | piece :: after =>
    ((piece.kind? before after).map (·, piece.text)).toList ++ spell (piece :: before) after

/-- A region that is open at the end of a line, and its text up to there. -/
abbrev Opened := Option (Region × Text)

/-- The region that is open after the pieces. -/
def Piece.opened (pieces : List Piece) : Opened :=
  match pieces.getLast? with
  | some (unclosed region text) => some (region, text)
  | _ => none

namespace Opened

/-- The state in which the next line is entered. -/
def state : Opened → State
  | none => .normal
  | some (region, _) => .inside region

/-- The text of the open region, which is in no token yet. -/
def text : Opened → Text
  | none => []
  | some (_, text) => text

/-- What is handed on when the region was opened at byte `start`. -/
def carry (start : Nat) : Opened → Carry
  | none => ⟨.normal, none⟩
  | some (region, _) => ⟨.inside region, some start⟩

end Opened

/-- The spelling of lines that each have a line feed in front of them, `opened` being the region
that is open there. -/
def spellLines (opened : Opened) : List Text → List (Kind × Text)
  | [] => (opened.map fun (region, text) => (region.kind, text)).toList
  | line :: rest =>
    match opened with
    | none =>
      Piece.spell [] (Piece.ofCode line) ++ spellLines (Piece.opened (Piece.ofCode line)) rest
    | some (region, text) =>
      match region.length? line with
      | none => spellLines (some (region, text ++ '\n' :: line)) rest
      | some n =>
        (region.kind, text ++ '\n' :: line.take n) ::
          (Piece.spell [.closed region (line.take n)] (Piece.ofCode (line.drop n)) ++
            spellLines (Piece.opened (Piece.ofCode (line.drop n))) rest)

/-! ## Pieces of a line -/

/-- A token in the place of a part of the text reads as that part. -/
theorem Token.reading_append (kind : Kind) (before part after : Text) :
    Token.reading (before ++ part ++ after)
        ⟨kind, before.byteSize, before.byteSize + part.byteSize⟩ = (kind, some part) := by
  simp only [reading, text?, Span.text?, Text.slice?_append]

theorem Piece.map_reading_locate (source front after : Text) (before pieces : List Piece)
    (hSource : source = front ++ pieces.flatMap text ++ after) :
    ((locate front.byteSize before pieces).filterMap Located.token?).map (Token.reading source) =
      (spell before pieces).map fun (kind, word) => (kind, some word) := by
  induction pieces generalizing front before with
  | nil => rfl
  | cons piece rest ih =>
    have hFront : source = (front ++ piece.text) ++ rest.flatMap text ++ after := by
      rw [hSource, List.flatMap_cons]
      simp only [List.append_assoc]
    have hRest := ih (front ++ piece.text) (piece :: before) hFront
    rw [Text.byteSize_append] at hRest
    rw [locate, spell]
    cases hKind : piece.kind? before rest with
    | none =>
      simp only [List.filterMap_cons, Located.token?, Option.map_none, Option.toList_none,
        List.nil_append, hRest]
    | some kind =>
      have hToken := Token.reading_append kind front piece.text (rest.flatMap text ++ after)
      rw [← List.append_assoc, ← hFront] at hToken
      simp only [List.filterMap_cons, Located.token?, Option.map_some, Option.toList_some,
        List.map_cons, List.singleton_append, hRest, hToken]

theorem LineScan.map_reading_ofCode (source front code after : Text) (before : List Piece)
    (hSource : source = front ++ code ++ after) :
    (ofCode code front.byteSize before).tokens.map (Token.reading source) =
      (Piece.spell before (Piece.ofCode code)).map fun (kind, word) => (kind, some word) := by
  apply Piece.map_reading_locate source front after before
  rw [Piece.flatMap_text_ofCode, hSource]

/-- Code hands on the region that its pieces leave open. -/
theorem LineScan.ofCode_opened (code : Text) (base : Nat) (before : List Piece) :
    ∃ done, code = done ++ (Piece.opened (Piece.ofCode code)).text ∧
      (ofCode code base before).carry =
        (Piece.opened (Piece.ofCode code)).carry (base + done.byteSize) ∧
      (Piece.opened (Piece.ofCode code) = none ∨
        (Piece.opened (Piece.ofCode code)).text ≠ []) := by
  rcases ofCode_cases code base before with
    ⟨hExit, hOpen, hComplete⟩ | ⟨init, region, text, hCode, hText, -, hExit, hOpen⟩
  · have hOpened : Piece.opened (Piece.ofCode code) = none := by
      unfold Piece.opened
      split
      · rename_i region text hLast
        have := hComplete _ (List.mem_of_getLast? hLast)
        simp [Piece.isComplete] at this
      · rfl
    rw [hOpened]
    refine ⟨code, by simp [Opened.text], ?_, Or.inl rfl⟩
    rw [carry, hExit, hOpen]
    rfl
  · have hOpened : Piece.opened (Piece.ofCode code) = some (region, text) := by
      simp [Piece.opened, hCode]
    have hParts := Piece.flatMap_text_ofCode code
    rw [hCode, List.flatMap_append] at hParts
    rw [hOpened]
    refine ⟨init.flatMap Piece.text, ?_, ?_, Or.inr hText⟩
    · simpa [Piece.text, Opened.text] using hParts.symm
    · rw [carry, hExit, hOpen]
      rfl

/-! ## Lines -/

/-- Lines with a line feed in front of each. -/
def Text.feedBefore (lines : List Text) : Text := lines.flatMap ('\n' :: ·)

theorem Text.ofLines_cons_eq (line : Text) (rest : List Text) :
    ofLines (line :: rest) = line ++ feedBefore rest := by
  induction rest generalizing line with
  | nil => simp [ofLines, feedBefore]
  | cons next rest ih =>
    rw [ofLines_cons (by simp), ih]
    simp [feedBefore]

/-- The token of a region that is open at the end of the text. -/
theorem Opened.map_reading_openToken? {opened : Opened} (h : opened = none ∨ opened.text ≠ [])
    (front : Text) :
    ((opened.carry front.byteSize).openToken? (front ++ opened.text).byteSize).toList.map
        (Token.reading (front ++ opened.text)) =
      (spellLines opened []).map fun (kind, word) => (kind, some word) := by
  cases opened with
  | none => rfl
  | some open' =>
    obtain ⟨region, waiting⟩ := open'
    have hWaiting : waiting ≠ [] := h.resolve_left (by simp)
    have hLt : front.byteSize < front.byteSize + waiting.byteSize :=
      Nat.lt_add_of_pos_right (Text.byteSize_pos hWaiting)
    have hToken := Token.reading_append region.kind front waiting []
    rw [List.append_nil] at hToken
    simp only [carry, text, Text.byteSize_append, Carry.openToken?_inside hLt, Option.toList_some,
      List.map_cons, List.map_nil, hToken, spellLines, Option.map_some]

/-- The tokens of the lines at the end of `source` are those of their spelling, whatever is in front
of the lines and whatever region is open there. -/
def SpelledFrom (source : Text) (lines : List Text) : Prop :=
  ∀ (front : Text) (opened : Opened), opened = none ∨ opened.text ≠ [] →
    source = front ++ opened.text ++ Text.feedBefore lines →
    (tokensFrom (front.byteSize + opened.text.byteSize + 1) (opened.carry front.byteSize) lines
        source.byteSize).map (Token.reading source) =
      (spellLines opened lines).map fun (kind, word) => (kind, some word)

namespace SpelledFrom

variable {source : Text} {rest : List Text}

/-- The lines after code are read from the region that the code leaves open. -/
theorem after_code (h : SpelledFrom source rest) {front code : Text} (before : List Piece)
    (hSource : source = front ++ code ++ Text.feedBefore rest) :
    (tokensFrom (front.byteSize + code.byteSize + 1)
        (LineScan.ofCode code front.byteSize before).carry rest source.byteSize).map
        (Token.reading source) =
      (spellLines (Piece.opened (Piece.ofCode code)) rest).map
        fun (kind, word) => (kind, some word) := by
  obtain ⟨done, hDone, hCarry, hNonempty⟩ := LineScan.ofCode_opened code front.byteSize before
  have hFront : source = (front ++ done) ++ (Piece.opened (Piece.ofCode code)).text ++
      Text.feedBefore rest := by
    rw [List.append_assoc front, ← hDone]
    exact hSource
  have hSize : front.byteSize + code.byteSize =
      (front ++ done).byteSize + (Piece.opened (Piece.ofCode code)).text.byteSize := by
    have hCode := congrArg Text.byteSize hDone
    rw [Text.byteSize_append] at hCode
    rw [Text.byteSize_append, hCode, Nat.add_assoc]
  have hBelow := h (front ++ done) _ hNonempty hFront
  rw [← hSize, Text.byteSize_append] at hBelow
  rw [hCarry]
  exact hBelow

/-- A line that is entered in code. -/
theorem cons_code (h : SpelledFrom source rest) {front line : Text}
    (hSource : source = front ++ Text.feedBefore (line :: rest)) :
    (tokensFrom (front.byteSize + 1) ⟨.normal, none⟩ (line :: rest) source.byteSize).map
        (Token.reading source) =
      (spellLines none (line :: rest)).map fun (kind, word) => (kind, some word) := by
  have hFront : source = (front ++ ['\n']) ++ line ++ Text.feedBefore rest := by
    rw [hSource]
    simp [Text.feedBefore]
  have hBase : front.byteSize + 1 = (front ++ ['\n']).byteSize := by
    rw [Text.byteSize_append]
    rfl
  have hTokens := LineScan.map_reading_ofCode source _ line _ [] hFront
  have hBelow := h.after_code [] hFront
  rw [hBase, tokensFrom_cons, LineScan.ofLine_normal]
  simp only [List.map_append, spellLines]
  rw [hTokens, hBelow]

/-- A line that goes to the open region as a whole. -/
theorem cons_unclosed (h : SpelledFrom source rest) {front waiting line : Text} {region : Region}
    (hLength : region.length? line = none)
    (hSource : source = front ++ waiting ++ Text.feedBefore (line :: rest)) :
    (tokensFrom (front.byteSize + waiting.byteSize + 1) ⟨.inside region, some front.byteSize⟩
        (line :: rest) source.byteSize).map (Token.reading source) =
      (spellLines (some (region, waiting)) (line :: rest)).map
        fun (kind, word) => (kind, some word) := by
  have hFront : source = front ++ (waiting ++ '\n' :: line) ++ Text.feedBefore rest := by
    rw [hSource]
    simp [Text.feedBefore]
  have hNonempty : Opened.text (some (region, waiting ++ '\n' :: line)) ≠ [] := by
    simp [Opened.text]
  have hBelow := h front _ (Or.inr hNonempty) hFront
  have hBase : front.byteSize + waiting.byteSize + 1 + line.byteSize + 1 =
      front.byteSize + (waiting ++ '\n' :: line).byteSize + 1 := by
    have hFeed : Char.utf8Size '\n' = 1 := rfl
    rw [Text.byteSize_append, Text.byteSize_cons, hFeed]
    omega
  rw [tokensFrom_cons, LineScan.ofLine_unclosed hLength, hBase]
  simp only [spellLines, hLength]
  exact hBelow

/-- A line on which the open region ends. -/
theorem cons_closed (h : SpelledFrom source rest) {front waiting line : Text} {region : Region}
    {n : Nat} (hLength : region.length? line = some n)
    (hSource : source = front ++ waiting ++ Text.feedBefore (line :: rest)) :
    (tokensFrom (front.byteSize + waiting.byteSize + 1) ⟨.inside region, some front.byteSize⟩
        (line :: rest) source.byteSize).map (Token.reading source) =
      (spellLines (some (region, waiting)) (line :: rest)).map
        fun (kind, word) => (kind, some word) := by
  -- the token of the region, and the code after it
  let word : Text := waiting ++ '\n' :: line.take n
  let code : Text := line.drop n
  have hLine : line.take n ++ code = line := List.take_append_drop n line
  have hFront : source = (front ++ word) ++ code ++ Text.feedBefore rest := by
    rw [hSource, ← hLine]
    simp [Text.feedBefore, word]
  have hWord : word.byteSize = waiting.byteSize + (1 + Text.byteSize (line.take n)) := by
    rw [Text.byteSize_append]
    rfl
  have hSize : Text.byteSize (line.take n) + code.byteSize = line.byteSize := by
    rw [← Text.byteSize_append, hLine]
  have hStop : front.byteSize + waiting.byteSize + 1 + Text.byteSize (line.take n) =
      (front ++ word).byteSize := by
    rw [Text.byteSize_append]
    omega
  have hBase : front.byteSize + waiting.byteSize + 1 + line.byteSize + 1 =
      (front ++ word).byteSize + code.byteSize + 1 := by
    omega
  have hToken : Token.reading source ⟨region.kind, front.byteSize, (front ++ word).byteSize⟩ =
      (region.kind, some word) := by
    rw [hFront, List.append_assoc, Text.byteSize_append]
    exact Token.reading_append region.kind front word _
  have hTokens := LineScan.map_reading_ofCode source _ code _ [.closed region (line.take n)] hFront
  have hBelow := h.after_code [.closed region (line.take n)] hFront
  rw [tokensFrom_cons, LineScan.ofLine_closed hLength, hStop, hBase]
  simp only [spellLines, hLength, Option.getD_some, List.cons_append, List.map_cons,
    List.map_append, hToken]
  exact congrArg _ (congr (congrArg _ hTokens) hBelow)

end SpelledFrom

/-- **Spelling of lines.** From any line on, the tokens are those of the spelling. -/
theorem spelledFrom (source : Text) (lines : List Text) : SpelledFrom source lines := by
  induction lines with
  | nil =>
    intro front opened hOpened hSource
    rw [Text.feedBefore, List.flatMap_nil, List.append_nil] at hSource
    subst hSource
    exact opened.map_reading_openToken? hOpened front
  | cons line rest ih =>
    intro front opened _ hSource
    cases opened with
    | none =>
      rw [Opened.text, List.append_nil] at hSource
      exact ih.cons_code hSource
    | some open' =>
      obtain ⟨region, waiting⟩ := open'
      cases hLength : region.length? line with
      | none => exact ih.cons_unclosed hLength hSource
      | some n => exact ih.cons_closed hLength hSource

/-- **Spelling.** The tokens of a text that is entered in code are the categories and texts of its
spelling. -/
theorem map_reading_classify {text line : Text} {rest : List Text}
    (hLines : text.lines = line :: rest) :
    (classify text .normal).tokens.map (Token.reading text) =
      (Piece.spell [] (Piece.ofCode line) ++
        spellLines (Piece.opened (Piece.ofCode line)) rest).map
          fun (kind, word) => (kind, some word) := by
  have hText : text = [] ++ line ++ Text.feedBefore rest := by
    rw [← Text.ofLines_lines text, hLines, Text.ofLines_cons_eq]
    rfl
  have hTokens := LineScan.map_reading_ofCode text [] line _ [] hText
  have hBelow := (spelledFrom text rest).after_code [] hText
  rw [classify_eq, hLines, tokensFrom_cons, LineScan.ofLine_normal]
  simp only [List.map_append]
  exact congr (congrArg _ hTokens) hBelow

end RexxEditing
