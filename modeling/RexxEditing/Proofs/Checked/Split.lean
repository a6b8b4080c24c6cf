import Mathlib.Data.PFun
import RexxEditing.Proofs.Highlight.Scan
import RexxEditing.Proofs.Text.Bytes

/-! # Splitting a line at checked offsets

A scanner that works on the bytes of a line keeps offsets. It cuts the line at an offset, lexes from
there, and starts again behind each region that it comes across. Such a run can go wrong: an offset
can lie behind the end of the line or inside a character, and a loop can go on for ever. Here `none`
stands for all of that, so a run that gives `some` has done nothing of the kind. In this and the
following modules, a checked function has the name of the plain function that it is compared with.

* `loop?`: a loop, which need not end.
* `stringEndFrom?_append`: the loop over the bytes of a string ends, at the end of the string.
* `walk?_append`: a walk over lexemes stops at the first region.
* `partsFrom?_append`: the scanner ends, and its parts are the pieces of the line.
-/

namespace RexxEditing.Checked

open Text (bytes byteSize)

/-! ## Loops -/

section Loop

variable {σ ρ : Type} {step : σ → Option (ρ ⊕ σ)} {s s' : σ} {r : ρ}

/-- The steps of a loop. A step that fails is undefined. -/
def steps (step : σ → Option (ρ ⊕ σ)) : σ →. ρ ⊕ σ := fun s => Part.ofOption (step s)

open Classical in
/-- Takes steps from a state to the next until one of them gives a result. There is none if a step
fails, or if the steps go on for ever. -/
noncomputable def loop? (step : σ → Option (ρ ⊕ σ)) (s : σ) : Option ρ :=
  ((steps step).fix s).toOption

theorem loop?_done (h : step s = some (.inl r)) : loop? step s = some r := by
  classical
  rw [loop?, Part.toOption_eq_some_iff]
  exact PFun.fix_stop (Part.mem_ofOption.2 h)

theorem loop?_next (h : step s = some (.inr s')) : loop? step s = loop? step s' := by
  have hStep : .inr s' ∈ steps step s := Part.mem_ofOption.2 h
  unfold loop?
  rw [PFun.fix_fwd_eq hStep]

end Loop

/-! ## The end of a string -/

def quoteByte : Quote → UInt8
  | .single => 0x27
  | .double => 0x22

/-- Looks at byte `pos` for the end of a string. Two quotes are passed over. -/
def stringStep? (source : List UInt8) (quote : UInt8) (pos : Nat) : Option (Option Nat ⊕ Nat) :=
  if pos < source.length then do
    let byte ← source[pos]?
    if byte = quote then
      if source[pos + 1]? = some quote then return .inr (pos + 2)
      else return .inl (some (pos + 1))
    else return .inr (pos + 1)
  else return .inl none

noncomputable def stringEndFrom? (source : List UInt8) (quote : UInt8) (pos : Nat) :
    Option (Option Nat) :=
  loop? (stringStep? source quote) pos

theorem utf8EncodeChar_quote (quote : Quote) :
    String.utf8EncodeChar quote.char = [quoteByte quote] := by
  cases quote <;> rfl

/-- The byte of a quote stands in no other character. -/
theorem quoteByte_notMem {c : Char} {quote : Quote} (h : c ≠ quote.char) :
    quoteByte quote ∉ String.utf8EncodeChar c := by
  intro hMem
  have hByte : quoteByte quote = UInt8.ofNat quote.char.toNat := by cases quote <;> rfl
  have hAscii : quote.char.toNat ≤ 0x7f := by cases quote <;> decide
  rw [hByte] at hMem
  exact h ((Text.ofNat_mem_utf8EncodeChar_iff hAscii).1 hMem)

theorem stringEndFrom?_length (source : List UInt8) (quote : UInt8) :
    stringEndFrom? source quote source.length = some none := by
  apply loop?_done
  rw [stringStep?, if_neg (Nat.lt_irrefl _)]
  rfl

theorem stringStep?_append (front rest : List UInt8) (byte quote : UInt8) :
    stringStep? (front ++ byte :: rest) quote front.length =
      some (if byte = quote then
        if rest.head? = some quote then .inr (front.length + 2)
        else .inl (some (front.length + 1))
      else .inr (front.length + 1)) := by
  have hByte : (front ++ byte :: rest)[front.length]? = some byte := by
    rw [List.getElem?_append_right (Nat.le_refl _), Nat.sub_self, List.getElem?_cons_zero]
  have hNext : (front ++ byte :: rest)[front.length + 1]? = rest.head? := by
    rw [List.getElem?_append_right (Nat.le_add_right _ 1), Nat.add_sub_cancel_left,
      List.getElem?_cons_succ, List.head?_eq_getElem?]
  have hLess : front.length < (front ++ byte :: rest).length := by
    rw [List.length_append, List.length_cons]
    omega
  rw [stringStep?, if_pos hLess, hByte, hNext]
  simp only [Option.bind_eq_bind, Option.bind_some]
  split
  · split <;> rfl
  · rfl

theorem stringEndFrom?_skip (front rest : List UInt8) {skip : List UInt8} {quote : UInt8}
    (h : quote ∉ skip) :
    stringEndFrom? (front ++ (skip ++ rest)) quote front.length =
      stringEndFrom? (front ++ (skip ++ rest)) quote (front.length + skip.length) := by
  induction skip generalizing front with
  | nil => rfl
  | cons byte skip ih =>
    rw [List.mem_cons, not_or] at h
    have hRest := ih (front ++ [byte]) h.2
    rw [List.append_assoc, List.singleton_append, List.length_append, List.length_singleton]
      at hRest
    have hStep := stringStep?_append front (skip ++ rest) byte quote
    rw [if_neg (Ne.symm h.1)] at hStep
    rw [List.cons_append, stringEndFrom?, loop?_next hStep]
    refine hRest.trans ?_
    rw [List.length_cons, Nat.add_assoc, Nat.add_comm 1]

/-- A character other than the quote is passed over as a whole. -/
theorem stringEndFrom?_cons {quote : Quote} {c : Char} (h : c ≠ quote.char) (before rest : Text) :
    stringEndFrom? (bytes (before ++ c :: rest)) (quoteByte quote) before.byteSize =
      stringEndFrom? (bytes ((before ++ [c]) ++ rest)) (quoteByte quote)
        (byteSize (before ++ [c])) := by
  have hSkip := stringEndFrom?_skip before.bytes rest.bytes (quoteByte_notMem h)
  rw [Text.length_bytes, String.length_utf8EncodeChar] at hSkip
  rw [List.append_assoc, List.singleton_append, Text.byteSize_append, Text.byteSize_cons,
    Text.byteSize_nil, Nat.add_zero, Text.bytes_append, Text.bytes_cons]
  exact hSkip

theorem stringStep?_quote (quote : Quote) (before rest : Text) :
    stringStep? (bytes (before ++ quote.char :: rest)) (quoteByte quote) before.byteSize =
      some (if (bytes rest).head? = some (quoteByte quote) then .inr (before.byteSize + 2)
      else .inl (some (before.byteSize + 1))) := by
  have hStep := stringStep?_append before.bytes rest.bytes (quoteByte quote) (quoteByte quote)
  rw [if_pos rfl, Text.length_bytes] at hStep
  rw [Text.bytes_append, Text.bytes_cons, utf8EncodeChar_quote]
  exact hStep

theorem head?_bytes_ne {quote : Quote} {c : Char} (h : c ≠ quote.char) (rest : Text) :
    (bytes (c :: rest)).head? ≠ some (quoteByte quote) := by
  intro hHead
  apply quoteByte_notMem h
  rw [Text.bytes_cons] at hHead
  cases hBytes : String.utf8EncodeChar c with
  | nil =>
    have hLength := String.length_utf8EncodeChar c
    have hPos := c.utf8Size_pos
    rw [hBytes, List.length_nil] at hLength
    omega
  | cons byte more =>
    rw [hBytes, List.cons_append, List.head?_cons] at hHead
    rw [Option.some.inj hHead]
    exact List.mem_cons_self

/-- **The end of a string.** The loop ends, at the first quote that is not doubled. -/
theorem stringEndFrom?_append (quote : Quote) (before rest : Text) :
    stringEndFrom? (bytes (before ++ rest)) (quoteByte quote) before.byteSize =
      some ((Region.stringLength? quote.char rest).map fun n =>
        before.byteSize + byteSize (rest.take n)) := by
  have hSize : quote.char.utf8Size = 1 := by cases quote <;> rfl
  generalize hChar : quote.char = char
  fun_induction Region.stringLength? char rest generalizing before with
  | case1 =>
    rw [List.append_nil, ← Text.length_bytes]
    exact stringEndFrom?_length _ _
  | case2 =>
    subst hChar
    refine (loop?_done (stringStep?_quote quote before [])).trans ?_
    simp [hSize]
  | case3 c hc =>
    subst hChar
    rw [stringEndFrom?_cons hc, List.append_nil, ← Text.length_bytes]
    exact stringEndFrom?_length _ _
  | case4 cs ih =>
    subst hChar
    have hStep := stringStep?_quote quote before (quote.char :: cs)
    rw [if_pos (by rw [Text.bytes_cons, utf8EncodeChar_quote]; rfl)] at hStep
    have hTwo : byteSize (before ++ [quote.char, quote.char]) = before.byteSize + 2 := by
      simp [hSize]
    have hRest := ih (before ++ [quote.char, quote.char])
    rw [hTwo, List.append_assoc] at hRest
    rw [stringEndFrom?, loop?_next hStep, Option.map_map]
    refine hRest.trans (congrArg some (Option.map_congr fun n _ => ?_))
    simp only [Function.comp_apply, List.take_succ_cons, Text.byteSize_cons, hSize]
    omega
  | case5 d cs hd =>
    subst hChar
    have hStep := stringStep?_quote quote before (d :: cs)
    rw [if_neg (head?_bytes_ne hd cs)] at hStep
    refine (loop?_done hStep).trans ?_
    simp [hSize]
  | case6 c d cs hc ih =>
    subst hChar
    rw [stringEndFrom?_cons hc, ih (before ++ [c]), Option.map_map]
    refine congrArg some (Option.map_congr fun n _ => ?_)
    simp only [Function.comp_apply, List.take_succ_cons, Text.byteSize_cons, Text.byteSize_append,
      Text.byteSize_nil]
    omega

/-! ## Parts of a line -/

/-- The end of a region, looked for from byte `start` on. -/
noncomputable def regionEnd? (line : Text) (region : Region) (start : Nat) : Option (Option Nat) :=
  match region with
  | .comment => some (Region.commentEnd? line start)
  | .string quote => stringEndFrom? line.bytes (quoteByte quote) start

theorem regionEnd?_append (region : Region) (before rest : Text) :
    regionEnd? (before ++ rest) region before.byteSize =
      some ((region.length? rest).map fun n => before.byteSize + byteSize (rest.take n)) := by
  cases region with
  | comment =>
    rw [regionEnd?, Region.commentEnd?, Text.cut?_append, Region.length?]
    simp only [Option.bind_eq_bind, Option.bind_some]
    cases Region.commentLength? rest <;> rfl
  | string quote => exact stringEndFrom?_append quote before rest

/-- What the scanner takes a part of a line for. -/
inductive Part where
  | code (shape : Lexeme.Shape)
  /-- A character that starts no lexeme. -/
  | unknown
  /-- A comment or a string that ends on the line. -/
  | region (kind : Kind)
  deriving DecidableEq, Repr

/-- A part of a line and the bytes that it covers. -/
structure Placed where
  part : Part
  span : Span
  deriving DecidableEq, Repr

/-- Where a walk over lexemes stops. -/
inductive Stop where
  /-- At the end of the line. -/
  | finished
  /-- Behind a region. The rest of the line is to be lexed again from the byte on. -/
  | resume (pos : Nat)
  /-- In a region that starts at the byte and does not end. -/
  | opened (region : Region) (start : Nat)
  deriving DecidableEq, Repr

/-- Walks over lexemes of a line up to the first region. -/
noncomputable def walk? (line : Text) : List Lexeme.Located → Option (List Placed × Stop)
  | [] => some ([], .finished)
  | ⟨lexeme, span⟩ :: rest =>
    match lexeme.shape? with
    | none => (walk? line rest).map fun (parts, stop) => (⟨.unknown, span⟩ :: parts, stop)
    | some shape =>
      match shape.region? with
      | some region => do
        match ← regionEnd? line region span.stop with
        | some stop => return ([⟨.region region.kind, span.start, stop⟩], .resume stop)
        | none => return ([], .opened region span.start)
      | none =>
        if shape.isSpace then walk? line rest
        else if shape.isLineCommentOpener && Region.opensLineComment line span.stop then
          some ([⟨.region .comment, span.start, line.byteSize⟩], .finished)
        else (walk? line rest).map fun (parts, stop) => (⟨.code shape, span⟩ :: parts, stop)

/-- One round of the scanner: it lexes the line from byte `pos` on, up to the next region. -/
noncomputable def partsStep? (line : Text) (parts : List Placed) (pos : Nat) :
    Option ((List Placed × Option (Region × Nat)) ⊕ (List Placed × Nat)) := do
  let lexemes ← Lexeme.lexFrom? line pos
  let (more, stop) ← walk? line lexemes
  match stop with
  | .finished => return .inl (parts ++ more, none)
  | .opened region start => return .inl (parts ++ more, some (region, start))
  | .resume next => return .inr (parts ++ more, next)

/-- The parts of a line from byte `pos` on, and the region that does not end with its start. -/
noncomputable def partsFrom? (line : Text) (pos : Nat) :
    Option (List Placed × Option (Region × Nat)) :=
  loop? (fun (parts, pos) => partsStep? line parts pos) ([], pos)

/-- What the scanner takes a piece for. It passes over blanks, and a region that does not end is no
part. -/
def part? : Piece → Option Part
  | .blank _ | .unclosed _ _ => none
  | .code shape _ => some (.code shape)
  | .unknown _ => some .unknown
  | .closed region _ => some (.region region.kind)
  | .lineComment _ => some (.region .comment)

/-- The parts that pieces from byte `pos` on are. -/
def placed (pos : Nat) : List Piece → List Placed
  | [] => []
  | piece :: rest =>
    let stop := pos + piece.text.byteSize
    ((part? piece).map (⟨·, pos, stop⟩)).toList ++ placed stop rest

/-- The region among pieces from byte `pos` on that does not end. -/
def openedIn (pos : Nat) : List Piece → Option (Region × Nat)
  | [] => none
  | .unclosed region _ :: _ => some (region, pos)
  | piece :: rest => openedIn (pos + piece.text.byteSize) rest

/-- What a walk over the lexemes of `code`, from byte `pos` on, has to give. -/
def WalksTo (pos : Nat) (code : Text) (parts : List Placed) : Stop → Prop
  | .finished => placed pos (Piece.ofCode code) = parts ∧ openedIn pos (Piece.ofCode code) = none
  | .opened region start =>
    placed pos (Piece.ofCode code) = parts ∧
      openedIn pos (Piece.ofCode code) = some (region, start)
  | .resume next =>
    ∃ done rest, code = done ++ rest ∧ done ≠ [] ∧ next = pos + byteSize done ∧
      placed pos (Piece.ofCode code) = parts ++ placed next (Piece.ofCode rest) ∧
      openedIn pos (Piece.ofCode code) = openedIn next (Piece.ofCode rest)

theorem openedIn_cons {piece : Piece} (h : piece.isComplete = true) (pos : Nat)
    (rest : List Piece) :
    openedIn pos (piece :: rest) = openedIn (pos + piece.text.byteSize) rest := by
  cases piece with
  | unclosed => cases h
  | _ => rfl

/-- A piece in front of a walk. -/
theorem WalksTo.cons {piece : Piece} (hPiece : piece.isComplete = true) {pos : Nat}
    {code rest : Text} (hText : code = piece.text ++ rest)
    (hCode : Piece.ofCode code = piece :: Piece.ofCode rest) {parts : List Placed} {stop : Stop}
    (h : WalksTo (pos + piece.text.byteSize) rest parts stop) :
    WalksTo pos code
      (((part? piece).map (⟨·, pos, pos + piece.text.byteSize⟩)).toList ++ parts) stop := by
  unfold WalksTo at h ⊢
  rw [hCode, placed, openedIn_cons hPiece]
  cases stop with
  | finished | opened =>
    obtain ⟨hParts, hOpened⟩ := h
    exact ⟨by rw [hParts], hOpened⟩
  | resume next =>
    obtain ⟨done, tail, hDone, hNe, hNext, hParts, hOpened⟩ := h
    refine ⟨piece.text ++ done, tail, ?_, ?_, ?_, ?_, hOpened⟩
    · rw [hText, hDone, List.append_assoc]
    · exact List.append_ne_nil_of_right_ne_nil _ hNe
    · rw [hNext, Text.byteSize_append, Nat.add_assoc]
    · rw [hParts, List.append_assoc]

/-- A walk that stops behind a region. -/
theorem WalksTo.closed {region : Region} {opener rest code : Text} (hNe : opener ≠ [])
    (hText : opener ++ rest = code) {n : Nat}
    (hCode : Piece.ofCode code =
      .closed region (opener ++ rest.take n) :: Piece.ofCode (rest.drop n)) (pos : Nat) :
    let stop := pos + opener.byteSize + byteSize (rest.take n)
    WalksTo pos code [⟨.region region.kind, pos, stop⟩] (.resume stop) := by
  intro stop
  have hStop : stop = pos + byteSize (opener ++ rest.take n) := by
    rw [Text.byteSize_append, ← Nat.add_assoc]
  refine ⟨opener ++ rest.take n, rest.drop n, ?_, ?_, hStop, ?_, ?_⟩
  · rw [List.append_assoc, List.take_append_drop, hText]
  · exact List.append_ne_nil_of_left_ne_nil hNe _
  · rw [hCode, placed, hStop]
    rfl
  · rw [hCode, openedIn_cons rfl, hStop]
    rfl

theorem opensLineComment_append (front rest : Text) :
    Region.opensLineComment (front ++ rest) front.byteSize = Region.startsLineComment rest := by
  rw [Region.opensLineComment, Text.cut?_append]
  rfl

section Walk

variable {before front rest code : Text} {lexeme : Lexeme} {shape : Lexeme.Shape}

/-- A walk stops at a region. -/
theorem walk?_region (hText : lexeme.text ++ rest = code) (hNe : lexeme.text ≠ [])
    (hFront : front.byteSize = before.byteSize + lexeme.text.byteSize)
    (hShape : lexeme.shape? = some shape) {region : Region} (hRegion : shape.region? = some region)
    (hClosed : ∀ n, region.length? rest = some n → Piece.ofCode code =
      .closed region (lexeme.text ++ rest.take n) :: Piece.ofCode (rest.drop n))
    (hUnclosed : region.length? rest = none → Piece.ofCode code =
      [.unclosed region (lexeme.text ++ rest)]) (more : List Lexeme.Located) :
    ∃ parts stop,
      walk? (front ++ rest) (⟨lexeme, before.byteSize, front.byteSize⟩ :: more) =
          some (parts, stop) ∧
        WalksTo before.byteSize code parts stop := by
  simp only [walk?, hShape, hRegion, regionEnd?_append]
  cases hEnd : region.length? rest with
  | none =>
    refine ⟨[], .opened region before.byteSize, rfl, ?_⟩
    rw [WalksTo, hUnclosed hEnd]
    exact ⟨rfl, rfl⟩
  | some n =>
    refine ⟨_, .resume (front.byteSize + byteSize (rest.take n)), rfl, ?_⟩
    rw [hFront]
    exact WalksTo.closed hNe hText (hClosed n hEnd) before.byteSize

/-- A walk ends at a line comment. -/
theorem walk?_lineComment (hFront : front.byteSize = before.byteSize + lexeme.text.byteSize)
    (hShape : lexeme.shape? = some shape) (hRegion : shape.region? = none)
    (hSpace : ¬ shape.isSpace = true)
    (hOpens : (shape.isLineCommentOpener && Region.startsLineComment rest) = true)
    (hCode : Piece.ofCode code = [.lineComment (lexeme.text ++ rest)])
    (more : List Lexeme.Located) :
    ∃ parts stop,
      walk? (front ++ rest) (⟨lexeme, before.byteSize, front.byteSize⟩ :: more) =
          some (parts, stop) ∧
        WalksTo before.byteSize code parts stop := by
  simp only [walk?, hShape, hRegion, opensLineComment_append, if_neg hSpace, if_pos hOpens]
  refine ⟨_, .finished, rfl, ?_⟩
  rw [WalksTo, hCode]
  refine ⟨?_, rfl⟩
  simp [placed, part?, Piece.text, hFront, Nat.add_assoc]

end Walk

/-- **A walk over lexemes** gives the pieces of the code up to the first region. -/
theorem walk?_append (before code : Text) :
    ∃ parts stop,
      walk? (before ++ code) (Lexeme.locate before.byteSize (Lexeme.lexemes code)) =
          some (parts, stop) ∧
        WalksTo before.byteSize code parts stop := by
  induction hLength : code.length using Nat.strongRecOn generalizing before code with
  | ind length ih =>
    subst hLength
    cases code with
    | nil =>
      rw [Lexeme.lexemes]
      exact ⟨[], .finished, rfl, by rw [WalksTo, Piece.ofCode]; exact ⟨rfl, rfl⟩⟩
    | cons c cs =>
      have hNe : (Lexeme.first c cs).text ≠ [] := List.cons_ne_nil _ _
      have hText := Lexeme.first_append_rest c cs
      have hLine : before ++ c :: cs =
          (before ++ (Lexeme.first c cs).text) ++ Lexeme.rest c cs := by
        rw [List.append_assoc, hText]
      have hFront := Text.byteSize_append before (Lexeme.first c cs).text
      have hWalk := ih _ (Lexeme.length_rest_lt c cs) (before ++ (Lexeme.first c cs).text)
        (Lexeme.rest c cs) rfl
      have hCode := Piece.ofCode.eq_2 c cs
      rw [hLine, Lexeme.lexemes, Lexeme.locate, ← hFront]
      -- from here on the case of the first lexeme matters, and not how it was found
      generalize before ++ (Lexeme.first c cs).text = front at hFront hWalk ⊢
      generalize Lexeme.rest c cs = rest at hText hWalk hCode ⊢
      generalize Lexeme.first c cs = lexeme at hNe hText hFront hCode ⊢
      obtain ⟨parts, stop, hWalk, hTo⟩ := hWalk
      rw [hFront] at hTo
      cases hShape : lexeme.shape? with
      | none =>
        simp only [hShape] at hCode
        simp only [walk?, hShape, hWalk]
        refine ⟨⟨.unknown, before.byteSize, front.byteSize⟩ :: parts, stop, rfl, ?_⟩
        rw [hFront]
        exact WalksTo.cons rfl hText.symm hCode hTo
      | some shape =>
        simp only [hShape] at hCode
        cases hRegion : shape.region? with
        | some region =>
          simp only [hRegion] at hCode
          exact walk?_region hText hNe hFront hShape hRegion (fun n hEnd => by rw [hCode, hEnd])
            (fun hEnd => by rw [hCode, hEnd]) _
        | none =>
          simp only [hRegion] at hCode
          by_cases hSpace : shape.isSpace = true
          · have hOpener : shape.isLineCommentOpener = false := by cases shape <;> trivial
            rw [hOpener, Bool.false_and, if_neg Bool.false_ne_true, if_pos hSpace] at hCode
            simp only [walk?, hShape, hRegion, if_pos hSpace]
            exact ⟨parts, stop, hWalk, WalksTo.cons rfl hText.symm hCode hTo⟩
          · rw [if_neg hSpace] at hCode
            split at hCode
            next hOpens => exact walk?_lineComment hFront hShape hRegion hSpace hOpens hCode _
            next hOpens =>
              simp only [walk?, hShape, hRegion, opensLineComment_append, if_neg hSpace,
                if_neg hOpens, hWalk]
              refine ⟨⟨.code shape, before.byteSize, front.byteSize⟩ :: parts, stop, rfl, ?_⟩
              rw [hFront]
              exact WalksTo.cons rfl hText.symm hCode hTo

/-- **The parts of a line.** The scanner ends, all of its cuts are in order, and its parts are the
pieces of the code. -/
theorem partsFrom?_append (before code : Text) :
    partsFrom? (before ++ code) before.byteSize =
      some (placed before.byteSize (Piece.ofCode code),
        openedIn before.byteSize (Piece.ofCode code)) := by
  -- the scanner goes on behind a region, on a shorter rest of the line
  suffices hLoop : ∀ parts, loop? (fun (parts, pos) => partsStep? (before ++ code) parts pos)
      (parts, before.byteSize) =
        some (parts ++ placed before.byteSize (Piece.ofCode code),
          openedIn before.byteSize (Piece.ofCode code)) from
    hLoop []
  induction hLength : code.length using Nat.strongRecOn generalizing before code with
  | ind length ih =>
    subst hLength
    intro parts
    obtain ⟨more, stop, hWalk, hTo⟩ := walk?_append before code
    have hStep : partsStep? (before ++ code) parts before.byteSize =
        some (match stop with
          | .finished => .inl (parts ++ more, none)
          | .opened region start => .inl (parts ++ more, some (region, start))
          | .resume next => .inr (parts ++ more, next)) := by
      rw [partsStep?, Lexeme.lexFrom?, Text.cut?_append]
      simp only [Option.map_some, Option.bind_eq_bind, Option.bind_some, hWalk]
      cases stop <;> rfl
    cases stop with
    | finished | opened =>
      obtain ⟨hParts, hOpened⟩ := hTo
      rw [hParts, hOpened]
      exact loop?_done hStep
    | resume next =>
      obtain ⟨done, rest, rfl, hNe, rfl, hParts, hOpened⟩ := hTo
      have hLess : rest.length < (done ++ rest).length := by
        rw [List.length_append]
        have := List.length_pos_iff.2 hNe
        omega
      have hRest := ih _ hLess (before ++ done) rest rfl (parts ++ more)
      rw [List.append_assoc, Text.byteSize_append] at hRest
      rw [loop?_next hStep, hParts, hOpened, ← List.append_assoc parts]
      exact hRest

end RexxEditing.Checked
