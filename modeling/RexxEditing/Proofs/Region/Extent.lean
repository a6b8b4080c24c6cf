import Mathlib.Data.List.Infix
import RexxEditing.Proofs.Highlight.Delimiter
import RexxEditing.Proofs.Text.Bytes

/-! # What belongs to a region

A region goes on as long as its text holds no end: a comment as long as there is no `*/`, a string
as long as every quote in it is doubled. It ends with the first end, wherever lines end. So a region
is found line by line where it would be found in the whole text.

* `length?_cases`: a text stays in a region, or it is cut in the region, its closer and the rest.
* `length?_of_isOpen`, `length?_of_closer`: each of the two decides where the region ends.
* `length?_append_separator`: a separator neither ends a region nor keeps it from going on.
-/

namespace RexxEditing

open Text (isSeparator)

/-! ## Doubled quotes -/

namespace Text

/-- The text with every `quote` in it doubled. -/
def doubled (quote : Char) (t : Text) : Text :=
  t.flatMap fun c => if c = quote then [quote, quote] else [c]

theorem doubled_cons_self (quote : Char) (t : Text) :
    doubled quote (quote :: t) = quote :: quote :: doubled quote t := by
  simp [doubled]

theorem doubled_cons_of_ne {quote c : Char} (h : c ≠ quote) (t : Text) :
    doubled quote (c :: t) = c :: doubled quote t := by
  simp [doubled, h]

theorem doubled_append (quote : Char) (s t : Text) :
    doubled quote (s ++ t) = doubled quote s ++ doubled quote t :=
  List.flatMap_append

end Text

namespace Region

open Text (doubled)

theorem stringLength?_cons_of_ne {quote c : Char} (h : c ≠ quote) (t : Text) :
    stringLength? quote (c :: t) = (stringLength? quote t).map (· + 1) := by
  cases t with
  | nil => simp [stringLength?, h]
  | cons d rest => rw [stringLength?, if_neg h]

theorem stringLength?_quote {quote : Char} {rest : Text} (h : rest.head? ≠ some quote) :
    stringLength? quote (quote :: rest) = some 1 := by
  cases rest with
  | nil => simp [stringLength?]
  | cons d rest =>
    have hd : d ≠ quote := by simpa using h
    simp [stringLength?, hd]

theorem stringLength?_doubled_append (quote : Char) (w rest : Text) :
    stringLength? quote (doubled quote w ++ rest) =
      (stringLength? quote rest).map (· + (doubled quote w).length) := by
  induction w with
  | nil => simp [doubled]
  | cons c w ih =>
    by_cases hc : c = quote
    · subst hc
      rw [Text.doubled_cons_self, List.cons_append, List.cons_append, stringLength?, if_pos rfl,
        if_pos rfl, ih, Option.map_map]
      rfl
    · rw [Text.doubled_cons_of_ne hc, List.cons_append, stringLength?_cons_of_ne hc, ih,
        Option.map_map]
      rfl

theorem exists_doubled (quote : Char) (t : Text) :
    (∃ w, t = doubled quote w) ∨
      ∃ w rest, t = doubled quote w ++ quote :: rest ∧ rest.head? ≠ some quote := by
  fun_induction stringLength? quote t with
  | case1 => exact Or.inl ⟨[], rfl⟩
  | case2 => exact Or.inr ⟨[], [], rfl, by simp⟩
  | case3 c hc => exact Or.inl ⟨[c], by simp [doubled, hc]⟩
  | case4 cs ih =>
    rcases ih with ⟨w, hw⟩ | ⟨w, rest, hw, hRest⟩
    · exact Or.inl ⟨quote :: w, by rw [Text.doubled_cons_self, hw]⟩
    · exact Or.inr ⟨quote :: w, rest, by rw [Text.doubled_cons_self, hw]; rfl, hRest⟩
  | case5 d cs hd => exact Or.inr ⟨[], d :: cs, rfl, by simpa using hd⟩
  | case6 c d cs hc ih =>
    rcases ih with ⟨w, hw⟩ | ⟨w, rest, hw, hRest⟩
    · exact Or.inl ⟨c :: w, by rw [Text.doubled_cons_of_ne hc, hw]⟩
    · exact Or.inr ⟨c :: w, rest, by rw [Text.doubled_cons_of_ne hc, hw]; rfl, hRest⟩

/-! ## The first end of a comment -/

theorem commentLength?_eq_none {t : Text} (h : ¬ ['*', '/'] <:+: t) : commentLength? t = none := by
  fun_induction commentLength? t with
  | case1 => rfl
  | case2 rest => exact absurd (List.prefix_append ['*', '/'] rest).isInfix h
  | case3 c cs _ ih =>
    rw [ih fun hInfix => h (hInfix.trans (List.infix_cons List.infix_rfl))]
    rfl

theorem commentLength?_append_closer {body : Text} (h : ¬ ['*', '/'] <:+: body) (rest : Text) :
    commentLength? (body ++ '*' :: '/' :: rest) = some (body.length + 2) := by
  induction body with
  | nil => rfl
  | cons c body ih =>
    have hBody : ¬ ['*', '/'] <:+: body := fun hInfix =>
      h (hInfix.trans (List.infix_cons List.infix_rfl))
    rw [List.cons_append, commentLength?_cons, ih hBody]
    · rfl
    · rintro more rfl hMore
      cases body with
      | nil => cases hMore
      | cons d body =>
        obtain ⟨rfl, -⟩ := List.cons.inj hMore
        exact h (List.prefix_append ['*', '/'] body).isInfix

theorem exists_closer (t : Text) :
    ¬ ['*', '/'] <:+: t ∨
      ∃ body rest, t = body ++ '*' :: '/' :: rest ∧ ¬ ['*', '/'] <:+: body := by
  fun_induction commentLength? t with
  | case1 => exact Or.inl (by simp)
  | case2 rest => exact Or.inr ⟨[], rest, rfl, by simp⟩
  | case3 c cs hOpen ih =>
    have hCons {body : Text} (hBody : ¬ ['*', '/'] <:+: body) (hPrefix : body <+: cs) :
        ¬ ['*', '/'] <:+: c :: body := by
      intro hInfix
      rcases List.infix_cons_iff.1 hInfix with ⟨rest, hRest⟩ | hInfix
      · obtain ⟨rfl, rfl⟩ := List.cons.inj hRest
        obtain ⟨more, rfl⟩ := hPrefix
        exact hOpen (rest ++ more) rfl rfl
      · exact hBody hInfix
    rcases ih with hNone | ⟨body, rest, rfl, hBody⟩
    · exact Or.inl (hCons hNone List.prefix_rfl)
    · exact Or.inr ⟨c :: body, rest, rfl, hCons hBody (List.prefix_append _ _)⟩

/-! ## Regions -/

/-- What a region ends with. -/
def closer : Region → Text
  | .comment => ['*', '/']
  | .string quote => [quote.char]

/-- Whether a region that is entered before the text goes on after it. -/
def IsOpen : Region → Text → Prop
  | .comment, t => ¬ ['*', '/'] <:+: t
  | .string quote, t => ∃ w, t = doubled quote.char w

/-- Whether a region can end in front of the text: a quote that follows the end of a string would go
on with it. -/
def CanEndBefore : Region → Text → Prop
  | .comment, _ => True
  | .string quote, rest => rest.head? ≠ some quote.char

theorem length?_of_isOpen {region : Region} {t : Text} (h : region.IsOpen t) :
    region.length? t = none := by
  cases region with
  | comment => exact commentLength?_eq_none h
  | string quote =>
    obtain ⟨w, rfl⟩ := h
    have hNone := stringLength?_doubled_append quote.char w []
    rw [List.append_nil] at hNone
    exact hNone

theorem length?_of_closer {region : Region} {body rest : Text} (hBody : region.IsOpen body)
    (hRest : region.CanEndBefore rest) :
    region.length? (body ++ region.closer ++ rest) = some (body ++ region.closer).length := by
  rw [List.append_assoc, List.length_append]
  cases region with
  | comment => exact commentLength?_append_closer hBody rest
  | string quote =>
    obtain ⟨w, rfl⟩ := hBody
    have hLength := stringLength?_doubled_append quote.char w (quote.char :: rest)
    rw [stringLength?_quote hRest, Option.map_some, Nat.add_comm] at hLength
    exact hLength

/-- **A text in a region.** It stays in the region as a whole, or the region ends in it. -/
theorem length?_cases (region : Region) (t : Text) :
    (region.IsOpen t ∧ region.length? t = none) ∨
      ∃ body rest, t = body ++ region.closer ++ rest ∧ region.IsOpen body ∧
        region.CanEndBefore rest ∧
        region.length? t = some (body ++ region.closer).length := by
  have hOpen : region.IsOpen t ∨ ∃ body rest, t = body ++ region.closer ++ rest ∧
      region.IsOpen body ∧ region.CanEndBefore rest := by
    cases region with
    | comment =>
      rcases exists_closer t with hNone | ⟨body, rest, rfl, hBody⟩
      · exact Or.inl hNone
      · exact Or.inr ⟨body, rest, by simp [closer], hBody, trivial⟩
    | string quote =>
      rcases exists_doubled quote.char t with hNone | ⟨w, rest, rfl, hRest⟩
      · exact Or.inl hNone
      · exact Or.inr ⟨_, rest, by simp [closer], ⟨w, rfl⟩, hRest⟩
  rcases hOpen with hOpen | ⟨body, rest, rfl, hBody, hRest⟩
  · exact Or.inl ⟨hOpen, length?_of_isOpen hOpen⟩
  · exact Or.inr ⟨body, rest, rfl, hBody, hRest, length?_of_closer hBody hRest⟩

/-- The part of a text up to the end of a region, and what the rest of it cannot be. -/
theorem exists_closer_of_length? {region : Region} {t : Text} {n : Nat}
    (h : region.length? t = some n) :
    ∃ body, t.take n = body ++ region.closer ∧ region.IsOpen body ∧
      region.CanEndBefore (t.drop n) := by
  rcases region.length?_cases t with ⟨-, hNone⟩ | ⟨body, rest, rfl, hBody, hRest, hSome⟩
  · rw [hNone] at h
    cases h
  · obtain rfl := Option.some.inj (hSome.symm.trans h)
    refine ⟨body, List.take_left, hBody, ?_⟩
    rwa [List.drop_left]

/-! ## Separators -/

theorem isOpen_append_separator {region : Region} {s t : Text} {c : Char}
    (hc : isSeparator c = true) (hs : region.IsOpen s) (ht : region.IsOpen t) :
    region.IsOpen (s ++ c :: t) := by
  cases region with
  | comment =>
    have hMarks : c ≠ '*' ∧ c ≠ '/' := by
      constructor <;> (rintro rfl; cases hc)
    rintro ⟨before, after, hInfix⟩
    rw [List.append_assoc] at hInfix
    -- the end would lie in one of the parts, or the separator would be one of its marks
    rcases List.append_eq_append_iff.1 hInfix with ⟨more, rfl, hMore⟩ | ⟨more, rfl, hMore⟩
    · cases more with
      | nil =>
        obtain ⟨hStar, -⟩ := List.cons.inj hMore
        exact hMarks.1 hStar.symm
      | cons d more =>
        obtain ⟨rfl, hTail⟩ := List.cons.inj hMore
        cases more with
        | nil =>
          obtain ⟨hSlash, -⟩ := List.cons.inj hTail
          exact hMarks.2 hSlash.symm
        | cons e more =>
          obtain ⟨rfl, -⟩ := List.cons.inj hTail
          exact hs ⟨before, more, by simp⟩
    · cases more with
      | nil =>
        obtain ⟨hStar, -⟩ := List.cons.inj hMore
        exact hMarks.1 hStar
      | cons d more =>
        obtain ⟨-, hTail⟩ := List.cons.inj hMore
        exact ht ⟨more, after, by rw [hTail]; simp⟩
  | string quote =>
    have hQuote : c ≠ quote.char := by
      rintro rfl
      cases quote <;> cases hc
    obtain ⟨v, rfl⟩ := hs
    obtain ⟨w, rfl⟩ := ht
    exact ⟨v ++ c :: w, by rw [Text.doubled_append, Text.doubled_cons_of_ne hQuote]⟩

theorem canEndBefore_append_separator {region : Region} {s : Text} {c : Char}
    (hc : isSeparator c = true) (hs : region.CanEndBefore s) (t : Text) :
    region.CanEndBefore (s ++ c :: t) := by
  cases region with
  | comment => trivial
  | string quote =>
    cases s with
    | nil =>
      intro hHead
      obtain rfl := Option.some.inj hHead
      cases quote <;> cases hc
    | cons d s => exact hs

/-- **Regions and separators.** A region that does not end before a separator goes on with what is
behind it. -/
theorem length?_append_separator {c : Char} (hc : isSeparator c = true) (region : Region)
    (s t : Text) :
    region.length? (s ++ c :: t) =
      (region.length? s).or ((region.length? t).map (· + (s.length + 1))) := by
  rcases region.length?_cases s with ⟨hOpen, hNone⟩ | ⟨body, rest, rfl, hBody, hRest, hSome⟩
  · rw [hNone, Option.none_or]
    rcases region.length?_cases t with ⟨hOpen', hNone'⟩ | ⟨body, rest, rfl, hBody, hRest, hSome⟩
    · rw [hNone', length?_of_isOpen (isOpen_append_separator hc hOpen hOpen')]
      rfl
    · have hLength := length?_of_closer (isOpen_append_separator hc hOpen hBody) hRest
      rw [hSome, Option.map_some]
      simp only [List.append_assoc, List.cons_append] at hLength ⊢
      rw [hLength]
      simp only [List.length_append, List.length_cons]
      congr 1
      omega
  · rw [hSome, Option.some_or, List.append_assoc]
    exact length?_of_closer hBody (canEndBefore_append_separator hc hRest t)

/-- A blank at the end of the text neither ends a region nor moves its end. -/
theorem length?_append_blank {b : Char} (hb : Text.isBlank b = true) (region : Region) (t : Text) :
    region.length? (t ++ [b]) = region.length? t := by
  have hSeparator : isSeparator b = true := by rw [isSeparator, hb, Bool.true_or]
  rw [length?_append_separator hSeparator, length?_nil, Option.map_none, Option.or_none]

end Region

end RexxEditing
