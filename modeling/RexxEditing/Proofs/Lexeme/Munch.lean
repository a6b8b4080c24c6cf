import Mathlib.Computability.RegularExpressions
import RexxEditing.Proofs.Highlight.Partition
import RexxEditing.Proofs.Lexeme.Lookahead

/-! # Longest match

The shapes of lexemes are given by thirteen regular expressions. At every place of a line the lexer
takes the longest match of any of them, and one character where none of them matches. Which
expression it is can be told from the match: no two of them match the same text.

* `Shape.pattern`: the regular expressions.
* `mem_pattern_first`: the first lexeme of a text matches the expression of its shape.
* `le_of_mem_pattern`: no match at the start of a text is longer, and none as long is of another
  shape.
* `isMunched_first`: the first lexeme of a text is the longest match.
* `lexFrom?_munches`: the lexemes of a line from some place on.
-/

namespace RexxEditing.Lexeme

open RegularExpression (char star)
open Text (isBlank)

/-! ## Classes of characters -/

/-- The characters from the first to the last. -/
def between (first last : Char) : List Char :=
  (List.range' first.toNat (last.toNat + 1 - first.toNat)).map Char.ofNat

def digits : List Char := between '0' '9'

def letters : List Char := between 'A' 'Z' ++ between 'a' 'z'

def symbolStarts : List Char := letters ++ ['_', '@', '$', '!', '?']

def symbolRests : List Char := letters ++ digits ++ ['_', '@', '#', '$', '!', '?', '.']

def blanks : List Char := [' ', '\t', '\r', '\x0c']

theorem mem_between {first last c : Char} (h : last.toNat < 0xd800) :
    c ∈ between first last ↔ first.toNat ≤ c.toNat ∧ c.toNat ≤ last.toNat := by
  simp only [between, List.mem_map, List.mem_range'_1]
  constructor
  · rintro ⟨n, hn, rfl⟩
    have hValid : n.isValidChar := Or.inl (by omega)
    have hCode : (Char.ofNat n).toNat = n := congrArg Char.toNat (dif_pos hValid)
    omega
  · intro hc
    exact ⟨c.toNat, by omega, Char.ofNat_toNat c⟩

theorem mem_digits_iff {c : Char} : c ∈ digits ↔ c.isDigit = true := by
  rw [digits, mem_between (by decide)]
  change 48 ≤ c.toNat ∧ c.toNat ≤ 57 ↔ (48 ≤ c.val && c.val ≤ 57) = true
  simp only [Bool.and_eq_true, decide_eq_true_eq, UInt32.le_iff_toNat_le]
  rfl

theorem mem_letters_iff {c : Char} : c ∈ letters ↔ c.isAlpha = true := by
  rw [letters, List.mem_append, mem_between (by decide), mem_between (by decide)]
  change (65 ≤ c.toNat ∧ c.toNat ≤ 90) ∨ (97 ≤ c.toNat ∧ c.toNat ≤ 122) ↔
    (decide (65 ≤ c.val ∧ c.val ≤ 90) || (97 ≤ c.val && c.val ≤ 122)) = true
  simp only [Bool.or_eq_true, Bool.and_eq_true, decide_eq_true_eq, UInt32.le_iff_toNat_le]
  rfl

theorem mem_symbolStarts_iff {c : Char} : c ∈ symbolStarts ↔ isSymbolStart c = true := by
  simp [symbolStarts, mem_letters_iff, isSymbolStart, isSymbolMark, or_assoc]

theorem mem_symbolRests_iff {c : Char} : c ∈ symbolRests ↔ isSymbolRest c = true := by
  simp only [symbolRests, List.mem_append, mem_letters_iff, mem_digits_iff, isSymbolRest,
    isSymbolMark, Char.isAlphanum, List.mem_cons, List.not_mem_nil, or_false, Bool.or_eq_true,
    beq_iff_eq]
  tauto

theorem mem_blanks_iff {c : Char} : c ∈ blanks ↔ isBlank c = true := by
  simp [blanks, isBlank, or_assoc]

/-! ## Patterns -/

/-- One of the characters. -/
def oneOf (cs : List Char) : RegularExpression Char := cs.foldr (fun c r => char c + r) 0

/-- One of the first characters, and then any number of the others. -/
def run (starts rests : List Char) : RegularExpression Char := oneOf starts * star (oneOf rests)

/-- The word itself. -/
def literal (word : Text) : RegularExpression Char := word.foldr (fun c r => char c * r) 1

/-- The texts of a shape. -/
def Shape.pattern : Shape → RegularExpression Char
  | commentOpen => literal ['/', '*']
  | commentClose => literal ['*', '/']
  | doubleDash => literal ['-', '-']
  | hash => literal ['#']
  | singleQuote => literal ['\'']
  | doubleQuote => literal ['"']
  | doublePipe => literal ['|', '|']
  | pipe => literal ['|']
  | colon => literal [':']
  | number =>
    run digits digits * (literal ['.'] * star (oneOf digits) + 1) +
      literal ['.'] * run digits digits
  | symbol => run symbolStarts symbolRests
  | blank => run blanks blanks
  | newline => literal ['\n']

section Matches

variable {cs starts rests w : Text}

theorem mem_oneOf_iff : w ∈ (oneOf cs).matches' ↔ ∃ c ∈ cs, w = [c] := by
  induction cs with
  | nil => simp [oneOf, Language.notMem_zero]
  | cons c cs ih =>
    have hChar : w ∈ (char c).matches' ↔ w = [c] := Iff.rfl
    have hCons : oneOf (c :: cs) = char c + oneOf cs := rfl
    rw [hCons, RegularExpression.matches'_add, Language.mem_add, ih, hChar]
    simp

theorem mem_star_oneOf_iff : w ∈ (star (oneOf cs)).matches' ↔ ∀ c ∈ w, c ∈ cs := by
  rw [RegularExpression.matches'_star, Language.mem_kstar]
  constructor
  · rintro ⟨parts, rfl, hParts⟩ c hc
    obtain ⟨part, hPart, hMem⟩ := List.mem_flatten.1 hc
    obtain ⟨d, hd, rfl⟩ := mem_oneOf_iff.1 (hParts part hPart)
    rwa [List.mem_singleton.1 hMem]
  · intro hAll
    refine ⟨w.map fun c => [c], (List.flatMap_singleton' w).symm, ?_⟩
    intro part hPart
    obtain ⟨c, hc, rfl⟩ := List.mem_map.1 hPart
    exact mem_oneOf_iff.2 ⟨c, hAll c hc, rfl⟩

theorem mem_run_iff :
    w ∈ (run starts rests).matches' ↔ ∃ c v, w = c :: v ∧ c ∈ starts ∧ ∀ d ∈ v, d ∈ rests := by
  rw [run, RegularExpression.matches'_mul, Language.mem_mul]
  constructor
  · rintro ⟨a, ha, v, hv, rfl⟩
    obtain ⟨c, hc, rfl⟩ := mem_oneOf_iff.1 ha
    exact ⟨c, v, rfl, hc, mem_star_oneOf_iff.1 hv⟩
  · rintro ⟨c, v, rfl, hc, hv⟩
    exact ⟨[c], mem_oneOf_iff.2 ⟨c, hc, rfl⟩, v, mem_star_oneOf_iff.2 hv, rfl⟩

theorem mem_literal_iff {word : Text} : w ∈ (literal word).matches' ↔ w = word := by
  induction word generalizing w with
  | nil => exact Language.mem_one w
  | cons c word ih =>
    have hCons : literal (c :: word) = char c * literal word := rfl
    rw [hCons, RegularExpression.matches'_mul, Language.mem_mul]
    constructor
    · rintro ⟨_, rfl, v, hv, rfl⟩
      rw [ih.1 hv]
      rfl
    · rintro rfl
      exact ⟨[c], rfl, word, ih.2 rfl, rfl⟩

/-- A number is digits, a point at most, and digits, and it does not consist of a point alone. -/
theorem mem_number_iff :
    w ∈ (Shape.pattern .number).matches' ↔
      (∃ c v, w = c :: v ∧ c.isDigit = true ∧ ((∀ d ∈ v, d.isDigit = true) ∨
        ∃ a b, v = a ++ '.' :: b ∧ (∀ d ∈ a, d.isDigit = true) ∧ ∀ d ∈ b, d.isDigit = true)) ∨
      ∃ c v, w = '.' :: c :: v ∧ c.isDigit = true ∧ ∀ d ∈ v, d.isDigit = true := by
  simp only [Shape.pattern, RegularExpression.matches'_add, RegularExpression.matches'_mul,
    RegularExpression.matches'_epsilon, Language.mem_add, Language.mem_mul, Language.mem_one,
    mem_run_iff, mem_literal_iff, mem_star_oneOf_iff, mem_digits_iff]
  constructor
  · rintro (⟨_, ⟨c, a, rfl, hc, ha⟩, _, ⟨_, rfl, b, hb, rfl⟩ | rfl, rfl⟩ |
      ⟨_, rfl, _, ⟨c, v, rfl, hc, hv⟩, rfl⟩)
    · exact Or.inl ⟨c, a ++ '.' :: b, rfl, hc, Or.inr ⟨a, b, rfl, ha, hb⟩⟩
    · exact Or.inl ⟨c, a, List.append_nil _, hc, Or.inl ha⟩
    · exact Or.inr ⟨c, v, rfl, hc, hv⟩
  · rintro (⟨c, v, rfl, hc, hv | ⟨a, b, rfl, ha, hb⟩⟩ | ⟨c, v, rfl, hc, hv⟩)
    · exact Or.inl ⟨_, ⟨c, v, rfl, hc, hv⟩, [], Or.inr rfl, List.append_nil _⟩
    · exact Or.inl ⟨_, ⟨c, a, rfl, hc, ha⟩, _, Or.inl ⟨_, rfl, b, hb, rfl⟩, rfl⟩
    · exact Or.inr ⟨_, rfl, _, ⟨c, v, rfl, hc, hv⟩, rfl⟩

theorem mem_symbol_iff :
    w ∈ (Shape.pattern .symbol).matches' ↔
      ∃ c v, w = c :: v ∧ isSymbolStart c = true ∧ ∀ d ∈ v, isSymbolRest d = true := by
  simp only [Shape.pattern, mem_run_iff, mem_symbolStarts_iff, mem_symbolRests_iff]

theorem mem_blank_iff :
    w ∈ (Shape.pattern .blank).matches' ↔
      ∃ c v, w = c :: v ∧ isBlank c = true ∧ ∀ d ∈ v, isBlank d = true := by
  simp only [Shape.pattern, mem_run_iff, mem_blanks_iff]

end Matches

/-! ## Nothing stops short -/

section Length

variable {p : Char → Bool} {v cs : Text}

theorem length_le_runLength (hv : v <+: cs) (h : ∀ d ∈ v, p d = true) :
    v.length ≤ runLength p cs := by
  obtain ⟨t, rfl⟩ := hv
  rw [runLength, List.takeWhile_append_of_pos h, List.length_append]
  exact Nat.le_add_right _ _

theorem runLength_le_numberLength (cs : Text) : runLength Char.isDigit cs ≤ numberLength cs := by
  rcases numberLength_cases cs with ⟨hLength, -⟩ | ⟨rest, -, hLength⟩ <;> omega

theorem length_le_numberLength {a b : Text} (hv : a ++ '.' :: b <+: cs)
    (ha : ∀ d ∈ a, d.isDigit = true) (hb : ∀ d ∈ b, d.isDigit = true) :
    (a ++ '.' :: b).length ≤ numberLength cs := by
  obtain ⟨t, rfl⟩ := hv
  rw [List.append_assoc, List.cons_append]
  have hRun : runLength Char.isDigit (a ++ '.' :: (b ++ t)) = a.length := by
    refine runLength_append_iff.2 ⟨ha, ?_⟩
    intro c hc
    obtain rfl := Option.some.inj hc
    rfl
  have hFraction := length_le_runLength (List.prefix_append b t) hb
  simp only [numberLength, hRun, List.drop_left, List.length_append, List.length_cons]
  omega

end Length

/-- **No match is longer** than the first lexeme, and one that is as long has its shape. -/
theorem le_of_mem_pattern {shape : Shape} {c : Char} {v cs : Text} (hv : v <+: cs)
    (h : c :: v ∈ shape.pattern.matches') :
    ∃ found, (extent c cs).1 = some found ∧ v.length ≤ (extent c cs).2 ∧
      (v.length = (extent c cs).2 → shape = found) := by
  cases shape with
  | number =>
    rcases mem_number_iff.1 h with ⟨_, _, hWord, hc, hDigits⟩ | ⟨d, ds, hWord, hd, hds⟩
    · obtain ⟨rfl, rfl⟩ := List.cons.inj hWord
      rw [extent_of_isDigit hc]
      refine ⟨_, rfl, ?_, fun _ => rfl⟩
      rcases hDigits with hDigits | ⟨a, b, rfl, ha, hb⟩
      · exact (length_le_runLength hv hDigits).trans (runLength_le_numberLength cs)
      · exact length_le_numberLength hv ha hb
    · obtain ⟨rfl, rfl⟩ := List.cons.inj hWord
      have hAll : ∀ e ∈ d :: ds, e.isDigit = true := List.forall_mem_cons.2 ⟨hd, hds⟩
      obtain ⟨t, rfl⟩ := hv
      rw [List.cons_append, extent_point hd]
      exact ⟨_, rfl, length_le_runLength (List.prefix_append (d :: ds) t) hAll, fun _ => rfl⟩
  | symbol =>
    obtain ⟨_, _, hWord, hc, hRest⟩ := mem_symbol_iff.1 h
    obtain ⟨rfl, rfl⟩ := List.cons.inj hWord
    rw [extent_of_isSymbolStart hc]
    exact ⟨_, rfl, length_le_runLength hv hRest, fun _ => rfl⟩
  | blank =>
    obtain ⟨_, _, hWord, hc, hRest⟩ := mem_blank_iff.1 h
    obtain ⟨rfl, rfl⟩ := List.cons.inj hWord
    rw [extent_of_isBlank hc]
    exact ⟨_, rfl, length_le_runLength hv hRest, fun _ => rfl⟩
  | pipe =>
    obtain ⟨rfl, rfl⟩ := List.cons.inj (mem_literal_iff.1 h)
    -- a second bar would be taken too
    cases cs with
    | nil => exact ⟨_, rfl, Nat.le_refl 0, fun _ => rfl⟩
    | cons d ds =>
      by_cases hBar : d = '|'
      · subst hBar
        exact ⟨_, rfl, Nat.zero_le 1, nofun⟩
      · have hStart : isSymbolStart '|' = false := rfl
        have hBlank : isBlank '|' = false := rfl
        have hExtent : extent '|' (d :: ds) = (some .pipe, 0) := by
          simp [extent, hStart, hBlank, hBar]
        rw [hExtent]
        exact ⟨_, rfl, Nat.le_refl 0, fun _ => rfl⟩
  | commentOpen | commentClose | doubleDash | doublePipe =>
    obtain ⟨rfl, rfl⟩ := List.cons.inj (mem_literal_iff.1 h)
    obtain ⟨t, rfl⟩ := hv
    exact ⟨_, rfl, Nat.le_refl 1, fun _ => rfl⟩
  | hash | singleQuote | doubleQuote | colon | newline =>
    obtain ⟨rfl, rfl⟩ := List.cons.inj (mem_literal_iff.1 h)
    exact ⟨_, rfl, Nat.le_refl 0, fun _ => rfl⟩

/-! ## Nothing runs long -/

theorem mem_pattern_mark {c : Char} {cs : Text} {shape : Shape}
    (h : (mark c (peek cs)).1 = some shape) :
    c :: cs.take (mark c (peek cs)).2 ∈ shape.pattern.matches' := by
  have hPeek {d : Char} (hd : peek cs = some d) : cs.take 1 = [d] := by
    obtain ⟨rest, rfl⟩ := List.head?_eq_some_iff.1 (peek_eq_some_iff.1 hd).1
    rfl
  revert h
  generalize hNext : peek cs = next
  unfold mark
  split
  case h_2 | h_3 | h_4 | h_8 =>
    intro h
    obtain rfl := Option.some.inj h
    refine mem_literal_iff.2 ?_
    rw [hPeek hNext]
  case h_11 => nofun
  all_goals
    intro h
    obtain rfl := Option.some.inj h
    exact mem_literal_iff.2 rfl

/-- **The first lexeme is a match** of its shape. -/
theorem mem_pattern_first {c : Char} {cs : Text} {shape : Shape}
    (h : (extent c cs).1 = some shape) :
    c :: cs.take (extent c cs).2 ∈ shape.pattern.matches' := by
  rcases extent_cases c cs with ⟨hDigit, hExtent⟩ | ⟨hStart, hExtent⟩ | ⟨hBlank, hExtent⟩ |
    ⟨d, ds, rfl, rfl, hd, hExtent⟩ | ⟨-, hExtent⟩
  · have hLe := extent_le c cs
    rw [hExtent] at h hLe ⊢
    obtain rfl := Option.some.inj h
    refine mem_number_iff.2 (Or.inl ⟨c, _, rfl, hDigit, ?_⟩)
    obtain ⟨w, rest, rfl, hw⟩ : ∃ w rest, cs = w ++ rest ∧ numberLength cs = w.length :=
      ⟨_, _, (List.take_append_drop (numberLength cs) cs).symm,
        (List.length_take_of_le hLe).symm⟩
    rw [hw, List.take_left]
    rcases number_cases hw with ⟨hDigits, -⟩ | ⟨u, v, rfl, hu, hv, -⟩
    · exact Or.inl hDigits
    · exact Or.inr ⟨u, v, rfl, hu, hv⟩
  · rw [hExtent] at h ⊢
    obtain rfl := Option.some.inj h
    exact mem_symbol_iff.2 ⟨c, _, rfl, hStart, fun d hd => of_mem_take_runLength hd⟩
  · rw [hExtent] at h ⊢
    obtain rfl := Option.some.inj h
    exact mem_blank_iff.2 ⟨c, _, rfl, hBlank, fun d hd => of_mem_take_runLength hd⟩
  · rw [hExtent] at h ⊢
    obtain rfl := Option.some.inj h
    rw [take_runLength, List.takeWhile_cons_of_pos hd]
    exact mem_number_iff.2 (Or.inr ⟨d, _, rfl, hd, List.all_eq_true.1 List.all_takeWhile⟩)
  · rw [hExtent] at h ⊢
    exact mem_pattern_mark h

theorem extent_eq_zero_of_none {c : Char} {cs : Text} (h : (extent c cs).1 = none) :
    (extent c cs).2 = 0 := by
  rcases extent_cases c cs with ⟨-, hExtent⟩ | ⟨-, hExtent⟩ | ⟨-, hExtent⟩ |
    ⟨_, _, -, -, -, hExtent⟩ | ⟨-, hExtent⟩
  all_goals rw [hExtent] at h ⊢
  case inr.inr.inr.inr =>
    revert h
    unfold mark
    split <;> simp
  all_goals cases h

/-! ## The longest match -/

/-- Whether the lexeme is what the text starts with by longest match. If it has a shape, it matches
the pattern of that shape and no other, and no pattern has a longer match there. If it has none, it
is one character, and no pattern has a match there. -/
def IsMunched (lexeme : Lexeme) (text : Text) : Prop :=
  lexeme.text <+: text ∧
    match lexeme.shape? with
    | some shape =>
      lexeme.text ∈ shape.pattern.matches' ∧
        (∀ other : Shape, lexeme.text ∈ other.pattern.matches' → other = shape) ∧
        ∀ (other : Shape) (w : Text), w <+: text → w ∈ other.pattern.matches' →
          w.length ≤ lexeme.text.length
    | none =>
      lexeme.text.length = 1 ∧ ∀ (other : Shape) (w : Text), w <+: text →
        w ∉ other.pattern.matches'

theorem nil_notMem_pattern (shape : Shape) : [] ∉ shape.pattern.matches' := by
  cases shape <;> decide

/-- A match at the start of a text has its first character. -/
theorem exists_cons_of_mem_pattern {shape : Shape} {c : Char} {w cs : Text} (hw : w <+: c :: cs)
    (h : w ∈ shape.pattern.matches') : ∃ v, w = c :: v ∧ v <+: cs := by
  cases w with
  | nil => exact absurd h (nil_notMem_pattern shape)
  | cons d v =>
    obtain ⟨rfl, hv⟩ := List.cons_prefix_cons.1 hw
    exact ⟨v, rfl, hv⟩

/-- **Longest match.** The first lexeme of a text is what the text starts with by longest match. -/
theorem isMunched_first (c : Char) (cs : Text) : (first c cs).IsMunched (c :: cs) := by
  have hLength : (first c cs).text.length = (extent c cs).2 + 1 := by
    rw [first, List.length_cons, List.length_take_of_le (extent_le c cs)]
  refine ⟨⟨rest c cs, first_append_rest c cs⟩, ?_⟩
  split
  next shape hShape =>
    refine ⟨mem_pattern_first hShape, ?_, ?_⟩
    · intro other hOther
      obtain ⟨found, hFound, -, hSame⟩ := le_of_mem_pattern (List.take_prefix _ cs) hOther
      rw [hSame (List.length_take_of_le (extent_le c cs))]
      exact Option.some.inj (hFound.symm.trans hShape)
    · intro other w hw hMatch
      obtain ⟨v, rfl, hv⟩ := exists_cons_of_mem_pattern hw hMatch
      obtain ⟨-, -, hLe, -⟩ := le_of_mem_pattern hv hMatch
      rw [hLength, List.length_cons]
      exact Nat.succ_le_succ hLe
  next hShape =>
    have hNone : (extent c cs).1 = none := hShape
    rw [hLength, extent_eq_zero_of_none hNone]
    refine ⟨rfl, ?_⟩
    intro other w hw hMatch
    obtain ⟨v, rfl, hv⟩ := exists_cons_of_mem_pattern hw hMatch
    obtain ⟨found, hFound, -⟩ := le_of_mem_pattern hv hMatch
    rw [hNone] at hFound
    cases hFound

/-! ## Lexemes of a line -/

/-- Whether the lexemes follow each other without a gap from byte `start` to byte `stop`, none of
them being empty. -/
def Contiguous (start stop : Nat) : List Located → Prop
  | [] => start = stop
  | item :: rest =>
    item.span.start = start ∧ start < item.span.stop ∧ Contiguous item.span.stop stop rest

theorem contiguous_locate (base : Nat) (t : Text) :
    Contiguous base (base + t.byteSize) (locate base (lexemes t)) := by
  fun_induction lexemes t generalizing base with
  | case1 => rfl
  | case2 c cs ih =>
    have hSize := congrArg Text.byteSize (first_append_rest c cs)
    rw [Text.byteSize_append] at hSize
    have hPos : 0 < (first c cs).text.byteSize := Text.byteSize_pos (List.cons_ne_nil _ _)
    refine ⟨rfl, by simpa using hPos, ?_⟩
    rw [← hSize, ← Nat.add_assoc]
    exact ih _

/-- Every lexeme is the first one of what is left of the text. -/
theorem exists_first_of_mem_locate {front t : Text} {item : Located}
    (h : item ∈ locate front.byteSize (lexemes t)) :
    ∃ (before : Text) (c : Char) (cs : Text), front ++ t = before ++ c :: cs ∧
      item.lexeme = first c cs ∧
      item.span = ⟨before.byteSize, before.byteSize + (first c cs).text.byteSize⟩ := by
  fun_induction lexemes t generalizing front with
  | case1 => cases h
  | case2 c cs ih =>
    rcases List.mem_cons.1 h with rfl | h
    · exact ⟨front, c, cs, rfl, rfl, rfl⟩
    · rw [← Text.byteSize_append] at h
      obtain ⟨before, d, ds, hText, hItem⟩ := ih h
      rw [List.append_assoc, first_append_rest] at hText
      exact ⟨before, d, ds, hText, hItem⟩

/-- **Lexemes of a line.** From every place between two characters on, the lexemes of a line follow
each other without a gap up to its end, and each of them is the longest match at its place. -/
theorem lexFrom?_munches {line : Text} {start : Nat} (h : line.IsBoundary start) :
    ∃ items, lexFrom? line start = some items ∧ Contiguous start line.byteSize items ∧
      ∀ item ∈ items, item.span.text? line = some item.lexeme.text ∧
        ∃ before rest, line.cut? item.span.start = some (before, rest) ∧
          item.lexeme.IsMunched rest := by
  obtain ⟨front, code, hCut⟩ := h
  obtain rfl := Text.byteSize_of_cut? hCut
  obtain rfl := Text.append_of_cut? hCut
  refine ⟨locate front.byteSize (lexemes code), ?_, ?_, ?_⟩
  · rw [lexFrom?, hCut]
    rfl
  · rw [Text.byteSize_append]
    exact contiguous_locate _ code
  · intro item hItem
    obtain ⟨before, c, cs, hText, hLexeme, hSpan⟩ := exists_first_of_mem_locate hItem
    rw [hText, hLexeme, hSpan]
    refine ⟨?_, before, c :: cs, Text.cut?_append before (c :: cs), isMunched_first c cs⟩
    have hSlice := Text.slice?_append before (first c cs).text (rest c cs)
    rw [List.append_assoc, first_append_rest] at hSlice
    exact hSlice

/-- Points in numbers, bars and an unknown character, behind a character of two bytes. -/
theorem lexFrom?_munches_behind_letter :
    let line : Text := "é1..2=|||".toList
    line.IsBoundary 2 ∧
      (lexFrom? line 2).map (·.map fun item => (item.lexeme.shape?, item.span)) =
        some [(some .number, ⟨2, 4⟩), (some .number, ⟨4, 6⟩), (none, ⟨6, 7⟩),
          (some .doublePipe, ⟨7, 9⟩), (some .pipe, ⟨9, 10⟩)] ∧
      ∃ items, lexFrom? line 2 = some items ∧ Contiguous 2 10 items ∧
        ∀ item ∈ items, item.span.text? line = some item.lexeme.text ∧
          ∃ before rest, line.cut? item.span.start = some (before, rest) ∧
            item.lexeme.IsMunched rest :=
  ⟨⟨_, _, rfl⟩, by decide +kernel, lexFrom?_munches ⟨_, _, rfl⟩⟩

end RexxEditing.Lexeme
