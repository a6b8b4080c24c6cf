import RexxEditing.Region

/-! # Ends of regions

Where a region ends is decided by the characters up to its end.

* `length?_bounds`: a region that ends in a text takes at least one of its characters.
-/

namespace RexxEditing.Region

open Text (isBlank)

theorem length?_nil (region : Region) : region.length? [] = none := by
  cases region <;> rfl

theorem commentLength?_bounds {t : Text} {n : Nat} (h : commentLength? t = some n) :
    0 < n ∧ n ≤ t.length := by
  fun_induction commentLength? t generalizing n with
  | case1 => cases h
  | case2 rest =>
    cases h
    simp
  | case3 c cs _ ih =>
    obtain ⟨m, hm, rfl⟩ := Option.map_eq_some_iff.1 h
    have := ih hm
    simp only [List.length_cons]
    omega

theorem stringLength?_bounds {quote : Char} {t : Text} {n : Nat}
    (h : stringLength? quote t = some n) : 0 < n ∧ n ≤ t.length := by
  fun_induction stringLength? quote t generalizing n with
  | case1 => cases h
  | case2 =>
    cases h
    simp
  | case3 => cases h
  | case4 cs ih =>
    obtain ⟨m, hm, rfl⟩ := Option.map_eq_some_iff.1 h
    have := ih hm
    simp only [List.length_cons]
    omega
  | case5 =>
    cases h
    simp
  | case6 c d cs hc ih =>
    obtain ⟨m, hm, rfl⟩ := Option.map_eq_some_iff.1 h
    have := ih hm
    simp only [List.length_cons] at this ⊢
    omega

/-- The end of a region lies in the text, and after its start. -/
theorem length?_bounds {region : Region} {t : Text} {n : Nat} (h : region.length? t = some n) :
    0 < n ∧ n ≤ t.length := by
  cases region with
  | comment => exact commentLength?_bounds h
  | string quote => exact stringLength?_bounds h

theorem commentLength?_cons {c : Char} {cs : Text} (h : ∀ rest, c = '*' → cs ≠ '/' :: rest) :
    commentLength? (c :: cs) = (commentLength? cs).map (· + 1) := by
  rw [commentLength?]
  intro rest hc hcs
  exact h rest hc hcs

theorem startsLineComment_append_blank {b : Char} (hb : isBlank b = true) (t : Text) :
    startsLineComment (t ++ [b]) = startsLineComment t := by
  cases t with
  | nil => exact Text.isWhite_of_isBlank hb
  | cons c cs => rfl

end RexxEditing.Region
