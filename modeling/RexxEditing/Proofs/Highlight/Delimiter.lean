import RexxEditing.Highlight.Piece
import RexxEditing.Proofs.Region

/-! # Where regions start and end

A comment or string on a line starts with its opener, and a comment that ends on its line ends with
a slash. So none of them runs into the words around it.

* `Piece.delimited_ofCode`: the regions among the pieces of code.
-/

namespace RexxEditing

/-- What a region starts with. -/
def Region.opener : Region → Text
  | .comment => ['/', '*']
  | .string quote => [quote.char]

theorem Lexeme.extent_of_region? {c : Char} {cs : Text} {shape : Lexeme.Shape} {region : Region}
    (hShape : (extent c cs).1 = some shape) (hRegion : shape.region? = some region) :
    c :: cs.take (extent c cs).2 = region.opener := by
  revert hShape
  fun_cases extent c cs <;> intro hShape <;> cases hShape <;> cases hRegion
  -- a comment opener and the two quotes are left
  all_goals rfl

theorem Region.getLast?_take_commentLength? {t : Text} {n : Nat} (h : commentLength? t = some n) :
    (t.take n).getLast? = some '/' := by
  fun_induction commentLength? t generalizing n with
  | case1 => cases h
  | case2 rest =>
    cases h
    rfl
  | case3 c cs _ ih =>
    obtain ⟨m, hm, rfl⟩ := Option.map_eq_some_iff.1 h
    have hRest := ih hm
    rw [List.take_succ_cons, List.getLast?_cons, hRest]
    rfl

/-- A region of code starts with its opener, and a comment ends with a slash. -/
def Piece.Delimited : Piece → Prop
  | .closed region text =>
    ∃ body, text = region.opener ++ body ∧ (region = .comment → body.getLast? = some '/')
  | .unclosed region text => ∃ body, text = region.opener ++ body
  | _ => True

/-- **Regions of code** stand between their delimiters. -/
theorem Piece.delimited_ofCode (code : Text) : ∀ p ∈ ofCode code, p.Delimited := by
  fun_induction ofCode code with
  | case1 => simp
  | case2 c cs _ _ _ ih => exact List.forall_mem_cons.2 ⟨trivial, ih⟩
  | case3 c cs lexeme rest shape hShape region hRegion n hLength ih =>
    refine List.forall_mem_cons.2 ⟨⟨rest.take n, ?_, ?_⟩, ih⟩
    · exact congrArg (· ++ rest.take n) (Lexeme.extent_of_region? hShape hRegion)
    · rintro rfl
      exact Region.getLast?_take_commentLength? hLength
  | case4 c cs lexeme rest shape hShape region hRegion _ =>
    intro p hp
    obtain rfl := List.mem_singleton.1 hp
    exact ⟨rest, congrArg (· ++ rest) (Lexeme.extent_of_region? hShape hRegion)⟩
  | case5 c cs lexeme rest =>
    intro p hp
    obtain rfl := List.mem_singleton.1 hp
    trivial
  | case6 c cs _ _ _ _ _ _ _ ih => exact List.forall_mem_cons.2 ⟨trivial, ih⟩
  | case7 c cs _ _ _ _ _ _ _ ih => exact List.forall_mem_cons.2 ⟨trivial, ih⟩

end RexxEditing
