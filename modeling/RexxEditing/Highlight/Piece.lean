import RexxEditing.Lexeme
import RexxEditing.Region

/-! # Pieces of a line

A line falls into pieces: the lexemes of its code, and the comments and strings between them. A
region that does not end on the line is its last piece.

* `flatMap_text_ofCode`: the pieces of code put together are the code.
-/

namespace RexxEditing

/-- A part of a line. -/
inductive Piece where
  /-- White space between other pieces. -/
  | blank (text : Text)
  /-- A lexeme of the code. -/
  | code (shape : Lexeme.Shape) (text : Text)
  /-- A character that starts no lexeme. -/
  | unknown (text : Text)
  /-- A region that ends on this line. -/
  | closed (region : Region) (text : Text)
  /-- A comment up to the end of the line. -/
  | lineComment (text : Text)
  /-- A region that goes on after this line. -/
  | unclosed (region : Region) (text : Text)
  deriving DecidableEq, Repr

/-- The region that the lexeme opens, whatever follows it. -/
def Lexeme.Shape.region? : Lexeme.Shape → Option Region
  | .commentOpen => some .comment
  | .singleQuote => some (.string .single)
  | .doubleQuote => some (.string .double)
  | _ => none

/-- Whether the lexeme may open a line comment. -/
def Lexeme.Shape.isLineCommentOpener : Lexeme.Shape → Bool
  | .doubleDash | .hash => true
  | _ => false

namespace Piece

/-- The part of the line that the piece is. -/
def text : Piece → Text
  | blank text | code _ text | unknown text | closed _ text | lineComment text
  | unclosed _ text => text

/-- Whether the piece is white space. -/
def isBlank : Piece → Bool
  | blank _ => true
  | _ => false

/-- Whether the piece is a comment that ends on this line. -/
def isComment : Piece → Bool
  | closed .comment _ | lineComment _ => true
  | _ => false

/-- The shape of a piece of code. -/
def shape? : Piece → Option Lexeme.Shape
  | code shape _ => some shape
  | _ => none

/-! ## Cutting a line -/

/-- The pieces of a text that starts in code. -/
def ofCode : Text → List Piece
  | [] => []
  | c :: cs =>
    let lexeme := Lexeme.first c cs
    let rest := Lexeme.rest c cs
    match lexeme.shape? with
    | none => unknown lexeme.text :: ofCode rest
    | some shape =>
      match shape.region? with
      | some region =>
        match region.length? rest with
        | some n => closed region (lexeme.text ++ rest.take n) :: ofCode (rest.drop n)
        | none => [unclosed region (lexeme.text ++ rest)]
      | none =>
        if shape.isLineCommentOpener && Region.startsLineComment rest then
          [lineComment (lexeme.text ++ rest)]
        else if shape.isSpace then blank lexeme.text :: ofCode rest
        else code shape lexeme.text :: ofCode rest
termination_by t => t.length
decreasing_by
  · exact Lexeme.length_rest_lt c cs
  · exact Nat.lt_of_le_of_lt (List.drop_sublist n rest).length_le (Lexeme.length_rest_lt c cs)
  · exact Lexeme.length_rest_lt c cs
  · exact Lexeme.length_rest_lt c cs

/-- The pieces of a line that is entered in the given state. -/
def ofLine (entry : State) (line : Text) : List Piece :=
  match entry with
  | .normal => ofCode line
  | .inside region =>
    match region.length? line with
    | some n => closed region (line.take n) :: ofCode (line.drop n)
    | none => [unclosed region line]

theorem flatMap_text_ofCode (t : Text) : (ofCode t).flatMap text = t := by
  fun_induction ofCode t with
  | case1 => rfl
  | case2 c cs _ _ _ ih | case6 c cs _ _ _ _ _ _ _ ih | case7 c cs _ _ _ _ _ _ _ ih =>
    rw [List.flatMap_cons, ih]
    exact Lexeme.first_append_rest c cs
  | case3 c cs lexeme rest _ _ _ _ n _ ih =>
    rw [List.flatMap_cons, ih]
    simp only [text, List.append_assoc, List.take_append_drop]
    exact Lexeme.first_append_rest c cs
  | case4 c cs | case5 c cs =>
    rw [List.flatMap_cons, List.flatMap_nil, List.append_nil]
    exact Lexeme.first_append_rest c cs

/-- The state in which the next line is entered. -/
def exitState (pieces : List Piece) : State :=
  match pieces.getLast? with
  | some (unclosed region _) => .inside region
  | _ => .normal

end Piece

/-- The state in which the line after `line` is entered. -/
def State.next (entry : State) (line : Text) : State := Piece.exitState (Piece.ofLine entry line)

end RexxEditing
