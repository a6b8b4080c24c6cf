import RexxEditing.Highlight.Category

/-! # Tokens of a line

A line is cut into pieces, and every piece that is complete on the line becomes a token. The token
of a region that was opened on an earlier line starts where the region was opened.
-/

namespace RexxEditing

/-- A piece with its category and its place. -/
structure Piece.Located where
  piece : Piece
  kind? : Option Kind
  span : Span
  deriving DecidableEq, Repr

/-- Pieces that follow each other from byte `base` on, `before` being those in front of them. -/
def Piece.locate (base : Nat) (before : List Piece) : List Piece → List Piece.Located
  | [] => []
  | piece :: after =>
    let stop := base + piece.text.byteSize
    ⟨piece, piece.kind? before after, base, stop⟩ :: Piece.locate stop (piece :: before) after

/-- The token of a piece that has a category. -/
def Piece.Located.token? (p : Piece.Located) : Option Token := p.kind?.map (⟨·, p.span⟩)

/-- The first piece of a line extended back to byte `start`. -/
def Piece.extendBack (start : Nat) : List Piece.Located → List Piece.Located
  | [] => []
  | p :: ps => { p with span := ⟨start, p.span.stop⟩ } :: ps

/-- What one line gives. -/
structure LineScan where
  /-- The tokens that are complete on the line. -/
  tokens : List Token
  /-- The state in which the next line is entered. -/
  exit : State
  /-- The start of the region that the next line is entered in. -/
  openFrom : Option Nat
  deriving DecidableEq, Repr

namespace LineScan

/-- The pieces of a line that starts at byte `base`, in their places. A line that is entered in a
region has its first piece from `openFrom` on, where the region was opened. -/
def located (line : Text) (base : Nat) (entry : State) (openFrom : Option Nat) :
    List Piece.Located :=
  let pieces := Piece.locate base [] (Piece.ofLine entry line)
  match entry with
  | .normal => pieces
  | .inside _ => Piece.extendBack (openFrom.getD base) pieces

/-- The start of the region that does not end on the line. -/
def unclosedFrom? (pieces : List Piece.Located) : Option Nat :=
  match pieces.getLast? with
  | some ⟨.unclosed _ _, _, span⟩ => some span.start
  | _ => none

/-- Scans a line, given without its line feed, that starts at byte `base` and is entered in the
state `entry`. If that is a region, `openFrom` is the byte where it was opened. -/
def ofLine (line : Text) (base : Nat) (entry : State) (openFrom : Option Nat) : LineScan :=
  let pieces := located line base entry openFrom
  { tokens := pieces.filterMap Piece.Located.token?
    exit := entry.next line
    openFrom := unclosedFrom? pieces }

/-- Scans a line, unless a token would end before it starts: a region cannot be opened after its
end. -/
def ofLine? (line : Text) (base : Nat) (entry : State) (openFrom : Option Nat) :
    Option LineScan :=
  let scan := ofLine line base entry openFrom
  if scan.tokens.all (·.span.isOrdered) then some scan else none

end LineScan

end RexxEditing
