import RexxEditing.Indent.Column

/-! # Indenting a text

Every line of a text is put at its column, from the top down, so that a line is placed below lines
that are in place already. A blank line loses its white space, and a line that is entered in a
region stays as it is. Line ends stay, too.

`reindent` has a result for every offset. In memory there is none if a line would get more spaces in
front than a text can hold: then `reindent?` breaks off at that line.
-/

namespace RexxEditing.Indent

/-- A line in its place below the lines `above`, without its carriage return. It is entered in
`entry`, and the lines above in `states`. -/
def place (offset : Nat) (states : List State) (above : List Text) (entry : State) (line : Text) :
    Text :=
  match entry with
  | .inside _ => line
  | .normal =>
    match line.trimStart with
    | [] => []
    | body =>
      let b := Buffer.ofLines (above ++ [body])
      Text.spaces (columnWith b above.length offset states) ++ body

/-- The lines in their places below the lines `above`. -/
def placeAll (offset : Nat) (states : List State) (above : List Text) :
    List (State × Text) → List Text
  | [] => above
  | (entry, line) :: rest =>
    placeAll offset states (above ++ [place offset states above entry line]) rest

/-- The text with every line at its column. -/
def reindent (offset : Nat) (text : Text) : Text :=
  let states := lineStates text .normal
  let parts := text.lines.map Text.splitReturn
  let placed := placeAll offset states [] (states.zip (parts.map Prod.fst))
  Text.ofLines (List.zipWith (· ++ ·) placed (parts.map Prod.snd))

/-! ## Lines in memory -/

/-- A line in its place, if there is room for the spaces in front of it. -/
def place? (offset : Nat) (states : List State) (above : List Text) (entry : State) (line : Text) :
    Option Text :=
  match entry with
  | .inside _ => some line
  | .normal =>
    match line.trimStart with
    | [] => some []
    | body =>
      let b := Buffer.ofLines (above ++ [body])
      (Text.spaces? (columnWith b above.length offset states)).map (· ++ body)

/-- The lines in their places below the lines `above`, if there is room for all of them. -/
def placeAll? (offset : Nat) (states : List State) (above : List Text) :
    List (State × Text) → Option (List Text)
  | [] => some above
  | (entry, line) :: rest => do
    let placed ← place? offset states above entry line
    placeAll? offset states (above ++ [placed]) rest

/-- The text with every line at its column, if there is room for the spaces in front of each. -/
def reindent? (offset : Nat) (text : Text) : Option Text := do
  let states := lineStates text .normal
  let parts := text.lines.map Text.splitReturn
  let placed ← placeAll? offset states [] (states.zip (parts.map Prod.fst))
  return Text.ofLines (List.zipWith (· ++ ·) placed (parts.map Prod.snd))

end RexxEditing.Indent
