import RexxEditing.Highlight.Document

/-! # Tokens on demand

A stream gives the tokens of a text one after the other, and scans a line only when it has no token
left from the lines before.
-/

namespace RexxEditing

/-- A text that has been classified up to some line. -/
structure TokenStream where
  /-- The lines that are not scanned yet. -/
  lines : List Text
  /-- The byte where they start. -/
  base : Nat
  carry : Carry
  /-- Tokens of scanned lines that have not been given out. -/
  queue : List Token
  /-- The size of the whole text. -/
  size : Nat
  deriving DecidableEq, Repr

namespace TokenStream

/-- The stream of a text that is entered in the given state. -/
def ofText (text : Text) (entry : State) : TokenStream :=
  ⟨text.lines, 0, ⟨entry, none⟩, [], text.byteSize⟩

/-- The state after the lines scanned so far. -/
def exitState (s : TokenStream) : State := s.carry.state

/-- The end of the stream: the open region, once. -/
def finish (s : TokenStream) : Option Token × TokenStream :=
  (s.carry.openToken? s.size, { s with carry := { s.carry with openFrom := none } })

/-- The next token, from the lines that are left. -/
def advance (s : TokenStream) : List Text → Option Token × TokenStream
  | [] => finish { s with lines := [] }
  | line :: rest =>
    let scan := LineScan.ofLine line s.base s.carry.state s.carry.openFrom
    let s := { s with
      lines := rest
      base := s.base + line.byteSize + 1
      carry := ⟨scan.exit, scan.openFrom⟩ }
    match scan.tokens with
    | token :: queue => (some token, { s with queue })
    | [] => advance s rest

/-- The next token of the stream. -/
def next (s : TokenStream) : Option Token × TokenStream :=
  match s.queue with
  | token :: queue => (some token, { s with queue })
  | [] => s.advance s.lines

end TokenStream

end RexxEditing
