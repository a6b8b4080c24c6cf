import RexxEditing.Toml.Lexical

/-! # Numbers of TOML

Integers are decimal, or hexadecimal, octal or binary after `0x`, `0o` or `0b`, and fit into 64
bits. Floats have a fraction, an exponent or both. An underscore may stand between two digits.
-/

namespace RexxEditing.Toml

open Reader

/-- A digit, or an underscore and a digit. -/
def moreDigit (isDigit : Char → Bool) : Reader Char :=
  satisfy isDigit <|> (char '_' *> satisfy isDigit)

/-- Digits with single underscores between them. -/
def digits (isDigit : Char → Bool) : Reader Text := do
  let first ← satisfy isDigit
  return first :: (← many (moreDigit isDigit))

/-- The digits of a decimal number, with no zero in front of others. -/
def decimalDigits : Reader Text := do
  let first ← satisfy Char.isDigit
  if first = '0' then return ['0']
  return first :: (← many (moreDigit Char.isDigit))

/-- Whether the number has a minus sign in front. -/
def sign : Reader Bool :=
  (char '-' *> pure true) <|> (char '+' *> pure false) <|> pure false

/-- The number that digits write in a base. -/
def valueOf (base : Nat) (ds : Text) : Nat :=
  ds.foldl (fun n c => n * base + (hexValue? c).getD 0) 0

/-- An integer that fits into 64 bits. -/
def inRange (i : Int) : Reader Int :=
  let bound := Int.ofNat (1 <<< 63)
  if -bound ≤ i ∧ i < bound then pure i else failure

/-- Digits in a base, after its mark. -/
def markedInteger (mark : String) (base : Nat) : Reader Int := do
  word mark
  let ds ← digits fun c => (hexValue? c).any (· < base)
  inRange (valueOf base ds)

/-- A decimal integer. -/
def decimalInteger : Reader Int := do
  let negative ← sign
  let n : Int := valueOf 10 (← decimalDigits)
  inRange (if negative then -n else n)

/-- An integer. -/
def integer : Reader Int := do
  match ← get with
  | '0' :: 'x' :: _ => markedInteger "0x" 16
  | '0' :: 'o' :: _ => markedInteger "0o" 8
  | '0' :: 'b' :: _ => markedInteger "0b" 2
  | _ => decimalInteger

/-! ## Floats -/

/-- The exponent of a float. -/
def exponent : Reader Int := do
  char 'e' <|> char 'E'
  let negative ← sign
  let n : Int := valueOf 10 (← digits Char.isDigit)
  return if negative then -n else n

/-- The fraction of a float, and its exponent. -/
def fractionAndExponent : Reader (Text × Int) :=
  (do
    char '.'
    let fraction ← digits Char.isDigit
    return (fraction, (← optional exponent).getD 0)) <|>
  (do return ([], ← exponent))

/-- The float nearest to `n · 10 ^ e`. A number with its first digit beyond the 310th place before
or the 400th after the point is out of the range of floats. -/
def nearestFloat (n : Nat) (e : Int) : Float :=
  let magnitude := ((Nat.toDigits 10 n).length : Int) + e
  if n = 0 ∨ magnitude < -400 then 0
  else if 310 < magnitude then 1 / 0
  else Float.ofScientific n (e < 0) e.natAbs

/-- A float with a fraction or an exponent. A positive number that is too large is none. -/
def decimalFloat : Reader Float := do
  let negative ← sign
  let whole ← decimalDigits
  let (fraction, e) ← fractionAndExponent
  let x := nearestFloat (valueOf 10 (whole ++ fraction)) (e - fraction.length)
  if negative then return -x
  if x.isInf then failure
  return x

/-- Infinity, or no number. -/
def specialFloat : Reader Float := do
  let negative ← sign
  let x ← (word "inf" *> pure (1 / 0 : Float)) <|> (word "nan" *> pure (0 / 0 : Float))
  return if negative then -x else x

/-- A float. -/
def float : Reader Float := decimalFloat <|> specialFloat

end RexxEditing.Toml
