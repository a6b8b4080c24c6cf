import RexxEditing.Text.Basic

/-! # Shortest decimals

A float is written with the fewest digits that read back as the same float, and of those the digits
nearest to it. Half way between two of them the greater is taken. No exponent is written.
-/

namespace RexxEditing.Number

/-- A positive number `m · 2 ^ q`. -/
structure Binary where
  m : Nat
  q : Int

/-- The number of a positive, finite float. -/
def Binary.ofFloat (x : Float) : Binary :=
  let bits := x.toBits.toNat % (1 <<< 63)
  let exponent : Nat := bits >>> 52
  let fraction : Nat := bits % (1 <<< 52)
  if exponent = 0 then ⟨fraction, -1074⟩ else ⟨fraction + (1 <<< 52), (exponent : Int) - 1075⟩

/-- `n · 2 ^ q` as a fraction. -/
def scale (n : Nat) (q : Int) : Nat × Nat :=
  if 0 ≤ q then (n <<< q.toNat, 1) else (n, 1 <<< (-q).toNat)

/-- The numbers that are read as one float: from `low` to `high` in units of `1 / den`, with the
float at `value`. -/
structure Interval where
  low : Nat
  value : Nat
  high : Nat
  den : Nat
  /-- Whether both ends are read as the float, too. -/
  closed : Bool

/-- The interval of a float. It reaches half way to the two floats next to it; the one below is
nearer if the float is a power of two. -/
def Binary.interval (b : Binary) : Interval :=
  let below := if b.m = 1 <<< 52 then 1 else 2
  let (low, den) := scale (4 * b.m - below) (b.q - 2)
  ⟨low, (scale (4 * b.m) (b.q - 2)).1, (scale (4 * b.m + 2) (b.q - 2)).1, den, b.m % 2 == 0⟩

/-- A decimal `digits · 10 ^ exponent`. -/
structure Decimal where
  digits : Nat
  exponent : Int

namespace Interval

/-- Whether `n` in units of `1 / den` is read as the float. -/
def contains (i : Interval) (n : Nat) : Bool :=
  if i.closed then i.low ≤ n && n ≤ i.high else i.low < n && n < i.high

/-- The decimal with the given exponent nearest to the float, if it is read as the float. At equal
distance it is the one above. -/
def onGrid? (i : Interval) (exponent : Int) : Option Decimal :=
  let (num, den) :=
    if 0 ≤ exponent then (1, Nat.pow 10 exponent.toNat) else (Nat.pow 10 (-exponent).toNat, 1)
  let unit := i.den * den
  let value := i.value * num
  let down := value / unit
  let up := down + 1
  let reads (d : Nat) : Bool :=
    Interval.contains ⟨i.low * num, value, i.high * num, unit, i.closed⟩ (d * unit)
  let downIsNearer : Bool := 2 * (value - down * unit) < unit
  if reads down && (downIsNearer || !reads up) then some ⟨down, exponent⟩
  else if reads up then some ⟨up, exponent⟩
  else none

/-- The decimal with the greatest exponent that is read as the float, looked for from `exponent`
downwards. -/
def shortestFrom (i : Interval) (exponent : Int) : Nat → Decimal
  | 0 => ⟨0, 0⟩
  | steps + 1 =>
    match i.onGrid? exponent with
    | some d => d
    | none => i.shortestFrom (exponent - 1) steps

/-- The shortest decimal. Its exponent is at most the number of digits before the point and at
least that of the smallest float. -/
def shortest (i : Interval) : Decimal :=
  let places := (Nat.toDigits 10 (i.value / i.den)).length
  i.shortestFrom places (places + 400)

end Interval

/-- The digits of a decimal, with the point in its place. -/
def Decimal.toText (d : Decimal) : Text :=
  let digits := Nat.toDigits 10 d.digits
  if 0 ≤ d.exponent then digits ++ List.replicate d.exponent.toNat '0'
  else
    let places := (-d.exponent).toNat
    let padded := List.replicate (places + 1 - digits.length) '0' ++ digits
    padded.take (padded.length - places) ++ '.' :: padded.drop (padded.length - places)

/-- The text of a float. -/
def floatText (x : Float) : Text :=
  let negative := x.toBits.toNat >>> 63 == 1
  let unsigned :=
    if x.isNaN then ['N', 'a', 'N']
    else if x.isInf then ['i', 'n', 'f']
    else if x == 0 then ['0']
    else (Binary.ofFloat x).interval.shortest.toText
  if negative && !x.isNaN then '-' :: unsigned else unsigned

end RexxEditing.Number
