import RexxEditing.Toml.Number

/-! # Dates and times of TOML

A date, a time, or a date and a time with or without an offset from universal time. They are read
for their text only, which is put into a standard form. Written as a value the clock is held to
narrower bounds than between quotes.
-/

namespace RexxEditing.Toml

open Reader

/-- `count` decimal digits. -/
def fixedDigits : Nat → Reader Text
  | 0 => pure []
  | count + 1 => do
    let c ← satisfy Char.isDigit
    return c :: (← fixedDigits count)

/-- Digits whose number lies between two bounds. -/
def bounded (count low high : Nat) : Reader Text := do
  let ds ← fixedDigits count
  let n := valueOf 10 ds
  if low ≤ n ∧ n ≤ high then return ds else failure

/-- Whether a year has a 29th of February. -/
def isLeapYear (year : Nat) : Bool := year % 4 == 0 && (year % 100 != 0 || year % 400 == 0)

/-- The number of days of a month. -/
def daysOf (year month : Nat) : Nat :=
  if month = 2 then if isLeapYear year then 29 else 28
  else if month = 4 ∨ month = 6 ∨ month = 9 ∨ month = 11 then 30
  else 31

/-- A date. -/
def date : Reader Text := do
  let year ← fixedDigits 4
  char '-'
  let month ← bounded 2 1 12
  char '-'
  let day ← bounded 2 1 (daysOf (valueOf 10 year) (valueOf 10 month))
  return year ++ '-' :: month ++ '-' :: day

/-- The digits of a fraction of a second, down to the nanosecond, with no zero at the end. -/
def secondFraction : Reader Text := do
  char '.'
  let ds ← takeWhile1 Char.isDigit
  let kept := ((ds.take 9).reverse.dropWhile (· == '0')).reverse
  return if kept.isEmpty then [] else '.' :: kept

/-- How far the numbers of a clock go. -/
structure Clock where
  lastHour : Nat
  lastOffsetHour : Nat
  lastOffsetMinute : Nat
  deriving DecidableEq, Repr

namespace Clock

/-- The clock of a value. -/
def plain : Clock := ⟨23, 23, 59⟩

/-- The clock of a date or time between quotes. Only the whole of an offset is bounded, and hour 24
is a time. -/
def quoted : Clock := ⟨24, 99, 99⟩

/-- The most minutes that an offset has. -/
def offsetLimit : Nat := 24 * 60

/-- A time of day. -/
def timeOfDay (c : Clock) : Reader Text := do
  let hour ← bounded 2 0 c.lastHour
  char ':'
  let minute ← bounded 2 0 59
  char ':'
  let second ← bounded 2 0 60
  let fraction ← optional secondFraction
  return hour ++ ':' :: minute ++ ':' :: second ++ fraction.getD []

/-- A number in two digits. -/
def twoDigits (n : Nat) : Text := [Nat.digitChar (n / 10), Nat.digitChar (n % 10)]

/-- An offset of some minutes. There is no negative offset of none. -/
def offsetText (isNegative : Bool) (minutes : Nat) : Text :=
  (if isNegative && minutes != 0 then '-' else '+') ::
    (twoDigits (minutes / 60) ++ ':' :: twoDigits (minutes % 60))

/-- An offset from universal time. -/
def zone (c : Clock) : Reader Text :=
  ((char 'Z' <|> char 'z') *> pure ['Z']) <|>
  (do
    let mark ← satisfy fun c => c == '+' || c == '-'
    let hour ← bounded 2 0 c.lastOffsetHour
    char ':'
    let minute ← bounded 2 0 c.lastOffsetMinute
    let minutes := valueOf 10 hour * 60 + valueOf 10 minute
    if minutes ≤ offsetLimit then return offsetText (mark == '-') minutes else failure)

/-- The time after a date. -/
def timeAfterDate (c : Clock) : Reader Text := do
  char 'T' <|> char 't' <|> char ' '
  let time ← c.timeOfDay
  let offset ← optional c.zone
  return 'T' :: time ++ offset.getD []

/-- A date, a time or both, in standard form. -/
def dateTime (c : Clock) : Reader Text :=
  (do
    let day ← date
    let time ← optional c.timeAfterDate
    return day ++ time.getD []) <|> c.timeOfDay

end Clock

/-- The standard form of a text that is a date, a time or both. -/
def dateTimeOf? (text : Text) : Option Text := do
  let (standard, rest) ← Clock.quoted.dateTime.run text
  if rest.isEmpty then return standard else none

end RexxEditing.Toml
