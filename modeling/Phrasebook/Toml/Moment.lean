import Phrasebook.Toml.Reader
/-!
# Dates and times of TOML

A date, a time, or both with or without an offset from universal time. Only days that the calendar
has are read; the second 60 is, since a minute with a leap second has one.

## Main definitions

* `Toml.daysIn`: the length of a month.
* `Toml.Reader.moment`: a date, a time, or both.
-/

namespace Phrasebook

namespace Toml

/-- The year has a 29th of February. -/
def isLeapYear (year : Nat) : Bool :=
  year % 4 = 0 && (year % 100 ≠ 0 || year % 400 = 0)

/-- How many days the month has; none if the year has no such month. -/
def daysIn (year month : Nat) : Nat :=
  if month = 2 then if isLeapYear year then 29 else 28
  else if month ∈ [4, 6, 9, 11] then 30
  else if 1 ≤ month ∧ month ≤ 12 then 31
  else 0

namespace Reader

/-- The number that the next `count` decimal digits continue. -/
def decimal (number : Nat) : (count : Nat) → Reader Nat
  | 0 => return number
  | count + 1 => do
    let c ← nextIf Char.isDigit
    decimal (number * 10 + (c.toNat - '0'.toNat)) count

/-- Two digits that spell a number of at most `most`. -/
def upTo (most : Nat) : Reader Unit := do
  guard ((← decimal 0 2) ≤ most)

/-- A day: year, month and day of the month. -/
def date : Reader Unit := do
  let year ← decimal 0 4
  word ['-']
  let month ← decimal 0 2
  word ['-']
  let day ← decimal 0 2
  guard (1 ≤ day ∧ day ≤ daysIn year month)

/-- Digits after the point of a second. -/
def fraction : Reader Unit := do
  word ['.']
  guard (!(← takeWhile Char.isDigit).isEmpty)

/-- A time of day. -/
def time : Reader Unit := do
  upTo 23
  word [':']
  upTo 59
  word [':']
  upTo 60
  let _ ← optional fraction

/-- An offset from universal time. -/
def offset : Reader Unit := do
  match ← next with
  | 'Z' | 'z' => return
  | '+' | '-' =>
    upTo 23
    word [':']
    upTo 59
  | _ => failure

/-- A time that follows a date, with its offset. -/
def timeOfDate : Reader Unit := do
  let _ ← nextIf fun c => c = 'T' || c = 't' || c = ' '
  time
  let _ ← optional offset

/-- A date, a time, or a date with a time. -/
def moment : Reader Unit :=
  (do date; let _ ← optional timeOfDate) <|> time

end Reader

end Toml

end Phrasebook
