/-
# Dates and times

A moment is a date, a time, or a date followed by a time and perhaps an offset. Days are
checked against their month, hours, minutes and seconds against their range; a minute may
have a sixty-first second.

Key definitions: `Toml.date?`, `Toml.time?`, `Toml.offset?`, `Toml.isMoment`.
-/
import SupportLayer.Toml.Number

namespace SupportLayer.Toml

/-- A number of two digits that is at most `most`, and what follows it. -/
def twoDigits? (least most : Nat) : List Char → Option (Nat × List Char)
  | a :: b :: rest =>
    let n := ofDigits 10 [a, b]
    if isDigit a && isDigit b && least ≤ n && n ≤ most then some (n, rest) else none
  | _ => none

/-- What follows a character. -/
def after? (c : Char) : List Char → Option (List Char)
  | x :: rest => if x = c then some rest else none
  | [] => none

/-- A year with a twenty-ninth of February. -/
def isLeapYear (year : Nat) : Bool := year % 4 = 0 && (year % 100 ≠ 0 || year % 400 = 0)

/-- The number of days of a month. -/
def daysIn (year month : Nat) : Nat :=
  if month = 2 then if isLeapYear year then 29 else 28
  else if month = 4 ∨ month = 6 ∨ month = 9 ∨ month = 11 then 30
  else 31

/-- What follows a date. -/
def date? (s : List Char) : Option (List Char) := do
  let (century, s) ← twoDigits? 0 99 s
  let (decade, s) ← twoDigits? 0 99 s
  let (month, s) ← twoDigits? 1 12 (← after? '-' s)
  let (_, s) ← twoDigits? 1 (daysIn (100 * century + decade) month) (← after? '-' s)
  pure s

/-- What follows the fraction of a second, if there is one. -/
def fraction? (s : List Char) : Option (List Char) :=
  match s with
  | '.' :: rest => if rest.head?.any isDigit then some (rest.dropWhile isDigit) else none
  | _ => some s

/-- What follows a time. -/
def time? (s : List Char) : Option (List Char) := do
  let (_, s) ← twoDigits? 0 23 s
  let (_, s) ← twoDigits? 0 59 (← after? ':' s)
  let (_, s) ← twoDigits? 0 60 (← after? ':' s)
  fraction? s

/-- What follows an offset from universal time. -/
def offset? : List Char → Option (List Char)
  | c :: rest =>
    if c = 'Z' ∨ c = 'z' then some rest
    else if c = '+' ∨ c = '-' then do
      let (_, s) ← twoDigits? 0 23 rest
      let (_, s) ← twoDigits? 0 59 (← after? ':' s)
      pure s
    else none
  | [] => none

/-- A run that is a time, with an offset or without. -/
def isClock (s : List Char) : Bool :=
  match time? s with
  | some [] => true
  | some rest => offset? rest == some []
  | none => false

/-- A run that is a date and nothing else. -/
def isDate (s : List Char) : Bool := date? s == some []

/-- A run that is a moment: a date, a time without an offset, or both with a `T` between. -/
def isMoment (s : List Char) : Bool :=
  match date? s with
  | some [] => true
  | some (c :: rest) => (c = 'T' || c = 't') && isClock rest
  | none => time? s == some []

end SupportLayer.Toml
