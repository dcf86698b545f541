import MarkdownVault.Number.Binary64
import MarkdownVault.Number.Total

/-!
# Dates and moments

Days of the proleptic Gregorian calendar in the years 1 to 9999, and moments: a day, a time of
day to the microsecond and possibly an offset from universal time. Both have one numeric form,
the time since the start of 1970.
-/

namespace MarkdownVault

structure Date where
  year : Nat
  month : Nat
  day : Nat
  deriving DecidableEq, Repr, Inhabited

namespace Date

def isLeap (year : Nat) : Bool := year % 4 == 0 && (year % 100 != 0 || year % 400 == 0)

def daysInMonth (year month : Nat) : Nat :=
  if month = 2 then (if isLeap year then 29 else 28)
  else if month = 4 ∨ month = 6 ∨ month = 9 ∨ month = 11 then 30 else 31

def valid (d : Date) : Bool :=
  1 ≤ d.year && d.year ≤ 9999 && 1 ≤ d.month && d.month ≤ 12 &&
    1 ≤ d.day && d.day ≤ daysInMonth d.year d.month

/-- Days before the first of January of a year, counted from year 1. -/
def daysBeforeYear (year : Nat) : Nat :=
  let y := year - 1
  y * 365 + y / 4 - y / 100 + y / 400

def daysBeforeMonth (year month : Nat) : Nat :=
  total ((List.range (month - 1)).map fun m => daysInMonth year (m + 1))

/-- Days since the first of January of year 1. -/
def number (d : Date) : Nat :=
  daysBeforeYear d.year + daysBeforeMonth d.year d.month + (d.day - 1)

/-- The number of the first of January 1970. -/
def epochNumber : Nat := 719162

def epochDays (d : Date) : Int := Int.ofNat d.number - Int.ofNat epochNumber

/-- Walks through the months of a year; `day` counts from zero. -/
def inYear (year day : Nat) : Nat → Nat → Date
  | month, 0 => ⟨year, month, day + 1⟩
  | month, left + 1 =>
    let size := daysInMonth year month
    if day < size then ⟨year, month, day + 1⟩ else inYear year (day - size) (month + 1) left

/-- The date with a given number, by cycles of 400, 100, 4 years and one year. -/
def ofNumber (n : Nat) : Date :=
  let n400 := n / 146097
  let n := n % 146097
  let n100 := min (n / 36524) 3
  let n := n - n100 * 36524
  let n4 := n / 1461
  let n := n % 1461
  let n1 := min (n / 365) 3
  inYear (n400 * 400 + n100 * 100 + n4 * 4 + n1 + 1) (n - n1 * 365) 1 11

end Date

/-- A natural number with at least `width` digits. -/
def padded (width n : Nat) : List Char :=
  let digits := Nat.toDigits 10 n
  List.replicate (width - digits.length) '0' ++ digits

def Date.text (d : Date) : String :=
  String.ofList (padded 4 d.year ++ ['-'] ++ padded 2 d.month ++ ['-'] ++ padded 2 d.day)

/-- `offset` counts seconds east of universal time; without it the moment is local. -/
structure Moment where
  date : Date
  hour : Nat
  minute : Nat
  second : Nat
  micro : Nat
  offset : Option Int
  deriving DecidableEq, Repr, Inhabited

namespace Moment

def microsPerDay : Nat := 86400000000

/-- A day, a time below 24:00:00, and an offset below a whole day. -/
def valid (t : Moment) : Bool :=
  t.date.valid && t.hour < 24 && t.minute < 60 && t.second < 60 && t.micro < 1000000 &&
    (t.offset.all fun o => o.natAbs < 86400)

def microOfDay (t : Moment) : Nat :=
  ((t.hour * 60 + t.minute) * 60 + t.second) * 1000000 + t.micro

/-- Microseconds since 1970 in universal time; a local moment counts as universal. -/
def epochMicros (t : Moment) : Int :=
  t.date.epochDays * microsPerDay + t.microOfDay - (t.offset.getD 0) * 1000000

/-- The universal moment so many microseconds after the start of 1970, in the years 1 to 9999. -/
def ofEpochMicros? (micros : Int) : Option Moment :=
  let days := Int.fdiv micros microsPerDay + Int.ofNat Date.epochNumber
  let rest := (Int.fmod micros microsPerDay).toNat
  let date := Date.ofNumber days.toNat
  if 0 ≤ days ∧ date.valid then
    some {
      date
      hour := rest / 3600000000
      minute := rest / 60000000 % 60
      second := rest / 1000000 % 60
      micro := rest % 1000000
      offset := some 0 }
  else none

def offsetText (offset : Int) : List Char :=
  let minutes := offset.natAbs / 60
  [if offset < 0 then '-' else '+'] ++ padded 2 (minutes / 60) ++ [':'] ++
    padded 2 (minutes % 60)

def timeText (t : Moment) : List Char :=
  padded 2 t.hour ++ [':'] ++ padded 2 t.minute ++ [':'] ++ padded 2 t.second ++
    (if t.micro = 0 then [] else '.' :: padded 6 t.micro)

/-- Date, separator, time and offset; the fraction of a second only if there is one. -/
def textWith (separator : Char) (t : Moment) : String :=
  String.ofList (t.date.text.toList ++ [separator] ++ t.timeText ++
    (t.offset.map offsetText).getD [])

def text (t : Moment) : String := t.textWith 'T'

/-- Milliseconds since 1970: the seconds are rounded to a number first, then the product. -/
def epochMillis (t : Moment) : Binary64 :=
  (Binary64.ofRat false (mkRat t.epochMicros 1000000)).mul (Binary64.ofNat 1000)

/-- Microseconds since 1970 of a finite number of milliseconds. Whole seconds are split off; the
rest is rounded to a number of microseconds first and then to a whole one. -/
def microsOfMillis? (millis : Binary64) : Option Int :=
  match millis.divNat 1000 with
  | .finite a m e =>
    let seconds := (Binary64.exact a m e).num.tdiv (Binary64.exact a m e).den
    let rest := Binary64.ofRat a (Binary64.exact a m e - seconds)
    some (seconds * 1000000 + (rest.mul (Binary64.ofNat 1000000)).round)
  | _ => none

/-- The universal moment so many milliseconds after the start of 1970. -/
def ofEpochMillis? (millis : Binary64) : Option Moment :=
  (microsOfMillis? millis).bind ofEpochMicros?

end Moment

/-- The start of a day in universal time. -/
def Date.start (d : Date) : Moment := ⟨d, 0, 0, 0, 0, some 0⟩

end MarkdownVault
