import QuoteFeed.Instant

/-!
Civil time: the proleptic Gregorian calendar, and the text form `YYYY-MM-DDTHH:MM:SS` with an
optional fraction.
-/

namespace QuoteFeed

/-- A date by its year, month and day. -/
structure Date where
  year : Int
  month : Int
  day : Int
deriving DecidableEq

namespace Date

/-- Every fourth year, but of the centuries only every fourth. -/
def isLeap (year : Int) : Bool := year % 4 = 0 && (year % 100 ≠ 0 || year % 400 = 0)

/-- The number of days of each month, January first. -/
def monthLengths (year : Int) : List Int :=
  [31, if isLeap year then 29 else 28, 31, 30, 31, 30, 31, 31, 30, 31, 30, 31]

/-- The number of days of a month; one that does not exist has none. -/
def monthLength (year month : Int) : Int :=
  if 1 ≤ month then (monthLengths year).getD (month - 1).toNat 0 else 0

def isReal (d : Date) : Bool := 1 ≤ d.day && d.day ≤ monthLength d.year d.month

/-- The days from the start of the year 0 to the start of another. -/
def daysBeforeYear (year : Int) : Int := 365 * year + (year + 3) / 4 - (year + 99) / 100 + (year + 399) / 400

/-- The days from the start of a year to the start of one of its months. -/
def daysBeforeMonth (year month : Int) : Int := ((monthLengths year).take (month - 1).toNat).foldl (· + ·) 0

/-- The days from the start of 1970 to a date. -/
def toDays (d : Date) : Int :=
  daysBeforeYear d.year - daysBeforeYear 1970 + daysBeforeMonth d.year d.month + d.day - 1

end Date

/-- A date with a time of day; the fraction of the second is in microseconds. -/
structure CivilTime where
  date : Date
  hour : Int
  minute : Int
  second : Int
  micros : Int
deriving DecidableEq

namespace CivilTime

/-- Whether the date exists and the clock shows no more than it can; second 60 is the next minute. -/
def isReal (c : CivilTime) : Bool :=
  c.date.isReal && c.hour ≤ 23 && c.minute ≤ 59 && c.second ≤ 60

/-- The microseconds from 1970 to a civil time. -/
def toMicros (c : CivilTime) : Int :=
  (((c.date.toDays * 24 + c.hour) * 60 + c.minute) * 60 + c.second) * 1000000 + c.micros

/-- The instant of a civil time, if there is one. -/
def toInstant? (c : CivilTime) : Option Instant := Instant.ofUnits? 1000 c.toMicros

/-- The integer in `count` octets of a text from `start` on, if they spell one. -/
def field? (s : Octets) (start count : Nat) : Option Int := wholeInt? ((s.drop start).take count)

/-- The microseconds of a fraction, which is cut after six digits. -/
def fractionMicros (digits : Octets) : Int :=
  digitsValue ((digits ++ List.replicate 6 Ascii.zero).take 6)

/-- Whether the separators stand where the text form has them. -/
def hasShape (s : Octets) : Bool :=
  s[4]? = some Ascii.minus && s[7]? = some Ascii.minus && (s[10]? = some Ascii.upperT || s[10]? = some Ascii.space)
    && s[13]? = some Ascii.colon && s[16]? = some Ascii.colon && 19 ≤ s.length

/-- The civil time at the front of a text. -/
def ofText? (s : Octets) : Option CivilTime := do
  guard (hasShape s)
  let year ← field? s 0 4
  let month ← field? s 5 2
  let day ← field? s 8 2
  let hour ← field? s 11 2
  let minute ← field? s 14 2
  let second ← field? s 17 2
  let micros := match s.drop 19 with
    | Ascii.point :: rest => fractionMicros (rest.takeWhile isDigit)
    | _ => 0
  let c : CivilTime := { date := { year, month, day }, hour, minute, second, micros }
  guard c.isReal
  pure c

end CivilTime

/-- The instant that a text names as a civil time. -/
def Instant.ofIso8601? (s : Octets) : Option Instant := (CivilTime.ofText? s).bind CivilTime.toInstant?

end QuoteFeed
