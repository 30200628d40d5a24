import TitleClasses.Text.Basic

/-!
# Instants

The time at which a document was classified: a date, a time of day to the microsecond, and the
distance to universal time if it is known. The written form leaves the fraction of a second out when
it is zero and writes six digits otherwise. Written instants of universal time are kept in a table
that is ordered by their texts.
-/

namespace TitleClasses

/-- A distance to universal time, in seconds and microseconds of one sign. -/
structure Offset where
  west : Bool
  seconds : Nat
  micros : Nat
deriving DecidableEq, Repr

/-- An instant. -/
structure Instant where
  year : Nat
  month : Nat
  day : Nat
  hour : Nat
  minute : Nat
  second : Nat
  micro : Nat
  offset : Option Offset
deriving DecidableEq, Repr

namespace Instant

/-- Two digits. -/
def two (n : Nat) : Text := Text.padded 10 2 n

/-- A fraction of a second, which is left out when it is zero. -/
def fractionText (micros : Nat) : Text :=
  if micros = 0 then [] else "." ++ Text.padded 10 6 micros

/-- The text of a distance to universal time; seconds are left out when they are zero. -/
def offsetText (o : Offset) : Text :=
  let sign : Text := if o.west && (o.seconds != 0 || o.micros != 0) then "-" else "+"
  let minutes := Text.concat [two (o.seconds / 3600), ":", two (o.seconds / 60 % 60)]
  let rest : Text := if o.seconds % 60 = 0 && o.micros = 0 then []
    else Text.concat [":", two (o.seconds % 60), fractionText o.micros]
  Text.concat [sign, minutes, rest]

/-- The written form of an instant. -/
def text (i : Instant) : Text :=
  Text.concat [Text.padded 10 4 i.year, "-", two i.month, "-", two i.day, "T", two i.hour, ":",
    two i.minute, ":", two i.second, fractionText i.micro, (i.offset.map offsetText).getD []]

/-- The date and the time to the minute. -/
def shortText (i : Instant) : Text :=
  Text.concat [Text.padded 10 4 i.year, "-", two i.month, "-", two i.day, " ", two i.hour, ":",
    two i.minute]

/-- The date and the time to the thousandth of a second. -/
def stampText (i : Instant) : Text :=
  Text.concat [i.shortText, ":", two i.second, ",", Text.padded 10 3 (i.micro / 1000)]

/-- Whether a year has a day more. -/
def isLeap (year : Nat) : Bool := year % 4 = 0 && (year % 100 ≠ 0 || year % 400 = 0)

/-- The number of days of a month. -/
def daysIn (year month : Nat) : Nat :=
  if month = 2 then (if isLeap year then 29 else 28)
  else if month = 4 || month = 6 || month = 9 || month = 11 then 30 else 31

/-- The date of a day, counted from the first of March of the year zero. -/
def dateOfDay (n : Nat) : Nat × Nat × Nat :=
  let era := n / 146097
  let dayOfEra := n % 146097
  let yearOfEra := (dayOfEra - dayOfEra / 1460 + dayOfEra / 36524 - dayOfEra / 146096) / 365
  let dayOfYear := dayOfEra - (365 * yearOfEra + yearOfEra / 4 - yearOfEra / 100)
  let m := (5 * dayOfYear + 2) / 153
  let day := dayOfYear - (153 * m + 2) / 5 + 1
  let month := if m < 10 then m + 3 else m - 9
  (yearOfEra + era * 400 + (if month ≤ 2 then 1 else 0), month, day)

/-- The day of the beginning of 1970, counted from the first of March of the year zero. -/
def epochDay : Nat := 719468

/-- The instant of universal time that many microseconds after the beginning of 1970. -/
def ofEpoch (micros : Nat) : Instant :=
  let seconds := micros / 1000000
  let (year, month, day) := dateOfDay (seconds / 86400 + epochDay)
  ⟨year, month, day, seconds / 3600 % 24, seconds / 60 % 60, seconds % 60, micros % 1000000,
    some ⟨false, 0, 0⟩⟩

end Instant

end TitleClasses
