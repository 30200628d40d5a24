import TitleClasses.Fault
import TitleClasses.Instant

/-!
# Reading instants

An instant is written as a date, a code point of any kind, a time of day, and the distance to universal
time if it is known; all but the date may be left out. The date names a month and a day, or a week and
a day of the week, with hyphens or without; the time has two digits for each part, with colons or
without, and a fraction. The form is looked at first, then the distance to universal time, and only
then whether there is such a date and time.
-/

namespace TitleClasses.Instant

/-- The number of exactly `n` digits at the front of a text, and what follows them. -/
def readDigits (n : Nat) (t : Text) : Option (Nat × Text) :=
  let digits := t.take n
  if digits.length = n && digits.all Json.isDigit then some (Json.digitsValue digits, t.drop n)
  else none

/-- What follows a given code point at the front of a text, where it is asked for. -/
def skip (asked : Bool) (mark : CodePoint) (t : Text) : Option Text :=
  if !asked then some t else if t.head? = some mark then some (t.drop 1) else none

/-! ## Dates -/

/-- The sign between the parts of a date. -/
def hyphen : CodePoint := '-'

/-- The sign before the number of a week. -/
def weekSign : CodePoint := 'W'

/-- The number of code points of the date at the front of a text. After a week without hyphens the
number of digits tells whether the first of them is a day of the week. -/
def dateLength (t : Text) : Nat :=
  if t[4]? = some hyphen then
    if t[5]? = some weekSign then
      if t[8]? = some hyphen && !t[10]?.any Json.isDigit then 10 else 8
    else 10
  else if t[4]? = some weekSign then
    let digits := ((t.drop 7).takeWhile Json.isDigit).length
    if digits = 0 || (digits % 2 = 1 && 1 < digits) then 7 else 8
  else 8

/-- The day of a date, counted from the first of March of the year zero, for years from 1 on. -/
def dayOfDate (year month day : Nat) : Nat :=
  let y := if month ≤ 2 then year - 1 else year
  let m := if month ≤ 2 then month + 9 else month - 3
  365 * y + y / 4 - y / 100 + y / 400 + (153 * m + 2) / 5 + day - 1

/-- The day of the week of the first of January, from zero for Monday. -/
def firstWeekday (year : Nat) : Nat := (dayOfDate year 1 1 + 2) % 7

/-- The number of weeks of a year: the first week is the one with the first Thursday. -/
def weeksIn (year : Nat) : Nat :=
  if firstWeekday year = 3 || (firstWeekday year = 2 && isLeap year) then 53 else 52

/-- The Monday of the first week of a year. -/
def firstMonday (year : Nat) : Nat :=
  let monday := dayOfDate year 1 1 - firstWeekday year
  if 3 < firstWeekday year then monday + 7 else monday

/-- The date of a day of a week. The weeks of the year zero have no months. -/
def dateOfWeek (year week day : Nat) : Option (Nat × Nat × Nat) :=
  let weeks := if year = 0 then 52 else weeksIn year
  if week = 0 || weeks < week || day = 0 || 7 < day then none
  else if year = 0 then some (1, 0, 1)
  else some (dateOfDay (firstMonday year + 7 * (week - 1) + (day - 1)))

/-- The date of a text: year, month and day. -/
def readDate (t : Text) : Option (Nat × Nat × Nat) := do
  let (year, rest) ← readDigits 4 t
  let hyphens := rest.head? = some hyphen
  let rest ← skip hyphens hyphen rest
  if rest.head? = some weekSign then
    let (week, rest) ← readDigits 2 (rest.drop 1)
    if rest.isEmpty then dateOfWeek year week 1
    else
      let (day, _) ← readDigits 1 (← skip hyphens hyphen rest)
      dateOfWeek year week day
  else
    let (month, rest) ← readDigits 2 rest
    let (day, _) ← readDigits 2 (← skip hyphens hyphen rest)
    some (year, month, day)

/-! ## Times -/

/-- A time of day, or a distance to universal time. -/
structure TimeOfDay where
  hour : Nat
  minute : Nat
  second : Nat
  micro : Nat

/-- The parts of a time, the microseconds after them, and whether anything is left behind them. -/
structure TimeParts where
  parts : List Nat
  micro : Nat
  isLeft : Bool

/-- Whether anything is left of a text, at the end of which more may follow; a null ends it. -/
def isLeft (more : Bool) : Text → Bool
  | [] => more
  | c :: _ => c.val ≠ 0

/-- The fraction of a second: at most six digits, after which digits are dropped. -/
def readFraction (more : Bool) (t : Text) : Option TimeParts :=
  let digits := t.take 6
  if digits.all Json.isDigit then
    some ⟨[], Json.digitsValue digits * Nat.pow 10 (6 - digits.length),
      isLeft more ((t.drop 6).dropWhile Json.isDigit)⟩
  else none

/-- What follows a part of a time: nothing, a single code point of ASCII that does not count, the next
part, or a fraction. -/
def readRest (more colons : Bool) (next : Text → Option TimeParts) : Text → Option TimeParts
  | [] => some ⟨[], 0, more⟩
  | [c] => if c.val < 0x80 then some ⟨[], 0, isLeft more [c]⟩ else none
  | c :: r =>
    if colons && c = (':' : CodePoint) then next r
    else if c = ('.' : CodePoint) || c = (',' : CodePoint) then readFraction more r
    else if colons then none
    else next (c :: r)

/-- At most so many parts of a time, and a fraction. -/
def readParts (more colons : Bool) : Nat → Text → Option TimeParts
  | 0, t => readFraction more t
  | n + 1, t => do
    let (part, rest) ← readDigits 2 t
    let tail ← readRest more colons (readParts more colons n) rest
    some { tail with parts := part :: tail.parts }

/-- A time, and whether anything is left behind it. -/
def readClock (more : Bool) (t : Text) : Option (TimeOfDay × Bool) := do
  let p ← readParts more (t[2]? = some (':' : CodePoint)) 3 t
  some (⟨p.parts.getD 0 0, p.parts.getD 1 0, p.parts.getD 2 0, p.micro⟩, p.isLeft)

/-- Universal time itself. -/
def universal : Offset := ⟨false, 0, 0⟩

/-- The sign of universal time. -/
def universalSign : CodePoint := 'Z'

/-- Whether a code point begins the distance to universal time. -/
def isSign (c : CodePoint) : Bool :=
  c = ('+' : CodePoint) || c = hyphen || c = universalSign

/-- The distance to universal time that follows its sign. One of less than a second is none. -/
def readOffset (sign : CodePoint) (t : Text) : Option Offset :=
  if sign = universalSign then (if isLeft false t then none else some universal)
  else match readClock false t with
    | some (k, false) =>
      let seconds := k.hour * 3600 + k.minute * 60 + k.second
      some (if seconds = 0 then universal else ⟨sign = hyphen, seconds, k.micro⟩)
    | _ => none

/-- A time of day with the distance to universal time, if it is there. Before a distance something may
be left that does not count. -/
def readTime (t : Text) : Option (TimeOfDay × Option Offset) :=
  let body := t.takeWhile fun c => !isSign c
  match t.dropWhile fun c => !isSign c with
  | [] =>
    match readClock false body with
    | some (k, false) => some (k, none)
    | _ => none
  | sign :: zone => do
    let (k, _) ← readClock true body
    some (k, some (← readOffset sign zone))

/-! ## Instants -/

/-- The instant whose parts a text names, whether there is such a date and time or not. -/
def read? (t : Text) : Option Instant := do
  let n := dateLength t
  let (year, month, day) ← readDate (t.take n)
  match t.drop n with
  | [] => some ⟨year, month, day, 0, 0, 0, 0, none⟩
  | _ :: time =>
    let (k, offset) ← readTime time
    some ⟨year, month, day, k.hour, k.minute, k.second, k.micro, offset⟩

/-- Whether a distance to universal time is a day or more. -/
def isWide (o : Offset) : Bool := 86400 ≤ o.seconds

/-- Why there is no such date and time. -/
def fault? (i : Instant) : Option InstantFault :=
  match i.offset.filter isWide with
  | some o => some (.wideOffset o.west o.seconds o.micros)
  | none =>
    if i.year = 0 || 9999 < i.year then some (.noYear i.year)
    else if i.month = 0 || 12 < i.month then some .noMonth
    else if i.day = 0 || daysIn i.year i.month < i.day then some .noDay
    else if 23 < i.hour then some .noHour
    else if 59 < i.minute then some .noMinute
    else if 59 < i.second then some .noSecond
    else none

/-- The instant that a text names. -/
def read (t : Text) : Except Fault Instant :=
  match read? t with
  | none => .error (.instant (.malformed t))
  | some i =>
    match i.fault? with
    | some f => .error (.instant f)
    | none => .ok i

end TitleClasses.Instant
