import TitleClasses.Fault
import TitleClasses.Text.Digit

/-!
# Numerals

An integer as a person writes it: blanks at either end, a sign or none, and decimal digits of any
script, with single low lines between them where one likes.
-/

namespace TitleClasses.Numeral

/-- The blanks around a numeral: white space but for the four separators of ASCII. -/
def isBlank (c : CodePoint) : Bool := c.isBlank && !(0x1c ≤ c.val && c.val ≤ 0x1f)

/-- The low line that may stand between two digits. -/
def gap : CodePoint := '_'

/-- Whether a code point is a digit or a low line. -/
def isPart (c : CodePoint) : Bool := c.digitValue?.isSome || c = gap

/-- The sign at the front of a text, which is minus one or one, and what follows it. -/
def sign : Text → Int × Text
  | [] => (1, [])
  | c :: r => if c = ('-' : CodePoint) then (-1, r) else if c = ('+' : CodePoint) then (1, r) else (1, c :: r)

/-- The number that digits stand for. -/
def value (digits : Text) : Nat := digits.foldl (fun n c => 10 * n + c.digitValue?.getD 0) 0

/-- The integer that a numeral stands for. Digits beyond the limit are a fault even when something
that is no numeral follows them. -/
def read (t : Text) : Except Fault Int :=
  let (factor, body) := sign (t.dropWhile isBlank)
  let groups := Text.splitAt gap (body.takeWhile isPart)
  let digits := groups.flatten
  if groups.any List.isEmpty then .error (.notInteger t)
  else if Json.maxDigits < digits.length then .error (.unreadable (.hugeNumeral digits.length))
  else if (body.dropWhile isPart).all isBlank then .ok (factor * value digits)
  else .error (.notInteger t)

end TitleClasses.Numeral
