import TitleClasses.Number.Binary64
import TitleClasses.Text.Basic

/-!
# Shortest decimals

A floating-point number is written with the fewest significant digits that read back as the same
number, and with the nearest such digits to it. The digits are found by exact arithmetic: the reals
that round to the number form an interval around it, closed when the mantissa is even, and for one
digit, two digits and so on the two neighbours of the number on that decimal grid are tested.
-/

namespace TitleClasses.Binary64

/-- The reals that round to a finite number `mantissa * 2 ^ exponent`, in units of
`2 ^ (exponent - 2)`: the number itself, the ends, and whether the ends belong to it. Below a power
of two the grid of the format is twice as fine. -/
structure Cell where
  value : Nat
  low : Nat
  high : Nat
  closed : Bool

/-- The cell of a mantissa. -/
def cell (mantissa : Nat) (exponent : Int) : Cell where
  value := 4 * mantissa
  low := 4 * mantissa - (if mantissa = Nat.pow 2 52 && -1074 < exponent then 1 else 2)
  high := 4 * mantissa + 2
  closed := mantissa % 2 = 0

/-- Digits and a decimal exponent: the number `digits * 10 ^ exponent`. -/
structure Decimal where
  digits : Nat
  exponent : Int
deriving DecidableEq, Repr

/-- The exponent of the leading digit of the positive ratio `num / den`. -/
def leadingExponent (num den : Nat) : Int :=
  if den ≤ num then ((Nat.toDigits 10 (num / den)).length : Int) - 1
  else -(((List.range 400).find? fun j => den ≤ num * Nat.pow 10 j).getD 400 : Int)

/-- The nearer of the two neighbours of `value * a / b` on the grid of step `10 ^ k` that lie in the
cell, of two equally near ones the even one. -/
def onGrid (c : Cell) (a b : Nat) (k : Int) : Option Decimal :=
  let p := powerRatio 10 k
  -- A grid point `d * 10 ^ k` is compared with `x * a / b` as `d * point` with `x * unit`.
  let point := p.1 * b
  let unit := a * p.2
  let inside (d : Nat) : Bool :=
    if c.closed then c.low * unit ≤ d * point && d * point ≤ c.high * unit
    else c.low * unit < d * point && d * point < c.high * unit
  let d := c.value * unit / point
  let below := c.value * unit - d * point
  let above := (d + 1) * point - c.value * unit
  match inside d, inside (d + 1) with
  | true, true =>
    if below < above || (below = above && d % 2 = 0) then some ⟨d, k⟩ else some ⟨d + 1, k⟩
  | true, false => some ⟨d, k⟩
  | false, true => some ⟨d + 1, k⟩
  | false, false => none

/-- The shortest decimal that reads back as the finite positive number `mantissa * 2 ^ exponent`. -/
def shortest (mantissa : Nat) (exponent : Int) : Decimal :=
  let c := cell mantissa exponent
  let p := powerRatio 2 (exponent - 2)
  let lead := leadingExponent (c.value * p.1) p.2
  ((List.range 17).findSome? fun (n : Nat) => onGrid c p.1 p.2 (lead - (n : Int))).getD ⟨0, 0⟩

/-- The significant digits of a decimal without zeros at their end, and how many of them stand before
the point. -/
def significant (d : Decimal) : Text × Int :=
  let all := Text.ofNat d.digits
  let kept := (all.reverse.dropWhile fun c => c = ('0' : CodePoint)).reverse
  (kept, (all.length : Int) + d.exponent)

/-- How numbers are laid out: the most places before the point that are written, and whether a digit
stands after the point in front of an exponent too. -/
structure Layout where
  places : Int
  fraction : Bool

/-- The digits of a number, laid out. A number is written positionally, with at least one digit on
either side of the point, while its leading digit lies between the fourth place after the point and
the last one before it that is written; else with one digit before the point and a signed exponent of
at least two digits. -/
def Layout.write (l : Layout) (digits : Text) (point : Int) : Text :=
  if -4 < point && point ≤ l.places then
    if point ≤ 0 then "0." ++ List.replicate (-point).toNat ('0' : CodePoint) ++ digits
    else
      let n := point.toNat
      if digits.length ≤ n then
        digits ++ List.replicate (n - digits.length) ('0' : CodePoint) ++ ".0"
      else digits.take n ++ "." ++ digits.drop n
  else
    let e := point - 1
    let mark : Text := if e < 0 then "e-" else "e+"
    let fraction : Text :=
      if 1 < digits.length then "." ++ digits.drop 1 else if l.fraction then ".0" else []
    digits.take 1 ++ fraction ++ mark ++ Text.padded 10 2 e.natAbs

/-- The layout of numbers in messages and documents. -/
def Layout.usual : Layout := ⟨16, false⟩

/-- The mark before a number that is below zero. -/
def signMark (negative : Bool) : Text := if negative then "-" else ""

/-- The text of a number; the words for the values that are no finite numbers are given. -/
def textWith (nanText infiniteText : Text) : Binary64 → Text
  | .nan => nanText
  | .infinite negative => signMark negative ++ infiniteText
  | .finite negative mantissa exponent =>
    let s := significant (shortest mantissa exponent)
    signMark negative ++ (if mantissa = 0 then "0.0" else Layout.usual.write s.1 s.2 : Text)

/-- The text of a number in messages. -/
def text (x : Binary64) : Text := x.textWith "nan" "inf"

end TitleClasses.Binary64
