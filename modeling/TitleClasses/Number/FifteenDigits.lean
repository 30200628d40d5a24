import TitleClasses.Number.Extended
import TitleClasses.Number.Shortest

/-!
# Fifteen digits

A floating-point number to fifteen significant digits, calculated with 64 significant bits: the number
is brought between one and ten, half a unit of the last digit is added, and the digits are taken off one
after another. Every step rounds, so the last digit of a number that lies near the middle of two decimals
may be that of the farther one.
-/

namespace TitleClasses.Binary64

/-- A number with a power of ten: `value * 10 ^ exponent`. -/
structure Scientific where
  value : Extended
  exponent : Int

/-- Multiplies a power of ten by `step`, which stands for `places` places, as long as the product is not
greater than a number, in at most `n` rounds. The product is rounded, so the power of ten comes along. -/
def climb (x step : Extended) (places : Nat) : Nat → Scientific → Scientific
  | 0, scale => scale
  | n + 1, scale =>
    let next := step.mul scale.value
    if x.less next then scale
    else climb x step places n ⟨next, scale.exponent + places⟩

/-- Multiplies a number by `step`, which stands for `places` places, as long as it is below `bound`, in
at most `n` rounds. -/
def raise (bound step : Extended) (places : Nat) : Nat → Scientific → Scientific
  | 0, x => x
  | n + 1, x =>
    if x.value.less bound then raise bound step places n ⟨x.value.mul step, x.exponent - places⟩
    else x

/-- The integer one. -/
def one : Extended := .ofDecimal 1 0

/-- The integer ten. -/
def ten : Extended := .ofDecimal 10 0

/-- Brings a positive number between one and ten. A power of ten is divided off that is found in steps of
a hundred, ten and one places; a small number is multiplied, eight places at a time and then by one. -/
def toScientific (x : Extended) : Scientific :=
  let scale := climb x (.ofDecimal 1 100) 100 4 ⟨one, 0⟩
  let scale := climb x (.ofDecimal 1 10) 10 10 scale
  let scale := climb x ten 1 10 scale
  let scaled : Scientific := ⟨x.div scale.value, scale.exponent⟩
  raise one ten 1 10 (raise (.ofDecimal 1 (-8)) (.ofDecimal 1 8) 8 50 scaled)

/-- Half a unit of the fifteenth digit. -/
def halfUnit : Extended := (Extended.ofDecimal 5 (-5)).mul (.ofDecimal 1 (-10))

/-- A number between one and ten with half a unit of its last digit added. -/
def Scientific.roundedUp (x : Scientific) : Scientific :=
  let sum := x.value.add halfUnit
  if sum.less ten then ⟨sum, x.exponent⟩ else ⟨sum.mul (.ofDecimal 1 (-1)), x.exponent + 1⟩

/-- The first `n` digits of a number between one and ten, after the digits `done`. -/
def leadingDigits : Nat → Nat → Extended → Nat
  | 0, done, _ => done
  | n + 1, done, x => leadingDigits n (10 * done + x.floor) (x.fraction.mul ten)

/-- The decimal of fifteen significant digits for the positive number `mantissa * 2 ^ exponent`. -/
def fifteenDigits (mantissa : Nat) (exponent : Int) : Decimal :=
  let x := (toScientific ⟨mantissa, exponent⟩).roundedUp
  ⟨leadingDigits 15 0 x.value, x.exponent - 14⟩

end TitleClasses.Binary64
