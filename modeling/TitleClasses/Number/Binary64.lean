/-!
# Binary floating-point numbers

Numbers with a fraction, as a document or a statistics file may hold them: sign, mantissa and binary
exponent of a 64-bit format, or an infinity, or no number. All rounding goes through one function,
`Binary64.ofRatio`, which takes the nearest number of the format and the even one of two.
-/

namespace TitleClasses

/-- A 64-bit binary floating-point number. A finite one is `mantissa * 2 ^ exponent` with its sign;
`ofRatio` gives mantissas below `2 ^ 53` and exponents from `-1074` to `971`, and mantissas of at
least `2 ^ 52` except at exponent `-1074`. -/
inductive Binary64 where
  | nan
  | infinite (negative : Bool)
  | finite (negative : Bool) (mantissa : Nat) (exponent : Int)
deriving DecidableEq, Repr

namespace Binary64

/-- `a / b` rounded to the nearest integer, and to the even one when two are equally near. -/
def roundDiv (a b : Nat) : Nat :=
  let q := a / b
  let r := a % b
  if 2 * r < b then q else if b < 2 * r then q + 1 else if q % 2 = 0 then q else q + 1

/-- A positive power of two as the ratio of two natural numbers. -/
def powerRatio (base : Nat) (e : Int) : Nat × Nat :=
  if 0 ≤ e then (Nat.pow base e.toNat, 1) else (1, Nat.pow base (-e).toNat)

/-- The number nearest to `num / den` with the given sign; an infinity when it lies beyond the largest
finite number by half a unit or more. -/
def ofRatio (negative : Bool) (num den : Nat) : Binary64 :=
  if num = 0 || den = 0 then .finite negative 0 (-1074)
  else
    let scaled (e : Int) : Nat × Nat :=
      let p := powerRatio 2 e
      (num * p.2, den * p.1)
    let guess : Int := max ((num.log2 : Int) - (den.log2 : Int) - 52) (-1074)
    let first := scaled guess
    let e := if first.1 / first.2 < Nat.pow 2 52 && -1074 < guess then guess - 1 else guess
    let exact := scaled e
    let m := roundDiv exact.1 exact.2
    let (m, e) := if m = Nat.pow 2 53 then (Nat.pow 2 52, e + 1) else (m, e)
    if 971 < e then .infinite negative else .finite negative m e

/-- The number nearest to `digits * 10 ^ exponent`. Far out of range the answer is known beforehand. -/
def ofDecimal (negative : Bool) (digits : Nat) (exponent : Int) : Binary64 :=
  let size : Int := ((Nat.toDigits 10 digits).length : Int) + exponent
  if digits = 0 then .finite negative 0 (-1074)
  else if 400 < size then .infinite negative
  else if size < -400 then .finite negative 0 (-1074)
  else
    let p := powerRatio 10 exponent
    ofRatio negative (digits * p.1) p.2

/-- The number nearest to an integer, or none when the integer lies beyond all finite numbers. -/
def ofInt? (n : Int) : Option Binary64 :=
  match ofRatio (n < 0) n.natAbs 1 with
  | .infinite _ => none
  | x => some x

/-- A finite number as an integer over a power of two: the signed numerator and the exponent. -/
def signed (negative : Bool) (mantissa : Nat) : Int := if negative then -(mantissa : Int) else mantissa

/-- The sum, rounded. A zero sum of two negative zeros keeps its sign. -/
def add : Binary64 → Binary64 → Binary64
  | .nan, _ => .nan
  | _, .nan => .nan
  | .infinite a, .infinite b => if a = b then .infinite a else .nan
  | .infinite a, _ => .infinite a
  | _, .infinite b => .infinite b
  | .finite a m e, .finite b n f =>
    let low := min e f
    let units (e : Int) : Int := (Nat.pow 2 (e - low).toNat : Nat)
    let total := signed a m * units e + signed b n * units f
    if total = 0 then .finite (a && b) 0 (-1074)
    else
      let p := powerRatio 2 low
      ofRatio (total < 0) (total.natAbs * p.1) p.2

/-- Whether a number is zero, of either sign. -/
def isZero : Binary64 → Bool
  | .finite _ m _ => m = 0
  | _ => false

/-- The number as an exact ratio of an integer and a positive natural number, if it is finite. -/
def ratio? : Binary64 → Option (Int × Nat)
  | .finite a m e =>
    let p := powerRatio 2 e
    some (signed a m * (p.1 : Int), p.2)
  | _ => none

/-- How a number compares with an exact ratio of an integer and a positive natural number. -/
def compareRatio (x : Binary64) (num : Int) (den : Nat) : Option Ordering :=
  match x with
  | .nan => none
  | .infinite a => some (if a then .lt else .gt)
  | x => x.ratio?.map fun r => compare (r.1 * (den : Int)) (num * (r.2 : Int))

/-- How two numbers compare; nothing compares with no number. -/
def compare? (x y : Binary64) : Option Ordering :=
  match x, y with
  | .nan, _ => none
  | _, .nan => none
  | .infinite a, .infinite b =>
    some (if a = b then .eq else if a then .lt else .gt)
  | .infinite a, .finite .. => some (if a then .lt else .gt)
  | .finite .., .infinite b => some (if b then .gt else .lt)
  | .finite a m e, .finite b n f =>
    -- Both in units of the smaller power of two.
    let low := min e f
    let left := m * Nat.pow 2 (e - low).toNat
    let right := n * Nat.pow 2 (f - low).toNat
    some (if a = b then (if a then compare right left else compare left right)
      else compare (signed a left) (signed b right))

end Binary64

end TitleClasses
