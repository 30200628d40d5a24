import TitleClasses.Number.Binary64

/-!
# Arithmetic with 64 significant bits

Positive numbers of a format wider than the usual one, and zero. Every operation gives the number of the
format nearest to the exact result, and the one with the even significand of two; its exponents have no
bounds.
-/

namespace TitleClasses

/-- A number of the wider format, `mantissa * 2 ^ exponent`, with a mantissa of at most `2 ^ 64`. -/
structure Extended where
  mantissa : Nat
  exponent : Int
deriving DecidableEq, Repr

namespace Extended

/-- The number nearest to `num / den`. -/
def ofRatio (num den : Nat) : Extended :=
  if num = 0 || den = 0 then ⟨0, 0⟩
  else
    let scaled (e : Int) : Nat × Nat :=
      let p := Binary64.powerRatio 2 e
      (num * p.2, den * p.1)
    let guess : Int := (num.log2 : Int) - (den.log2 : Int) - 63
    let first := scaled guess
    let e := if first.1 / first.2 < Nat.pow 2 63 then guess - 1 else guess
    let exact := scaled e
    ⟨Binary64.roundDiv exact.1 exact.2, e⟩

/-- The number as an exact ratio. -/
def ratio (x : Extended) : Nat × Nat :=
  let p := Binary64.powerRatio 2 x.exponent
  (x.mantissa * p.1, p.2)

/-- The usual number nearest to `digits * 10 ^ exponent`, which the wider format has too. -/
def ofDecimal (digits : Nat) (exponent : Int) : Extended :=
  match Binary64.ofDecimal false digits exponent with
  | .finite _ m e => ⟨m, e⟩
  | _ => ⟨0, 0⟩

/-- The number nearest to a sum. -/
def add (x y : Extended) : Extended :=
  let (a, b) := x.ratio
  let (c, d) := y.ratio
  ofRatio (a * d + c * b) (b * d)

/-- The number nearest to the product with an exact ratio. -/
def scale (x : Extended) (num den : Nat) : Extended :=
  let (a, b) := x.ratio
  ofRatio (a * num) (b * den)

/-- The number nearest to a product. -/
def mul (x y : Extended) : Extended := x.scale y.ratio.1 y.ratio.2

/-- The number nearest to a quotient. -/
def div (x y : Extended) : Extended := x.scale y.ratio.2 y.ratio.1

/-- Whether a number is less than another one. -/
def less (x y : Extended) : Bool :=
  let (a, b) := x.ratio
  let (c, d) := y.ratio
  a * d < c * b

/-- The greatest integer that is not greater than a number. -/
def floor (x : Extended) : Nat := x.ratio.1 / x.ratio.2

/-- The part of a number after the point. -/
def fraction (x : Extended) : Extended :=
  let (a, b) := x.ratio
  ofRatio (a % b) b

end Extended

end TitleClasses
