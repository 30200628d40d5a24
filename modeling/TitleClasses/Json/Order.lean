import TitleClasses.Json.Shape
import TitleClasses.Sorting.Runs

/-!
# Keys and their order

Names of vocabularies and profiles are keys: numbers are the same key when they are equal, whatever
their kind, and true and false count as one and zero. Texts are ordered among themselves and numbers
among themselves.
-/

namespace TitleClasses.Json

/-- A value as a number, if it is one; true is one and false is zero. -/
inductive Numeric where
  | exact (n : Int)
  | binary (x : Binary64)

/-- The number that a value is. -/
def numeric? : Json → Option Numeric
  | .bool b => some (.exact (if b then 1 else 0))
  | .int n => some (.exact n)
  | .float x => some (.binary x)
  | _ => none

/-- How two numbers compare; nothing compares with the value that is no number. -/
def Numeric.compare? : Numeric → Numeric → Option Ordering
  | .exact m, .exact n => some (compare m n)
  | .exact m, .binary y => (y.compareRatio m 1).map Ordering.swap
  | .binary x, .exact n => x.compareRatio n 1
  | .binary x, .binary y => x.compare? y

/-- Whether two values are the same key. -/
def sameKey (a b : Json) : Bool :=
  match a.numeric?, b.numeric? with
  | some x, some y => x.compare? y = some .eq || decide (a = b)
  | _, _ => decide (a = b)

/-- Whether one value comes before another. -/
def before (a b : Json) : Except Fault Bool :=
  match a, b with
  | .text s, .text t => .ok (decide (s < t))
  | a, b =>
    match a.numeric?, b.numeric? with
    | some x, some y => .ok (x.compare? y = some .lt)
    | _, _ => .error (.shape (.notOrdered a.kind b.kind))

/-- Values in increasing order. -/
def sortValues (vs : List Json) : Except Fault (List Json) := Sorting.sort before vs

/-- The texts of a list of values, joined by commas; every value must be a text. -/
def joinTexts (vs : List Json) : Except Fault Text := do
  let texts ← (vs.zipIdx).mapM fun (v, i) =>
    match v with
    | .text t => Except.ok t
    | v => .error (.shape (.notJoinable i v.kind))
  return Text.join ", " texts

end TitleClasses.Json
