/-!
# Leading values found by leaps

How many values at the front of a list have a property, when those that have it come first. The list is
probed at places further and further apart, and the gap around the border is then halved, so that few
values are looked at when few have the property, and not many when many have it. Which values are looked
at, and in which order, is part of what is said here: the test may fail, and then its first failure is
told, and on a list where the property comes and goes the number found depends on the probes.
-/

namespace TitleClasses.Sorting

variable {α ε : Type}

/-- From a place `last` whose value has the property, probes the places `next`, `2 * next + 1` and so on
for one whose value has it not. The last place found with the property, and the place found without it
or the length. -/
def stride (test : α → Except ε Bool) (xs : List α) (last next : Nat) : Except ε (Nat × Nat) :=
  if h : next < xs.length then do
    if ← test xs[next] then stride test xs next (2 * next + 1)
    else return (last, next)
  else .ok (last, xs.length)
termination_by xs.length - next

/-- The middle of a gap between two places, of two middles the one further from the front, or the one
nearer to it. -/
def middle (far : Bool) (low high : Nat) : Nat :=
  low + (high - low + (if far then 1 else 0)) / 2

/-- Halves the gap between a place `low` whose value has the property and a place `high` whose value has
it not, in at most `n` rounds: the last place with the property. -/
def halve (test : α → Except ε Bool) (far : Bool) (xs : List α) : Nat → Nat → Nat → Except ε Nat
  | 0, low, _ => .ok low
  | n + 1, low, high =>
    if high ≤ low + 1 then .ok low
    else
      let m := middle far low high
      match xs[m]? with
      | none => .ok low
      | some x => do
        if ← test x then halve test far xs n m high
        else halve test far xs n low m

/-- How many values at the front of a list have a property. -/
def leading (test : α → Except ε Bool) (far : Bool) : List α → Except ε Nat
  | [] => .ok 0
  | x :: xs => do
    if ← test x then
      let (low, high) ← stride test (x :: xs) 0 1
      return (← halve test far (x :: xs) (xs.length + 1) low high) + 1
    else return 0

end TitleClasses.Sorting
