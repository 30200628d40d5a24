import TitleClasses.Sorting.Leap

/-!
# Merging two runs

Two neighbouring sorted runs become one. What already stands in its place at the front and at the back
is found first and left alone. Of what is between, the shorter run is held back, and values are taken
from either run, the longer one being moved towards the held one: from the front if the first run is
held, and else from the back, which is the same merge on both runs read backwards.

Values are taken one by one until one run has won as many times in a row as the merge has patience for;
from then on whole groups are taken by leaps, as long as the groups are long. Long groups shorten the
patience and short groups lengthen it, and the next merge of the same sort starts with the patience that
this one ends with. Comparisons are made in this order and in no other, so that of several pairs that
cannot be compared the first one is told.
-/

namespace TitleClasses.Sorting

/-- Whether one value comes before another; of some pairs it cannot be said. -/
abbrev Comparison (ε α : Type) := α → α → Except ε Bool

variable {ε α : Type}

/-- How values are taken: one by one, after so many in a row from the moving run or from the held one,
or by leaps. -/
inductive Pace where
  | single (moving : Bool) (streak : Nat)
  | leaping

/-- The pace after a value more from one of the runs; a streak as long as the patience is followed by
leaps. -/
def Pace.after (moving : Bool) (patience : Nat) : Pace → Pace
  | .leaping => .leaping
  | .single side streak =>
    let n := if side = moving then streak + 1 else 1
    if patience ≤ n then .leaping else .single moving n

/-- A merge on the way: the values taken, last one first, the values left in either run, the pace, and
how long a streak of single values may become. -/
structure Merge (α : Type) where
  taken : List α
  moving : List α
  held : List α
  pace : Pace
  patience : Nat

namespace Merge

/-- A group of at least so many values keeps a merge leaping. -/
def longGroup : Nat := 7

/-- The patience with which a sort begins. -/
def firstPatience : Nat := 7

/-- Whether nothing is left to compare: a single held value is known to be the last one. -/
def isSettled (m : Merge α) : Bool := m.moving.isEmpty || m.held.length ≤ 1

/-- All values in order, if nothing is left to compare. -/
def values (m : Merge α) : List α := m.taken.reverse ++ m.moving ++ m.held

/-- Takes values of the moving run. -/
def takeMoving (m : Merge α) (n : Nat) : Merge α :=
  { m with taken := (m.moving.take n).reverse ++ m.taken, moving := m.moving.drop n }

/-- Takes values of the held run. -/
def takeHeld (m : Merge α) (n : Nat) : Merge α :=
  { m with taken := (m.held.take n).reverse ++ m.taken, held := m.held.drop n }

/-- Takes one value; `wins u c` tells whether the moving value `u` goes before the held value `c`. -/
def takeOne (wins : Comparison ε α) (m : Merge α) : Except ε (Merge α) :=
  match m.moving, m.held with
  | u :: _, c :: _ => do
    let moving ← wins u c
    let next := if moving then m.takeMoving 1 else m.takeHeld 1
    return { next with pace := Pace.after moving m.patience m.pace }
  | _, _ => .ok m

/-- Takes the held values that go before the first moving one, and then that one; their number. -/
def leapHeld (wins : Comparison ε α) (far : Bool) (m : Merge α) : Except ε (Nat × Merge α) :=
  match m.moving with
  | [] => .ok (0, m)
  | u :: _ => do
    let n ← leading (fun c => do return !(← wins u c)) far m.held
    let next := m.takeHeld n
    return (n, if next.isSettled then next else next.takeMoving 1)

/-- Takes the moving values that go before the first held one, and then that one; their number. -/
def leapMoving (wins : Comparison ε α) (far : Bool) (m : Merge α) : Except ε (Nat × Merge α) :=
  match m.held with
  | [] => .ok (0, m)
  | c :: _ => do
    let n ← leading (fun u => wins u c) far m.moving
    let next := m.takeMoving n
    return (n, if next.isSettled then next else next.takeHeld 1)

/-- Takes two groups, first one of the first run and then one of the second run; merging from the front,
the first run is the held one. -/
def leap (wins : Comparison ε α) (front : Bool) (m : Merge α) : Except ε (Merge α) := do
  let (first, next) ← if front then m.leapHeld wins front else m.leapMoving wins front
  if next.isSettled then return next
  let (second, next) ← if front then next.leapMoving wins front else next.leapHeld wins front
  if next.isSettled then return next
  if longGroup ≤ first || longGroup ≤ second then
    return { next with patience := max 1 (next.patience - 1) }
  else return { next with pace := .single false 0, patience := next.patience + 1 }

/-- Takes values until nothing is left to compare; at most `n` steps, each of which takes a value at
least. -/
def finish (wins : Comparison ε α) (front : Bool) : Nat → Merge α → Except ε (Merge α)
  | 0, m => .ok m
  | n + 1, m =>
    if m.isSettled then .ok m
    else match m.pace with
      | .single .. => do finish wins front n (← m.takeOne wins)
      | .leaping => do finish wins front n (← m.leap wins front)

/-- Merges two runs, of which the first value of the moving one is known to go before all held ones: the
merged values and the patience at the end. -/
def complete (wins : Comparison ε α) (front : Bool) (patience : Nat) (moving held : List α) :
    Except ε (List α × Nat) := do
  let m : Merge α := ⟨[], moving, held, .single false 0, patience⟩
  let m ← (m.takeMoving 1).finish wins front (moving.length + held.length)
  return (m.values, m.patience)

end Merge

/-- Two sorted runs as one, and the patience for the next merge; of equal values those of the first run
come first. -/
def mergeRuns (before : Comparison ε α) (patience : Nat) (first second : List α) :
    Except ε (List α × Nat) :=
  match second with
  | [] => .ok (first, patience)
  | head :: _ => do
    let n ← leading (fun x => do return !(← before head x)) true first
    let left := first.drop n
    match left.getLast? with
    | none => return (first ++ second, patience)
    | some last => do
      let k ← leading (fun y => do return !(← before y last)) false second.reverse
      let right := second.take (second.length - k)
      if right.isEmpty then return (first ++ second, patience)
      let (merged, patience) ←
        if left.length ≤ right.length then
          Merge.complete (fun u c => before u c) true patience right left
        else do
          let (backward, patience) ←
            Merge.complete (fun u c => before c u) false patience left.reverse right.reverse
          pure (backward.reverse, patience)
      return (first.take n ++ merged ++ second.drop (second.length - k), patience)

end TitleClasses.Sorting
