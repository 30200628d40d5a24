import TitleClasses.Sorting.Merge

/-!
# Sorting by runs

Rising and falling runs are looked for in the values, short ones are extended by insertion, and
neighbouring runs are merged, those whose boundary lies deepest first. Sorting compares in a fixed
order, so that of several pairs that have no order the first one compared is told.
-/

namespace TitleClasses.Sorting

variable {ε α : Type}

/-- The length of the run that goes on after its first value `previous`, rising or falling. -/
def runLength (before : Comparison ε α) (falling : Bool) (previous : α) : List α → Except ε Nat
  | [] => .ok 0
  | x :: xs => do
    if (← before x previous) = falling then return (← runLength before falling x xs) + 1
    else return 0

/-- The place for a value in a sorted list, between `low` and `high`, found by halving; at most `n`
rounds. -/
def searchPlace (before : Comparison ε α) (sorted : List α) (v : α) : Nat → Nat → Nat → Except ε Nat
  | 0, low, _ => .ok low
  | n + 1, low, high =>
    if high ≤ low then .ok low
    else
      let m := low + (high - low) / 2
      match sorted[m]? with
      | none => .ok low
      | some w => do
        if ← before v w then searchPlace before sorted v n low m
        else searchPlace before sorted v n (m + 1) high

/-- Inserts values one after another into a sorted list. -/
def insertAll (before : Comparison ε α) (sorted : List α) : List α → Except ε (List α)
  | [] => .ok sorted
  | v :: vs => do
    let place ← searchPlace before sorted v (sorted.length + 1) 0 sorted.length
    insertAll before (sorted.take place ++ v :: sorted.drop place) vs

/-- The length to which short runs are extended among `n` values: the six leading bits of `n`, rounded
up. -/
def usualRun (n : Nat) : Nat :=
  if n < 64 then n else (n + Nat.pow 2 (n.log2 - 5) - 1) / Nat.pow 2 (n.log2 - 5)

/-- The sorted run at the front of some values, and the values after it. A falling run is turned round,
and one that is shorter than usual is extended by insertion. -/
def takeRun (before : Comparison ε α) (usual : Nat) : List α → Except ε (List α × List α)
  | [] => .ok ([], [])
  | [v] => .ok ([v], [])
  | v :: w :: rest => do
    let all := v :: w :: rest
    let falling ← before w v
    let n := (← runLength before falling w rest) + 2
    let run := if falling then (all.take n).reverse else all.take n
    if usual ≤ n then return (run, all.drop n)
    else return (← insertAll before run ((all.take usual).drop n), all.drop usual)

/-- A run that waits to be merged, and how deep the boundary between it and the next run lies. -/
structure Waiting (α : Type) where
  values : List α
  depth : Nat

/-- The runs that wait to be merged, last one first, and the patience of the next merge. -/
structure Pile (α : Type) where
  runs : List (Waiting α)
  patience : Nat

/-- How deep the boundary between two neighbouring runs lies among `n` values: the number of halvings
of the whole that tell the middles of the runs apart. -/
def boundaryDepth (n start left right : Nat) : Nat :=
  let a := 2 * start + left
  let b := a + left + right
  (((List.range 64).find? fun k => a * Nat.pow 2 k / n ≠ b * Nat.pow 2 k / n).getD 0) + 1

/-- Merges the last run `top` with those before it, which are given last one first, as long as their
boundary lies deeper than the given one, which becomes that of the last run. -/
def settle (before : Comparison ε α) (depth patience : Nat) (top : List α) :
    List (Waiting α) → Except ε (Pile α)
  | [] => .ok ⟨[⟨top, depth⟩], patience⟩
  | next :: rest =>
    if depth < next.depth then do
      let (merged, patience) ← mergeRuns before patience next.values top
      settle before depth patience merged rest
    else .ok ⟨⟨top, depth⟩ :: next :: rest, patience⟩

/-- The pile with a new run among `n` values. -/
def Pile.add (before : Comparison ε α) (n : Nat) (run : List α) (pile : Pile α) :
    Except ε (Pile α) :=
  match pile.runs with
  | [] => .ok { pile with runs := [⟨run, 0⟩] }
  | top :: rest => do
    let start := (rest.flatMap Waiting.values).length
    let depth := boundaryDepth n start top.values.length run.length
    let settled ← settle before depth pile.patience top.values rest
    return { settled with runs := ⟨run, 0⟩ :: settled.runs }

/-- The waiting runs, last one first, merged into one; at most `n` rounds. The two last runs are merged,
but those before the last one if the first of them is shorter than the last one. -/
def mergeAll (before : Comparison ε α) : Nat → Nat → List (Waiting α) → Except ε (List α)
  | _, _, [] => .ok []
  | _, _, [w] => .ok w.values
  | 0, _, w :: _ => .ok w.values
  | n + 1, patience, [a, b] => do
    let (merged, patience) ← mergeRuns before patience b.values a.values
    mergeAll before n patience [⟨merged, 0⟩]
  | n + 1, patience, a :: b :: c :: rest => do
    if c.values.length < a.values.length then
      let (merged, patience) ← mergeRuns before patience c.values b.values
      mergeAll before n patience (a :: ⟨merged, 0⟩ :: rest)
    else
      let (merged, patience) ← mergeRuns before patience b.values a.values
      mergeAll before n patience (⟨merged, 0⟩ :: c :: rest)

/-- The pile with the runs of the values that are left, among `n` values; at most `rounds` runs are
taken. -/
def Pile.collect (before : Comparison ε α) (n : Nat) : Nat → List α → Pile α → Except ε (Pile α)
  | 0, _, pile => .ok pile
  | _, [], pile => .ok pile
  | rounds + 1, v :: vs, pile => do
    let (run, rest) ← takeRun before (usualRun n) (v :: vs)
    Pile.collect before n rounds rest (← pile.add before n run)

/-- Values in increasing order. -/
def sort (before : Comparison ε α) (xs : List α) : Except ε (List α) := do
  let pile ← Pile.collect before xs.length xs.length xs ⟨[], Merge.firstPatience⟩
  mergeAll before pile.runs.length pile.patience pile.runs

end TitleClasses.Sorting
