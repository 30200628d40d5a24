import TitleClasses.Json.Order

/-!
# Values by key

What is listed under names, in the order in which the names came first. A later entry takes the place of
an earlier one of its name, under the name as the earlier one had it.
-/

namespace TitleClasses

/-- Values by their keys, in order; no two keys are the same. -/
abbrev Keyed (α : Type) := List (Json × α)

namespace Keyed

variable {α : Type}

/-- The values with one more, in the place of the one of its key if there is one. -/
def put (key : Json) (x : α) : Keyed α → Keyed α
  | [] => [(key, x)]
  | (k, y) :: rest => if k.sameKey key then (k, x) :: rest else (k, y) :: put key x rest

/-- The value of a key. -/
def get? (key : Json) : Keyed α → Option α
  | [] => none
  | (k, x) :: rest => if k.sameKey key then some x else get? key rest

/-- The keys in increasing order. -/
def sortedKeys (xs : Keyed α) : Except Fault (List Json) := Json.sortValues (xs.map Prod.fst)

/-- The keys in increasing order, joined by commas; every key must be a text. -/
def keysText (xs : Keyed α) : Except Fault Text := do Json.joinTexts (← xs.sortedKeys)

end Keyed

end TitleClasses
