import TitleClasses.Action
import TitleClasses.Files.Tree
import TitleClasses.Json.Order
import TitleClasses.Json.Printer

/-!
# Statistics

A file of counters: runs, documents, failures and labels, over all vocabularies and for each of them.
A run is added to both buckets before anything is written, so that a fault leaves the file as it was.
A file that is no JSON is made an empty one with a warning. The file may hold other members, and
counters of any kind; each addition is the one that its kinds allow.
-/

namespace TitleClasses

namespace Json

/-- A value with an integer added to it: numbers add, everything else has no sum with an integer. -/
def plus (v : Json) (n : Int) : Except Fault Json :=
  match v with
  | .int m => .ok (.int (m + n))
  | .bool b => .ok (.int ((if b then 1 else 0) + n))
  | .float x =>
    match Binary64.ofInt? n with
    | some y => .ok (.float (x.add y))
    | none => .error (.shape .tooLargeForFloat)
  | .text _ => .error (.shape (.notConcatenable .text .int))
  | .list _ => .error (.shape (.notConcatenable .list .int))
  | v => .error (.shape (.notAddable false v.kind .int))

/-- A value with an integer added in its place: as a sum, but a list would have to be extended by the
items of the integer, and there are none. -/
def increase (v : Json) (n : Int) : Except Fault Json :=
  match v with
  | .list _ => .error (.shape (.notIterable .int))
  | .null => .error (.shape (.notAddable true .null .int))
  | .object _ => .error (.shape (.notAddable true .object .int))
  | v => v.plus n

/-- How a key is written as the key of a member. -/
def keyText : Json → Text
  | .text t => t
  | .null => "null"
  | .bool b => if b then "true" else "false"
  | .float x => x.textWith "NaN" "Infinity"
  | v => v.display

mutual

/-- Whether an integer in a value has more digits than are written. -/
def hasLongNumeral : Json → Bool
  | .int n => decide (Nat.pow 10 maxDigits ≤ n.natAbs)
  | .list xs => anyLongItem xs
  | .object ms => anyLongMember ms
  | _ => false

/-- Whether an item of a list has such an integer. -/
def anyLongItem : List Json → Bool
  | [] => false
  | x :: xs => hasLongNumeral x || anyLongItem xs

/-- Whether a member of an object has such an integer. -/
def anyLongMember : List (Text × Json) → Bool
  | [] => false
  | (_, v) :: ms => hasLongNumeral v || anyLongMember ms

end

end Json

/-- Counts by key, in order. Keys are texts where they come from an object, and any values that can be
keys where they were counted in a list. -/
abbrev Counts := List (Json × Json)

namespace Counts

/-- The counts with the value of one key changed, which is zero when the key is not there. -/
def change (f : Json → Except Fault Json) (key : Json) : Counts → Except Fault Counts
  | [] => do return [(key, ← f (.int 0))]
  | (k, v) :: cs =>
    if k.sameKey key then do return (k, ← f v) :: cs
    else do return (k, v) :: (← change f key cs)

/-- How often each value occurs among some values. -/
def ofItems (c : Counts) : List Json → Except Fault Counts
  | [] => .ok c
  | x :: xs => do
    let key ← x.asKey
    ofItems (← c.change (fun v => v.plus 1) key) xs

/-- The counts in a value: an object is taken as it is, the items of anything else are counted, and null
counts as nothing. -/
def ofJson : Json → Except Fault Counts
  | .null => .ok []
  | .object ms => .ok (ms.map fun m => (.text m.1, m.2))
  | v => do ofItems [] (← v.items)

/-- The counts with others added. -/
def addAll (c : Counts) : List (Text × Int) → Except Fault Counts
  | [] => .ok c
  | (label, n) :: rest => do addAll (← c.change (fun v => v.increase n) (.text label)) rest

/-- The counts as an object. -/
def toJson (c : Counts) : Json := .object (c.map fun e => (e.1.keyText, e.2))

end Counts

/-- What one run adds to the statistics. -/
structure RunCounts where
  documents : Int
  failures : Int
  labels : List (Text × Int)
deriving DecidableEq, Repr

namespace Statistics

/-- The members with a number added to one of them, which is zero when it is not there. -/
def addTo (ms : Members) (key : Text) (n : Int) : Except Fault Members := do
  let v ← ((ms.get? key).getD (.int 0)).plus n
  return ms.set key v

/-- A bucket with a run added. -/
def bump (run : RunCounts) (bucket : Json) : Except Fault Members := do
  let ms ← bucket.membersFor "get"
  let ms ← addTo ms "runs" 1
  let ms ← addTo ms "documents" run.documents
  let ms ← addTo ms "failures" run.failures
  let labels ← Counts.ofJson ((ms.get? "labels").getD (.object []))
  let labels ← labels.addAll run.labels
  return ms.set "labels" labels.toJson

/-- The buckets with the one of a vocabulary bumped. A vocabulary whose name is a text has the bucket of
its name; any other name is never found again and has a new one. -/
def bumpVocabulary (run : RunCounts) (vocabulary : Json) (buckets : Members) :
    Except Fault Members := do
  match vocabulary with
  | .text name =>
    let bucket ← bump run ((buckets.get? name).getD (.object []))
    return buckets.set name (.object bucket)
  | v =>
    let bucket ← bump run (.object [])
    return buckets ++ [(v.keyText, .object bucket)]

/-- Statistics with a run for a vocabulary added: first to the bucket of all, then to its own. -/
def add (run : RunCounts) (vocabulary : Json) (stats : Json) : Except Fault Json := do
  let ms ← bump run stats
  let buckets ← ((ms.get? "vocabularies").getD (.object [])).membersFor "setdefault"
  let buckets ← bumpVocabulary run vocabulary buckets
  return .object (ms.set "vocabularies" (.object buckets))

/-- Puts an empty object into the file. -/
def reset (path : Path) : Action Files Unit := do
  Action.replace (← Action.ofExcept ((← Action.state).writeBytes path
    ((Json.object []).write .line |>.flatMap Utf8.encodeOne)))

/-- Makes the file if it is not there, and an empty object in it if it is blank. -/
def «open» (path : Path) : Action Files Unit := do
  let fs ← Action.state
  unless ← Action.ofExcept (fs.exists? path) do
    Action.replace (← Action.ofExcept (fs.writeBytes path []))
  let text ← Action.ofExcept ((← Action.state).readText path)
  if text.isBlank then reset path

/-- The statistics in the file. -/
def snapshot (path : Path) : Action Files Json := do
  match (← Action.state).readJson path with
  | .ok v => pure v
  | .error (.unreadable (.malformed _ _)) => do
    Action.note .warning .statistics (Text.concat
      ["Stats file was corrupt, resetting ", path.toText])
    reset path
    pure (.object [])
  | .error f => Action.fail f

/-- Adds a run to the statistics in the file. -/
def record (path : Path) (vocabulary : Json) (run : RunCounts) : Action Files Unit := do
  let stats ← Action.ofExcept (add run vocabulary (← snapshot path))
  if stats.hasLongNumeral then Action.fail .longNumeral
  Action.replace (← Action.ofExcept ((← Action.state).writeBytes path
    ((stats.write .statistics).flatMap Utf8.encodeOne)))

end Statistics

end TitleClasses
