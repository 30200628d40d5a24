import TitleClasses.Rule.Engine
import TitleClasses.Vocabulary.Record

/-!
# The assignment policy

A policy collects the labels of all records whose rule matches a subject. Records may be dealt out to
several workers in chunks of equal length; each worker has a set of labels, and the sets are joined.
A record without a usable rule or label, and a rule that does not compile, is skipped with a warning
and keeps nothing else from being evaluated.
-/

namespace TitleClasses

/-- A rule with the label it stands for; either may be absent. -/
abbrev RulePair := Option Text × Option Text

/-- The sizes of chunks and their number, for a list dealt out in the given number of parts. -/
def chunkSize (length : Nat) (parts : Int) : Int := -(Int.fdiv (-(length : Int)) parts)

/-- A list in chunks of equal length, the last one possibly shorter, at most as many as there are
parts. There are no chunks of negative length. -/
def chunked {α : Type} (items : List α) (parts : Int) : Except Fault (List (List α)) :=
  if parts = 0 then .error .zeroParts
  else
    let size := chunkSize items.length parts
    if size = 0 then .error .emptyStride
    else if size < 0 then .ok []
    else
      let n := size.toNat
      .ok ((List.range ((items.length + n - 1) / n)).map fun i => (items.drop (i * n)).take n)

/-- Where records hold their rule and their label, and among how many workers they are dealt out. -/
structure Policy where
  termsField : Json
  classField : Json
  workers : Nat

namespace Policy

/-- The policy for a number of workers that may be below one, which counts as one. -/
def new (termsField classField : Json) (workers : Int) : Policy :=
  ⟨termsField, classField, (max 1 workers).toNat⟩

/-- A text that is there and not blank. -/
def usable? : Option Text → Option Text
  | none => none
  | some t => if t.isBlank then none else some t

/-- The label of one pair, if its rule matches the subject. -/
def evaluate (subject : Option Text) (pair : RulePair) : Action Engine (Option Text) :=
  match usable? pair.1, usable? pair.2 with
  | some rule, some label => do
    match ← Action.attempt (Engine.matchRule rule subject) with
    | .ok true => pure (some label.strip)
    | .ok false => pure none
    | .error (.uncompilable e) =>
      Action.note .warning .policy (Text.concat ["Skipping rule for label ", label, ": ", e.message])
      pure none
    | .error f => Action.fail f
  | _, _ => do
    Action.note .warning .policy (Text.concat
      ["Skipping record with missing rule or label: (", Text.quotedOption pair.1, ", ",
        Text.quotedOption pair.2, ")"])
    pure none

/-- The labels of the pairs of one chunk, as a set. -/
def assignChunk (subject : Option Text) (pairs : List RulePair) : Action Engine (List Text) := do
  let found ← Action.each (evaluate subject) pairs
  pure (Text.sortDistinct (found.filterMap id))

/-- The labels of all pairs whose rule matches the subject, as a set. -/
def assign (p : Policy) (pairs : List RulePair) (subject : Option Text) :
    Action Engine (List Text) :=
  if p.workers = 1 || pairs.length < 2 then assignChunk subject pairs
  else do
    let chunks ← Action.ofExcept (chunked pairs p.workers)
    let sets ← Action.each (assignChunk subject) chunks
    pure (Text.sortDistinct sets.flatten)

/-- The rule and the label of a record. -/
def pairOf (p : Policy) (r : Record) : Except Fault RulePair := do
  let rule ← r.fieldValue p.termsField
  let label ← r.fieldValue p.classField
  pure (some rule, some label)

/-- The pair of a record; a record without one is skipped with a warning. -/
def pairOrWarning (p : Policy) (r : Record) : Action Engine (Option RulePair) :=
  match p.pairOf r with
  | .ok pair => pure (some pair)
  | .error (.missingField record field) => do
    Action.note .warning .policy (Text.concat
      ["Skipping vocabulary record: ", (Fault.missingField record field).message])
    pure none
  | .error f => Action.fail f

/-- The labels of all records whose rule matches the subject, as a set. -/
def assignRecords (p : Policy) (records : List Record) (subject : Option Text) :
    Action Engine (List Text) := do
  let pairs ← Action.each p.pairOrWarning records
  p.assign (pairs.filterMap id) subject

end Policy

end TitleClasses
