import TitleClasses.Action
import TitleClasses.Files.Tree
import TitleClasses.Instant.Reader
import TitleClasses.Json.Printer
import TitleClasses.Json.Shape
import TitleClasses.Number.FifteenDigits
import TitleClasses.Processed.Journal

/-!
# The table of processed documents

For each vocabulary and document the table keeps the fingerprint of the last classification, its
labels and its time; recording a document again takes the place of what was recorded before. A
document is current as long as its fingerprint is the one on record.

The table is kept in a file. An empty file is one in which the table has not been made yet.
-/

namespace TitleClasses

/-- What is told of a document that was classified. -/
structure ProcessedDocument where
  vocabulary : Text
  document : Text
  fingerprint : Text
  classifiedAt : Instant
  labels : List Text
deriving DecidableEq

namespace Processed

/-- The rows without the one of a key. -/
def erase (rows : List ProcessedRow) (vocabulary document : Text) : List ProcessedRow :=
  rows.filter fun r => !(r.vocabulary = vocabulary && r.document = document)

/-- The rows with a row more, in place of the one with the same key. -/
def insert (rows : List ProcessedRow) (row : ProcessedRow) : List ProcessedRow :=
  erase rows row.vocabulary row.document ++ [row]

/-- The row of a key. -/
def find? (rows : List ProcessedRow) (vocabulary document : Text) : Option ProcessedRow :=
  rows.find? fun r => r.vocabulary = vocabulary && r.document = document

/-- The row for a document that was classified. Labels are kept in increasing order. -/
def rowOf (vocabulary document fingerprint : Text) (labels : List Text) (at' : Instant) :
    ProcessedRow where
  vocabulary := vocabulary
  document := document
  fingerprint := fingerprint
  labels := (Json.list ((Text.sorted labels).map Json.text)).write .line
  classifiedAt := at'.text

/-- The labels that a row keeps. -/
def labelsOf (row : ProcessedRow) : Except Fault (List Text) :=
  match Json.read row.labels with
  | .error e => .error (.unreadable e)
  | .ok v => do
    return (← v.items).map Json.display

/-- What a row tells. -/
def documentOf (row : ProcessedRow) : Except Fault ProcessedDocument := do
  let at' ← Instant.read row.classifiedAt
  let labels ← labelsOf row
  return ⟨row.vocabulary, row.document, row.fingerprint, at', labels⟩

/-- The rows by decreasing text of their time, of equal times the earlier recorded one first; at most
as many as the limit, which is none when it is negative. -/
def newest (rows : List ProcessedRow) (limit : Int) : List ProcessedRow :=
  let ordered := rows.mergeSort fun a b => b.classifiedAt.notAfter a.classifiedAt
  if limit < 0 then ordered else ordered.take limit.toNat

/-- The first integer that the table cannot hold. -/
def integerBound : Int := 0x8000000000000000

/-- Whether the table can hold an integer. -/
def isBounded (n : Int) : Bool := -integerBound ≤ n && n < integerBound

/-- The layout of numbers that are kept as texts: always with a digit after the point. -/
def numberLayout : Binary64.Layout := ⟨15, true⟩

/-- The text as which a number is kept, of fifteen digits; the value that is no number has none, and
zero has no sign. -/
def numberText? : Binary64 → Option Text
  | .nan => none
  | .infinite negative => some (Binary64.signMark negative ++ "Inf")
  | .finite negative mantissa exponent =>
    if mantissa = 0 then some "0.0"
    else
      let s := Binary64.significant (Binary64.fifteenDigits mantissa exponent)
      some (Binary64.signMark negative ++ numberLayout.write s.1 s.2)

/-- The key under which a vocabulary is kept in the table; numbers are kept as texts, and the value
that is no number has no key. -/
def keyOf : Json → Except Fault (Option Text)
  | .null => .ok none
  | .text t =>
    match Utf8.firstSurrogates t with
    | some run => .error (.unencodable run)
    | none => .ok (some t)
  | .bool b => .ok (some (if b then "1" else "0"))
  | .int n =>
    if isBounded n then .ok (some (Text.ofInt n)) else .error (.store .integerTooLarge)
  | .float x => .ok (numberText? x)
  | v => .error (.store (.unsupported v.kind))

/-- The longest path of a table, in bytes, from the root on. -/
def maxTablePath : Nat := 504

/-- The place of the file of a table, and what stands there. Opening a file that is not there makes
it. -/
def openFile (path : Path) : Action Files (Place × Node) := do
  let fs ← Action.state
  if maxTablePath < Files.byteLength (fs.resolve path).toText then
    Action.fail (.store .cannotOpen)
  else match fs.place path with
    | .error _ => Action.fail (.store .cannotOpen)
    | .ok p =>
      match fs.node? p with
      | some .directory => Action.fail (.store .cannotOpen)
      | some n => pure (p, n)
      | none => do
        Action.replace (fs.setNode p (.file []))
        pure (p, .file [])

/-- The rows of the table in a file. -/
def rows (path : Path) : Action Files (List ProcessedRow) := do
  let (p, n) ← openFile path
  settle p n
  match n with
  | .table rows => pure ((rowsAhead? (← Action.state) p).getD rows)
  | n => Action.fail (.store (if isBlank n then .absentTable else .notDatabase))

/-- Puts rows into the table in a file. -/
def putRows (path : Path) (rows : List ProcessedRow) : Action Files Unit := do
  match (← Action.state).place path with
  | .error _ => Action.fail (.store .cannotOpen)
  | .ok p => do
    let target ← prepare p
    Action.update fun fs => fs.setNode target (.table rows)

/-- Makes the table in a file unless it is there. -/
def ensure (path : Path) : Action Files Unit := do
  match ← Action.attempt (rows path) with
  | .ok _ => pure ()
  | .error (.store .absentTable) => putRows path []
  | .error f => Action.fail f

/-- The fingerprint on record for a document. -/
def fingerprintOf (path : Path) (vocabulary : Json) (document : Text) :
    Action Files (Option Text) := do
  let rows ← rows path
  let key ← Action.ofExcept (keyOf vocabulary)
  pure (key.bind fun k => (find? rows k document).map ProcessedRow.fingerprint)

/-- Whether the fingerprint on record is the given one. -/
def isCurrent (path : Path) (vocabulary : Json) (document fingerprint : Text) :
    Action Files Bool := do
  pure ((← fingerprintOf path vocabulary document) = some fingerprint)

/-- Records a document. -/
def record (path : Path) (vocabulary : Json) (document fingerprint : Text) (labels : List Text)
    (at' : Instant) : Action Files Unit := do
  let rows ← rows path
  let key ← Action.ofExcept (keyOf vocabulary)
  match key with
  | none => Action.fail (.store .nullVocabulary)
  | some k => putRows path (insert rows (rowOf k document fingerprint labels at'))
  Action.note .debug .processed (Text.concat ["Recorded ", document, " for vocabulary ",
    vocabulary.display, " (", fingerprint.take 12, ")"])

/-- The documents that were classified last, the latest first. -/
def recent (path : Path) (limit : Int) : Action Files (List ProcessedDocument) := do
  let rows ← rows path
  if isBounded limit then Action.ofExcept ((newest rows limit).mapM documentOf)
  else Action.fail (.store .integerTooLarge)

end Processed

end TitleClasses
