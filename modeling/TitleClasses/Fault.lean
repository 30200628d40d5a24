import TitleClasses.Json.Reader
import TitleClasses.Text.Utf8

/-!
# Faults

Everything that can go wrong, as causes. Each fault has one message and belongs to one family; which
families a part of the program contains, and which it lets through, is told by the family alone.
-/

namespace TitleClasses

/-- A term that has no pattern: the rule it belongs to, the term, and why. -/
structure CompileError where
  rule : Text
  term : Text
  reason : Text
deriving DecidableEq, Repr

/-- What the file system answers when it refuses. -/
inductive Refusal where
  | absent
  | exists
  | notDirectory
  | isDirectory
  | nameTooLong
deriving DecidableEq, Repr

/-- The number of a refusal. -/
def Refusal.number : Refusal → Nat
  | .absent => 2
  | .exists => 17
  | .notDirectory => 20
  | .isDirectory => 21
  | .nameTooLong => 36

/-- The words for a refusal. -/
def Refusal.text : Refusal → Text
  | .absent => "No such file or directory"
  | .exists => "File exists"
  | .notDirectory => "Not a directory"
  | .isDirectory => "Is a directory"
  | .nameTooLong => "File name too long"

/-- A value of the wrong kind where a file or a profile may hold any. -/
inductive ShapeFault where
  /-- The kind has no such property. -/
  | noAttribute (kind : Kind) (name : Text)
  /-- The kind has no items. -/
  | notIterable (kind : Kind)
  /-- The kind cannot be a key. -/
  | unhashable (kind : Kind)
  /-- The kind has no members. -/
  | notSubscriptable (kind : Kind)
  /-- A text or a list was asked for a member by key. -/
  | indexedByText (kind : Kind)
  /-- An object has no such member. -/
  | absentKey (key : Text)
  /-- The kinds cannot be added; a sum may be asked for in the place of its first part. -/
  | notAddable (inPlace : Bool) (left right : Kind)
  /-- Something other than a text or a list was appended to one. -/
  | notConcatenable (left right : Kind)
  /-- The kinds are not ordered. -/
  | notOrdered (left right : Kind)
  /-- The kind cannot stand in a joined text, at this place of the parts. -/
  | notJoinable (index : Nat) (kind : Kind)
  /-- An integer is beyond all floating-point numbers. -/
  | tooLargeForFloat
deriving DecidableEq, Repr

/-- The files of which there may be none. -/
inductive Wanted where
  | vocabulary
  | metadata
deriving DecidableEq, Repr

/-- The stages of a step on a document. -/
inductive Stage where
  | read
  | classify
  | write
deriving DecidableEq, Repr

/-- What keeps the table of processed documents from being used. -/
inductive StoreFault where
  | cannotOpen
  | notDatabase
  | diskFault
  | readOnly
  | absentTable
  | nullVocabulary
  | integerTooLarge
  | unsupported (kind : Kind)
deriving DecidableEq, Repr

/-- Why no next time can be found for an interval. -/
inductive IntervalFault where
  /-- It has more days than are counted. -/
  | tooManyDays (days : Int)
  /-- Its days are beyond all numbers of days. -/
  | beyondDays
  /-- The time it leads to has no date. -/
  | beyondDates
deriving DecidableEq, Repr

/-- What is told of an interval without a next time. -/
def IntervalFault.message : IntervalFault → Text
  | .tooManyDays days =>
    Text.concat ["days=", Text.ofInt days, "; must have magnitude <= 999999999"]
  | .beyondDays => "Python int too large to convert to C int"
  | .beyondDates => "date value out of range"

/-- Why a text names no instant. -/
inductive InstantFault where
  /-- It has another form. -/
  | malformed (t : Text)
  /-- Years are counted from 1 to 9999. -/
  | noYear (year : Nat)
  | noMonth
  | noDay
  | noHour
  | noMinute
  | noSecond
  /-- The distance to universal time is a day or more. -/
  | wideOffset (west : Bool) (seconds micros : Nat)
deriving DecidableEq, Repr

/-- The text of a span of time: its days, seconds and microseconds, of which only the days can be
negative, and those that are not zero are told. -/
def spanText (micros : Int) : Text :=
  let day : Int := 86400000000
  let rest := micros.fmod day
  let parts : List (Text × Int) :=
    [("days", micros.fdiv day), ("seconds", rest / 1000000), ("microseconds", rest % 1000000)]
  Text.concat ["datetime.timedelta(",
    Text.join ", " ((parts.filter fun p => p.2 ≠ 0).map fun p =>
      Text.concat [p.1, "=", Text.ofInt p.2]), ")"]

/-- What is told of a text that names no instant. -/
def InstantFault.message : InstantFault → Text
  | .malformed t => Text.concat ["Invalid isoformat string: ", t.quoted]
  | .noYear year => Text.concat ["year ", Text.ofNat year, " is out of range"]
  | .noMonth => "month must be in 1..12"
  | .noDay => "day is out of range for month"
  | .noHour => "hour must be in 0..23"
  | .noMinute => "minute must be in 0..59"
  | .noSecond => "second must be in 0..59"
  | .wideOffset west seconds micros =>
    let span : Int := (seconds * 1000000 + micros : Nat)
    Text.concat ["offset must be a timedelta strictly between -timedelta(hours=24) and ",
      "timedelta(hours=24), not ", spanText (if west then -span else span), "."]

/-- A fault. -/
inductive Fault where
  | uncompilable (e : CompileError)
  | missingField (record field : Text)
  | unknownVocabulary (name available : Text)
  | unknownProfile (name available : Text)
  | noEntry (message : Text)
  | unanswered
  | missingFile (wanted : Wanted) (path : Text)
  | refused (refusal : Refusal) (path : Text) (target : Option Text)
  | undecodable (e : Utf8.DecodeError)
  | unencodable (run : Utf8.SurrogateRun)
  | unreadable (e : Json.ReadError)
  | longNumeral
  | notElement
  | shape (s : ShapeFault)
  | zeroParts
  | emptyStride
  | notInteger (t : Text)
  | nullByte
  | variableName
  | noWorkers (n : Int)
  | logHandler (name : Text)
  | instant (i : InstantFault)
  | interval (i : IntervalFault)
  | store (s : StoreFault)
  | step (path : Text) (stage : Stage) (cause : Fault)
deriving Repr

/-- The families of faults. -/
inductive Family where
  | os
  | value
  | key
  | type
  | attribute
  | overflow
  | arithmetic
  | unanswered
  | depth
  | database
  | step
deriving DecidableEq, Repr

/-- The family of a wrong shape. -/
def ShapeFault.family : ShapeFault → Family
  | .noAttribute .. => .attribute
  | .absentKey .. => .key
  | .tooLargeForFloat => .overflow
  | _ => .type

/-- The family of a fault. -/
def Fault.family : Fault → Family
  | .missingField .. | .unknownVocabulary .. | .unknownProfile .. | .noEntry .. => .key
  | .unanswered => .unanswered
  | .unreadable (.tooDeep _) => .depth
  | .missingFile .. | .refused .. => .os
  | .shape s => s.family
  | .zeroParts => .arithmetic
  | .interval .. => .overflow
  | .store .integerTooLarge => .overflow
  | .store _ => .database
  | .step .. => .step
  | _ => .value

/-- The two kinds between which an operation is not supported. -/
def betweenKinds (left right : Kind) (word : Text) : Text :=
  Text.concat ["'", left.name, "'", word, "'", right.name, "'"]

/-- What is told of a wrong shape. -/
def ShapeFault.message : ShapeFault → Text
  | .noAttribute kind name =>
    Text.concat ["'", kind.name, "' object has no attribute '", name, "'"]
  | .notIterable kind => Text.concat ["'", kind.name, "' object is not iterable"]
  | .unhashable kind => Text.concat ["unhashable type: '", kind.name, "'"]
  | .notSubscriptable kind => Text.concat ["'", kind.name, "' object is not subscriptable"]
  | .indexedByText kind =>
    if kind = .text then "string indices must be integers, not 'str'"
    else "list indices must be integers or slices, not str"
  | .absentKey key => key.quoted
  | .notAddable inPlace left right =>
    Text.concat ["unsupported operand type(s) for ", if inPlace then "+=" else "+", ": ",
      betweenKinds left right " and "]
  | .notConcatenable left right =>
    Text.concat ["can only concatenate ", left.name, " (not \"", right.name, "\") to ", left.name]
  | .notOrdered left right =>
    Text.concat ["'<' not supported between instances of ", betweenKinds left right " and "]
  | .notJoinable index kind =>
    Text.concat ["sequence item ", Text.ofNat index, ": expected str instance, ", kind.name,
      " found"]
  | .tooLargeForFloat => "int too large to convert to float"

/-- What is told of a table that cannot be used. -/
def StoreFault.message : StoreFault → Text
  | .cannotOpen => "unable to open database file"
  | .notDatabase => "file is not a database"
  | .diskFault => "disk I/O error"
  | .readOnly => "attempt to write a readonly database"
  | .absentTable => "no such table: classified_documents"
  | .nullVocabulary => "NOT NULL constraint failed: classified_documents.vocabulary"
  | .integerTooLarge => "Python int too large to convert to SQLite INTEGER"
  | .unsupported kind =>
    Text.concat ["Error binding parameter 1: type '", kind.name, "' is not supported"]

/-- What is told of a term without a pattern. -/
def CompileError.message (e : CompileError) : Text :=
  Text.concat ["Cannot compile term '", e.term, "' of rule '", e.rule, "': ", e.reason]

/-- What is told of a stage that failed. -/
def Stage.text : Stage → Text
  | .read => "cannot read metadata"
  | .classify => "cannot classify"
  | .write => "cannot write metadata"

/-- Whether a fault is told in quotes: an entry that is not there is. -/
def Fault.isQuoted : Fault → Bool
  | .unknownVocabulary .. | .unknownProfile .. | .noEntry .. => true
  | _ => false

/-- The sentence about a fault, without the quotes that its message may have. -/
def Fault.sentence : Fault → Text
  | .uncompilable e => e.message
  | .missingField record field =>
    Text.concat ["Record ", record, " has no value for field '", field, "'"]
  | .unknownVocabulary name available =>
    Text.concat ["Unknown vocabulary '", name, "'. Available vocabularies: ", available]
  | .unknownProfile name available =>
    Text.concat ["Unknown profile '", name, "'. Available profiles: ", available]
  | .noEntry message => message
  | .unanswered => ""
  | .missingFile .vocabulary path => Text.concat ["Missing vocabulary file: ", path]
  | .missingFile .metadata path => Text.concat ["Missing metadata file: ", path]
  | .refused refusal path target =>
    Text.concat ["[Errno ", Text.ofNat refusal.number, "] ", refusal.text, ": ", path.quoted,
      (target.map fun t => Text.concat [" -> ", t.quoted]).getD []]
  | .undecodable e => e.message
  | .unencodable run => run.message
  | .unreadable e => e.message
  | .longNumeral =>
    "Exceeds the limit (4300 digits) for integer string conversion; use sys.set_int_max_str_digits() to increase the limit"
  | .notElement => "Metadata element must be an object with a 'type'"
  | .shape s => s.message
  | .zeroParts => "integer division or modulo by zero"
  | .emptyStride => "range() arg 3 must not be zero"
  | .notInteger t => Text.concat ["invalid literal for int() with base 10: ", t.quoted.take 200]
  | .nullByte => "embedded null byte"
  | .variableName => "illegal environment variable name"
  | .noWorkers n => Text.concat ["MAX_WORKERS must be at least 1, got ", Text.ofInt n]
  | .logHandler name => Text.concat ["Unable to configure handler '", name, "'"]
  | .instant i => i.message
  | .interval i => i.message
  | .store s => s.message
  | .step path stage cause =>
    Text.concat [path, ": ", stage.text, " (",
      if cause.isQuoted then cause.sentence.quoted else cause.sentence, ")"]

/-- The message of a fault. -/
def Fault.message (f : Fault) : Text := if f.isQuoted then f.sentence.quoted else f.sentence

end TitleClasses
