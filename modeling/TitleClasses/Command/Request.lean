import TitleClasses.Command.Line
import TitleClasses.Files.Tree
import TitleClasses.Number.Numeral

/-!
# Requests

What a command line asks for. Options are read in the order in which they were given, and what is
required and was not given last of all, so that of several obstacles the one that comes first in this
order is told. Arguments that are left over are told after everything else.
-/

namespace TitleClasses

/-- What is asked for. -/
inductive Request where
  | matching (rule text : Text)
  | explain (rule : Text)
  | assign (documents : List Path) (dryRun skipUnchanged : Bool)
  | stats
  | schedule (directory : Path) (interval : Int) (dryRun : Bool)
deriving DecidableEq, Repr

/-- Why words are no request: an obstacle, or a fault that no notice tells of. -/
inductive Hindrance where
  | obstacle (o : Obstacle)
  | fault (f : Fault)
deriving Repr

namespace Request

/-- The options of a command. -/
def forms : CommandName → List OptionForm
  | .matching | .explain | .stats => []
  | .assign => [⟨"--dry-run", false⟩, ⟨"--apply", false⟩, ⟨"--skip-unchanged", false⟩]
  | .schedule =>
    [⟨"--directory", true⟩, ⟨"--interval", true⟩, ⟨"--dry-run", false⟩, ⟨"--apply", false⟩]

/-- The directory that a word names, and why it names none. -/
def readDirectory (fs : Files) (word : Text) : Except Hindrance Path :=
  let bad (why : Text) : Except Hindrance Path :=
    .error (.obstacle (.badValue "'--directory'" (Text.concat ["Directory ", word.quoted, why])))
  match fs.look word with
  | .error f => .error (.fault f)
  | .ok (.error _) => bad " does not exist."
  | .ok (.ok .directory) => .ok (.ofText word)
  | .ok (.ok _) => bad " is a file."

/-- The document that a word names. It need not be there, but it is looked for. -/
def readDocument (fs : Files) (word : Text) : Except Hindrance Path :=
  match fs.look word with
  | .error f => .error (.fault f)
  | .ok _ => .ok (.ofText word)

/-- The minutes that a word names. -/
def readInterval (word : Text) : Except Hindrance Int :=
  match Numeral.read word with
  | .ok n => .ok n
  | .error _ =>
    .error (.obstacle
      (.badValue "'--interval'" (Text.concat [word.quoted, " is not a valid integer."])))

/-- The minutes between two runs of a schedule, unless others are asked for. -/
def usualInterval : Int := 15

/-- The directory of a schedule, which must be given. -/
def directoryOf (fs : Files) (l : Line) : Except Hindrance Path :=
  match l.value? "--directory" with
  | some word => readDirectory fs word
  | none => .error (.obstacle (.missingOption "--directory"))

/-- The interval of a schedule. -/
def intervalOf (l : Line) : Except Hindrance Int :=
  match l.value? "--interval" with
  | some word => readInterval word
  | none => .ok usualInterval

/-- The request, unless arguments are left over. -/
def complete (request : Request) : List Text → Except Hindrance Request
  | [] => .ok request
  | rest => .error (.obstacle (.extraArguments rest))

/-- The hindrance of an argument that is not given. -/
def missing (name : Text) : Except Hindrance Request := .error (.obstacle (.missingArgument name))

/-- Whether the line asks for a dry run. -/
def isDryRun (l : Line) : Bool := l.isOn "--dry-run" "--apply"

/-- The request of a line that was read for a command. -/
def ofLine (fs : Files) (l : Line) : CommandName → Except Hindrance Request
  | .matching =>
    match l.arguments with
    | [] => missing "RULE"
    | [_] => missing "TEXT"
    | rule :: text :: rest => complete (.matching rule text) rest
  | .explain =>
    match l.arguments with
    | [] => missing "RULE"
    | rule :: rest => complete (.explain rule) rest
  | .assign =>
    if l.arguments.isEmpty then missing "DOCUMENTS..."
    else do
      let documents ← l.arguments.mapM (readDocument fs)
      return .assign documents (isDryRun l) (l.has "--skip-unchanged")
  | .stats => complete .stats l.arguments
  | .schedule => do
    if (l.value? "--directory").isSome && l.isFirst "--directory" "--interval" then
      let directory ← directoryOf fs l
      complete (.schedule directory (← intervalOf l) (isDryRun l)) l.arguments
    else
      let interval ← intervalOf l
      complete (.schedule (← directoryOf fs l) interval (isDryRun l)) l.arguments

/-- Reads the words that follow the word of a command. -/
def read (fs : Files) (command : CommandName) (words : List Text) : Except Hindrance Request :=
  match Line.read (forms command) false words with
  | .error o => .error (.obstacle o)
  | .ok l => if l.has "--help" then .error (.obstacle .help) else ofLine fs l command

end Request

/-- What a command line says before its command. -/
structure Opening where
  variableFile : Text
  profile : Option Text
  traceRules : Bool
deriving DecidableEq, Repr

namespace Opening

/-- The options before the command. -/
def forms : List OptionForm := [⟨"--env-file", true⟩, ⟨"--profile", true⟩, ⟨"--trace-rules", false⟩]

/-- Reads the options before the command, with the words that follow them. -/
def readOptions (words : List Text) : Except Obstacle (Opening × List Text) := do
  if words.isEmpty then throw .noArguments
  let l ← Line.read forms true words
  if l.has "--help" then throw .help
  return (⟨(l.value? "--env-file").getD ".env", l.value? "--profile", l.has "--trace-rules"⟩,
    l.arguments)

/-- Reads a command line as far as the words after its command. A word that is no command but could be an
option is looked at as one first. -/
def read (words : List Text) : Except Obstacle (Opening × CommandName × List Text) := do
  let (opening, rest) ← readOptions words
  match rest with
  | [] => throw .noCommand
  | word :: rest =>
    match CommandName.ofText? word with
    | some command => return (opening, command, rest)
    | none => do
      let _ ← readOptions (word :: rest)
      throw (.unknownCommand word (word.similarTo (CommandName.all.map CommandName.text)))

end Opening

end TitleClasses
