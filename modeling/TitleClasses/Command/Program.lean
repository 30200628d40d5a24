import TitleClasses.Command.Assign
import TitleClasses.Command.Request
import TitleClasses.Command.Rules
import TitleClasses.Command.Schedule
import TitleClasses.Command.Stats

/-!
# The program

A command line is read as far as its command; then the settings are loaded, the log is set up, the
profile is chosen and the files of the program are opened; only then is the rest of the command line
read and the command carried out. A schedule goes on until it is stopped from outside.
-/

namespace TitleClasses.Program

/-- How far a command line was carried out. -/
inductive Progress where
  | ended (e : Ending)
  | waiting (s : Schedule)

/-- The name of the log file in the directory for it. -/
def logFileName : Text := "class_assignment.log"

/-- The path of the log file. -/
def logFile (s : Settings) : Path := s.logDirectory.child logFileName

/-- Makes the log file if it is not there. -/
def makeLogFile (path : Path) : Action Files Unit := do
  let fs ← Action.state
  match fs.nodeAt path with
  | .ok .directory => Action.fail (.logHandler "file")
  | .ok _ => pure ()
  | .error _ =>
    match fs.writeBytes path [] with
    | .ok made => Action.replace made
    | .error _ => Action.fail (.logHandler "file")

/-- Loads the settings. Records that are made on the way go nowhere, since no log is open yet. -/
def loadSettings (env : Environment) (o : Opening) : Action Session Settings :=
  Action.unlogged (Session.onFiles (Settings.load env (some o.variableFile)))

/-- Sets up the log. -/
def setUpLog (settings : Settings) (traceRules : Bool) : Action Session Unit := do
  Session.onFiles (makeLogFile (logFile settings))
  match Level.ofName? settings.logLevel with
  | none => Action.fail (.logHandler "stdout")
  | some level => do
    let routing : LogRouting := ⟨logFile settings, level, traceRules⟩
    let time := (← Action.state).office.clock.instant.stampText
    Session.onFiles (Action.update fun fs => fs.openLog routing time)
    Action.update fun s => { s with routing := some routing }
    Action.note .debug .logging (Text.concat ["Logging configured at ", settings.logLevel,
      " (rule trace: ", (Json.bool traceRules).display, ")"])

/-- How batches run under a profile. -/
def batchOf (settings : Settings) (p : Profile) : Batch :=
  let policy := Policy.new p.termsField p.classField settings.workers
  { vocabulary := p.vocabulary
    step := ⟨[.ofDesk 0 policy p.vocabulary p.titleField], p.titleField, p.classMetadata⟩
    table := settings.tableFile
    statistics := settings.statisticsFile }

/-- Loads the settings and opens the files of the program. A profile that is not there is told as a
notice. -/
def setUp (env : Environment) (refusal : Option Text → Option CompileError) (o : Opening) :
    Action Session (Except Notice Setup) := do
  let settings ← loadSettings env o
  setUpLog settings o.traceRules
  match settings.profile o.profile with
  | .error f =>
    if f.family = .key then pure (.error ⟨.badValue "--profile" f.message, none⟩)
    else Action.fail f
  | .ok profile => do
    Session.takeUp ⟨⟨settings.vocabularyFile, none⟩, .new refusal⟩
    Session.onFiles (Statistics.open settings.statisticsFile)
    Session.onFiles (Processed.ensure settings.tableFile)
    pure (.ok ⟨settings, profile, batchOf settings profile⟩)

/-- Carries out a request. -/
def perform (setup : Setup) : Request → Action Session Progress
  | .matching rule text => do pure (.ended (← Command.matching rule text))
  | .explain rule => do pure (.ended (← Command.explain rule))
  | .assign documents dryRun skipUnchanged => do
    pure (.ended (← Command.assign setup documents dryRun skipUnchanged))
  | .stats => do pure (.ended (← Command.stats setup))
  | .schedule directory interval dryRun => do
    let s : Schedule := ⟨setup, directory, interval, dryRun⟩
    match ← s.start with
    | some n => pure (.ended (.notice n))
    | none => pure (.waiting s)

/-- Carries out a command line. -/
def run (env : Environment) (refusal : Option Text → Option CompileError) (words : List Text) :
    Action Session Progress := do
  match Opening.read words with
  | .error o => pure (.ended (.notice ⟨o, none⟩))
  | .ok (opening, command, rest) => do
    match ← setUp env refusal opening with
    | .error n => pure (.ended (.notice n))
    | .ok setup => do
      match Request.read (← Action.state).files command rest with
      | .error (.obstacle o) => pure (.ended (.notice ⟨o, command⟩))
      | .error (.fault f) => Action.fail f
      | .ok request => perform setup request

end TitleClasses.Program
