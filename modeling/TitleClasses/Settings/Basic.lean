import TitleClasses.Number.Numeral
import TitleClasses.Settings.Profile
import TitleClasses.Settings.VariableFile

/-!
# Settings

Where the program finds and keeps its files, how much it logs, with how many workers it evaluates, and
its profiles. Settings are taken from the environment, to which a variable file is added first. Paths
are taken from the working directory on; the directories that will be written to are made at once, so
that some may be there even if a setting is then refused.
-/

namespace TitleClasses

/-- The settings of a run. -/
structure Settings where
  vocabularyFile : Path
  logDirectory : Path
  statisticsFile : Path
  tableFile : Path
  profilesFile : Path
  logLevel : Text
  workers : Int
  profiles : Profiles
  default : Profile

namespace Settings

/-- The path in a variable, absolute; an empty one counts as the usual path. -/
def pathOf (env : Environment) (home : Place) (name usual : Text) : Path :=
  let t := env.getD name []
  (Path.ofText (if t.isEmpty then usual else t)).under (Files.pathOf home)

/-- The number of workers in a variable, which is at least one. -/
def workersOf (env : Environment) : Except Fault Int := do
  let n ← Numeral.read (env.getD "MAX_WORKERS" "1")
  if n < 1 then throw (.noWorkers n)
  return n

/-- The profile that the environment describes. -/
def defaultProfile (env : Environment) : Profile where
  name := .text "default"
  vocabulary := .text (env.getD "VOCABULARY" "classes")
  classField := .text (env.getD "CLASS_FIELD" "class")
  termsField := .text (env.getD "TERMS_FIELD" "terms")
  titleField := .text (env.getD "METADATA_TITLE" "TitleDocMain")
  classMetadata := .text (env.getD "METADATA_CLASS" "Classification")

/-- The default profile with those of a profile file, if there is one. -/
def profilesOf (fs : Files) (path : Path) (default : Profile) : Except Fault Profiles := do
  let ps : Profiles := [(default.name, default)]
  if ← fs.exists? path then ps.addAll default (← fs.readJson path) else return ps

/-- Makes a directory and those above it, as far as they are not there. -/
def ensure (path : Path) : Action Files Unit := do
  let (made, fs) := (← Action.state).ensureDirectories path
  Action.replace fs
  Action.ofExcept made

/-- The variable that keeps variable files from being read. -/
def noFileName : Text := "PYTHON_DOTENV_DISABLED"

/-- The environment with the variables of a file added, if one is named and files are read at all. -/
def environment (env : Environment) (variableFile : Option Text) : Action Files Environment := do
  if env.isYes noFileName then
    Action.note .debug .variables (Text.concat
      ["python-dotenv: .env loading disabled by ", noFileName, " environment variable"])
    pure env
  else match variableFile with
    | none | some [] => pure env
    | some name => VariableFile.load name env

/-- Takes the settings from the environment. -/
def load (env : Environment) (variableFile : Option Text) : Action Files Settings := do
  let env ← environment env variableFile
  let path := pathOf env (← Action.state).home
  let logDirectory := path "LOG_DIR" "logs"
  let statisticsFile := path "STATS_FILE" "data/stats.json"
  let tableFile := path "DB_PATH" "data/class_assignment.db"
  let profilesFile := path "PROFILES_FILE" "profiles.json"
  ensure logDirectory
  ensure statisticsFile.parent
  ensure tableFile.parent
  let workers ← Action.ofExcept (workersOf env)
  let default := defaultProfile env
  let profiles ← Action.ofExcept (profilesOf (← Action.state) profilesFile default)
  pure {
    vocabularyFile := path "VOCABULARY_FILE" "vocabularies.json"
    logDirectory, statisticsFile, tableFile, profilesFile
    logLevel := env.getD "LOG_LEVEL" "INFO"
    workers, profiles, default }

/-- The profile of a name. -/
def profile (s : Settings) (name : Option Text) : Except Fault Profile :=
  s.profiles.find s.default name

end Settings

end TitleClasses
