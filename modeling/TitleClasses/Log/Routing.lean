import TitleClasses.Files.Path
import TitleClasses.Log
import TitleClasses.Text.Capital

/-!
# Where log records go

Records go to the console and to the log file. The console shows those at the level that was set or
above it; the file takes whatever is let through at all. Decisions on single rules are let through only
when rules are traced, and then nothing else is held back from the file either.
-/

namespace TitleClasses

/-- The names of levels, two of which have two. -/
def Level.names : List (Text × Level) := [
  ("DEBUG", .debug), ("INFO", .info), ("WARNING", .warning), ("WARN", .warning),
  ("ERROR", .error), ("CRITICAL", .critical), ("FATAL", .critical), ("NOTSET", .all)]

/-- The level of a name, in capital or small letters. -/
def Level.ofName? (name : Text) : Option Level :=
  Level.names.lookup name.capitals

/-- Where log records go: the log file, the level of the console, and whether rules are traced. -/
structure LogRouting where
  file : Path
  console : Level
  traceRules : Bool
deriving DecidableEq, Repr

namespace LogRouting

/-- The level at which the records of a source are let through. -/
def threshold (r : LogRouting) : LogSource → Level
  | .compiler | .engine => if r.traceRules then .debug else .info
  | _ => if r.traceRules then .debug else r.console

/-- Whether a record is let through, and so goes to the log file. -/
def admits (r : LogRouting) (record : LogRecord) : Bool :=
  (r.threshold record.source).weight ≤ record.level.weight

/-- Whether a record goes to the console. -/
def shows (r : LogRouting) (record : LogRecord) : Bool :=
  r.admits record && r.console.weight ≤ record.level.weight

/-- The lines on the console. -/
def consoleText (r : LogRouting) (log : Log) : Text :=
  (log.filter r.shows).flatMap fun record =>
    Text.concat [record.level.name, " | ", record.message, "\n"]

/-- The lines in the log file, each after the text that tells its time. -/
def fileText (r : LogRouting) (time : Text) (log : Log) : Text :=
  (log.filter r.admits).flatMap fun record =>
    Text.concat [time, record.level.name, " | ", record.source.name, " | ", record.message, "\n"]

end LogRouting

end TitleClasses
