import TitleClasses.Text.Basic

/-!
# Log records

What the program tells about its work, beside its results: each record has a level, the part of the
program it comes from, and a message. A state on which records are made may keep them, as a file system
does that holds the log file.
-/

namespace TitleClasses

/-- The levels of log records, in increasing order of weight. -/
inductive Level where
  | all
  | debug
  | info
  | warning
  | error
  | critical
deriving DecidableEq, Repr

/-- The weight of a level. -/
def Level.weight : Level → Nat
  | .all => 0
  | .debug => 10
  | .info => 20
  | .warning => 30
  | .error => 40
  | .critical => 50

/-- The word for a level in log lines. -/
def Level.name : Level → Text
  | .all => "NOTSET"
  | .debug => "DEBUG"
  | .info => "INFO"
  | .warning => "WARNING"
  | .error => "ERROR"
  | .critical => "CRITICAL"

/-- The parts of the program that log. -/
inductive LogSource where
  | compiler
  | engine
  | policy
  | classifier
  | strategy
  | vocabulary
  | metadata
  | step
  | processed
  | statistics
  | logging
  | variables
  | program
deriving DecidableEq, Repr

/-- The word for a source in log lines. -/
def LogSource.name : LogSource → Text
  | .compiler => "utils.rule_compiler"
  | .engine => "utils.rules_engine"
  | .policy => "services.class_assignment"
  | .classifier => "services.document_classifier"
  | .strategy => "services.strategies.vocabulary_strategy"
  | .vocabulary => "services.vocabulary_service"
  | .metadata => "services.metadata_service"
  | .step => "services.assignment_step"
  | .processed => "services.persistence_service"
  | .statistics => "services.statistics_service"
  | .logging => "utils.logger"
  | .variables => "dotenv.main"
  | .program => "main"

/-- A log record. -/
structure LogRecord where
  level : Level
  source : LogSource
  message : Text
deriving DecidableEq, Repr

/-- Log records in the order in which they were made. -/
abbrev Log := List LogRecord

/-- States on which log records are made, and what becomes of a state when it is told some. -/
class LogKeeper (σ : Type) where
  keep : Log → σ → σ

end TitleClasses
