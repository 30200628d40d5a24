import TitleClasses.Assignment.Step
import TitleClasses.Clock
import TitleClasses.Processed.Table
import TitleClasses.Statistics

/-!
# Batches

A batch runs the step on one document after another. A document that fails is logged and keeps no
other one from being classified. What was classified is recorded with its new fingerprint, so that a
later batch can pass over documents that are unchanged under an unchanged vocabulary. At the end the
run is added to the statistics. A dry run neither records nor counts anything.
-/

namespace TitleClasses

/-- What batches work on: the workplace of the step, and a clock. -/
structure Office where
  workplace : Workplace
  clock : Clock

instance : LogKeeper Office where
  keep log o := { o with workplace := LogKeeper.keep log o.workplace }

namespace Office

/-- The file system of an office. -/
def files (o : Office) : Files := o.workplace.files

/-- An action on the workplace of the step. -/
def atWork {α : Type} (a : Action Workplace α) : Action Office α :=
  a.within Office.workplace fun w o => { o with workplace := w }

/-- An action on the file system. -/
def onFiles {α : Type} (a : Action Files α) : Action Office α := atWork (Workplace.onFiles a)

/-- An action on the clock. -/
def onClock {α : Type} (a : Action Clock α) : Action Office α :=
  a.within Office.clock fun c o => { o with clock := c }

end Office

/-- What becomes of one document. -/
inductive DocumentOutcome where
  | classified (r : StepResult)
  | failed
  | skipped
deriving DecidableEq, Repr

/-- What became of the documents of a batch. -/
structure BatchResult where
  results : List StepResult
  failures : Nat
  skipped : Nat
deriving DecidableEq, Repr

namespace BatchResult

/-- The sum of the outcomes of documents, results in the order of the documents. -/
def ofOutcomes (os : List DocumentOutcome) : BatchResult where
  results := os.filterMap fun o => match o with
    | .classified r => some r
    | _ => none
  failures := os.count .failed
  skipped := os.count .skipped

/-- Labels with one more, which is counted at the place where it came first. -/
def countLabel (counts : List (Text × Int)) (label : Text) : List (Text × Int) :=
  if counts.any fun c => c.1 = label then
    counts.map fun c => if c.1 = label then (label, c.2 + 1) else c
  else counts ++ [(label, 1)]

/-- How often each label was assigned, in the order in which they came first. -/
def labelCounts (b : BatchResult) : List (Text × Int) :=
  (b.results.flatMap StepResult.labels).foldl countLabel []

/-- What the batch adds to the statistics. -/
def runCounts (b : BatchResult) : RunCounts := ⟨b.results.length, b.failures, b.labelCounts⟩

end BatchResult

/-- How batches run: the vocabulary and the step that uses it, and the files of the table of processed
documents and of the statistics. -/
structure Batch where
  vocabulary : Json
  step : AssignmentStep
  table : Path
  statistics : Path

namespace Batch

/-- The fingerprint of a document as it is now; there is none of a document that cannot be read. -/
def fingerprint? (fs : Files) (path : Path) (digest : Text) : Option Text :=
  match fs.readBytes path with
  | .ok bytes => some (fingerprint bytes digest)
  | .error _ => none

/-- The name under which a document is recorded: its absolute path. -/
def keyOf (fs : Files) (path : Path) : Text := (fs.resolve path).toText

/-- Whether a document is on record as it is now. -/
def isUnchanged (b : Batch) (digest : Text) (path : Path) : Action Office Bool := do
  let fs := (← Action.state).files
  match fingerprint? fs path digest with
  | some mark => Office.onFiles (Processed.isCurrent b.table b.vocabulary (keyOf fs path) mark)
  | none => pure false

/-- Records a document as it is now, if it can be read. -/
def recordDocument (b : Batch) (digest : Text) (path : Path) (labels : List Text) :
    Action Office Unit := do
  let fs := (← Action.state).files
  match fingerprint? fs path digest with
  | some mark => do
    let now ← Office.onClock Clock.read
    Office.onFiles (Processed.record b.table b.vocabulary (keyOf fs path) mark labels now)
  | none => pure ()

/-- Classifies one document; a fault of the step is logged. -/
def classify (b : Batch) (digest : Text) (dryRun : Bool) (path : Path) :
    Action Office DocumentOutcome := do
  match ← Action.attempt (Office.atWork (b.step.run path dryRun)) with
  | .ok r => do
    unless dryRun do recordDocument b digest path r.labels
    pure (.classified r)
  | .error (.step p stage cause) => do
    Action.note .error .program (Text.concat
      ["Class assignment failed: ", (Fault.step p stage cause).message])
    pure .failed
  | .error f => Action.fail f

/-- Classifies one document, or passes over it if it is unchanged and unchanged ones are skipped. -/
def process (b : Batch) (digest : Text) (dryRun skipUnchanged : Bool) (path : Path) :
    Action Office DocumentOutcome := do
  if skipUnchanged then
    if ← b.isUnchanged digest path then return .skipped
  b.classify digest dryRun path

/-- The digest of the vocabulary. -/
def digest (b : Batch) : Action Office Text :=
  Office.atWork (Workplace.onVocabulary 0 fun fs => VocabularyFile.digest fs b.vocabulary)

/-- Runs a batch on documents. -/
def run (b : Batch) (documents : List Path) (dryRun skipUnchanged : Bool) :
    Action Office BatchResult := do
  let digest ← b.digest
  let outcomes ← Action.each (b.process digest dryRun skipUnchanged) documents
  let result := BatchResult.ofOutcomes outcomes
  unless dryRun || (result.results.isEmpty && result.failures = 0) do
    Office.onFiles (Statistics.record b.statistics b.vocabulary result.runCounts)
  pure result

end Batch

end TitleClasses
