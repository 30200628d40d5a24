import TitleClasses.Assignment.Classifier
import TitleClasses.Document.Storage
import TitleClasses.Vocabulary.Catalogue

/-!
# The assignment step

A step reads a document, classifies its logical element, puts the labels in the place of the class
entries that were there, and writes the document back. A fault of the document or of a vocabulary
becomes a fault of the step, told with the path of the document; the document is classified before
anything is changed, and a dry run changes nothing at all.
-/

namespace TitleClasses

/-- A vocabulary file with the engine that evaluates its rules. -/
structure Desk where
  vocabulary : VocabularyFile
  engine : Engine

/-- What a step works on: the file system, and a desk for each strategy. -/
structure Workplace where
  files : Files
  desks : List Desk

instance : LogKeeper Workplace where
  keep log w := { w with files := LogKeeper.keep log w.files }

namespace Workplace

/-- An action on the file system. -/
def onFiles {α : Type} (a : Action Files α) : Action Workplace α :=
  a.within Workplace.files fun fs w => { w with files := fs }

/-- An action on one desk, which may read the file system. The file system keeps the records that are
made. -/
def atDesk {α : Type} (i : Nat) (a : Files → Action Desk α) : Action Workplace α := fun w =>
  match w.desks[i]? with
  | none => ⟨.error .unanswered, w, []⟩
  | some d =>
    let o := a w.files d
    ⟨o.result, ⟨LogKeeper.keep o.log w.files, w.desks.set i o.state⟩, o.log⟩

/-- An action on the vocabulary of a desk. -/
def onVocabulary {α : Type} (i : Nat) (a : Files → Action VocabularyFile α) : Action Workplace α :=
  atDesk i fun fs => (a fs).within Desk.vocabulary fun v d => { d with vocabulary := v }

/-- An action on the engine of a desk. -/
def onEngine {α : Type} (i : Nat) (a : Action Engine α) : Action Workplace α :=
  atDesk i fun _ => a.within Desk.engine fun e d => { d with engine := e }

end Workplace

/-- The strategy of a desk: the records of a vocabulary of its file, under a policy. -/
def Strategy.ofDesk (i : Nat) (policy : Policy) (vocabulary subjectField : Json) :
    Strategy Workplace :=
  .ofVocabulary policy (Workplace.onVocabulary i fun fs => VocabularyFile.records fs vocabulary)
    (Workplace.onEngine i) subjectField

/-- What a step found and did. -/
structure StepResult where
  path : Path
  subject : Text
  labels : List Text
  removed : Nat
  written : Bool
deriving DecidableEq, Repr

/-- A step: its strategies, the type of the entries that hold titles, and that of the entries that hold
classes. -/
structure AssignmentStep where
  strategies : List (Strategy Workplace)
  titleField : Json
  classField : Json

/-- The families of faults that a stage turns into a fault of the step. -/
def Stage.contains : Stage → Family → Bool
  | .read, family => [Family.os, .value, .key, .type].contains family
  | .classify, family => [Family.os, .value, .key].contains family
  | .write, family => [Family.os, .type, .value].contains family

namespace AssignmentStep

/-- A stage of a step: the faults it contains are told as faults of the step. -/
def stage {σ α : Type} (path : Path) (s : Stage) (a : Action σ α) : Action σ α := do
  match ← a.attempt with
  | .ok x => pure x
  | .error f => Action.fail (if s.contains f.family then .step path.toText s f else f)

/-- Runs the step on the document at a path. -/
def run (step : AssignmentStep) (path : Path) (dryRun : Bool) : Action Workplace StepResult := do
  let document ← stage path .read (Workplace.onFiles (Document.read path))
  let logical := document.logical
  let labels ← stage path .classify (Classifier.classify step.strategies logical)
  let result : StepResult :=
    ⟨path, logical.subject step.titleField, labels, logical.countOf step.classField, false⟩
  if dryRun then
    Action.note .info .step (Text.concat
      ["[dry-run] ", path.toText, " would get ", Text.quotedList labels])
    pure result
  else
    let changed := document.updateLogical fun e => e.replaceValues step.classField labels
    stage path .write (Workplace.onFiles changed.write)
    Action.note .info .step (Text.concat
      ["Assigned ", Text.quotedList labels, " to ", path.toText, " (removed ",
        Text.ofNat result.removed, " old entries)"])
    pure { result with written := true }

end AssignmentStep

end TitleClasses
