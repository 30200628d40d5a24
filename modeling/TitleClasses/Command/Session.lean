import TitleClasses.Assignment.Batch
import TitleClasses.Command.Notice
import TitleClasses.Command.Printed
import TitleClasses.Log.Routing
import TitleClasses.Settings.Basic

/-!
# Sessions

A session is one run of the program: the office it works in, what it has printed, and where its log
records go once that is settled.
-/

namespace TitleClasses

/-- A session. -/
structure Session where
  office : Office
  printed : List Printed
  routing : Option LogRouting

instance : LogKeeper Session where
  keep log s := { s with office := LogKeeper.keep log s.office }

/-- What the commands of a session know: the settings, the profile that was chosen, and how batches
run. -/
structure Setup where
  settings : Settings
  profile : Profile
  batch : Batch

/-- How a command ends: with a number, or with a notice. -/
inductive Ending where
  | exit (code : Nat)
  | notice (n : Notice)
deriving DecidableEq, Repr

namespace Session

/-- The beginning of a session, with no vocabulary and no log yet. -/
def start (files : Files) (clock : Clock) : Session where
  office := ⟨⟨files.closeLog, []⟩, clock⟩
  printed := []
  routing := none

/-- The file system of a session. -/
def files (s : Session) : Files := s.office.files

/-- An action in the office. -/
def inOffice {α : Type} (a : Action Office α) : Action Session α :=
  a.within Session.office fun o s => { s with office := o }

/-- An action on the file system. -/
def onFiles {α : Type} (a : Action Files α) : Action Session α := inOffice (Office.onFiles a)

/-- An action on the rule engine. -/
def onEngine {α : Type} (a : Action Engine α) : Action Session α :=
  inOffice (Office.atWork (Workplace.onEngine 0 a))

/-- An action on the vocabulary file. -/
def onVocabulary {α : Type} (a : Files → Action VocabularyFile α) : Action Session α :=
  inOffice (Office.atWork (Workplace.onVocabulary 0 a))

/-- Takes up a vocabulary file, with an engine for its rules. -/
def takeUp (d : Desk) : Action Session Unit :=
  inOffice (Office.atWork (Action.update fun w => { w with desks := [d] }))

/-- Prints something. -/
def print (p : Printed) : Action Session Unit :=
  Action.update fun s => { s with printed := s.printed ++ [p] }

/-- Prints a line. -/
def say (t : Text) : Action Session Unit := print (.line t)

end Session

namespace Setup

/-- Whether a fault is that there is no such file. -/
def isAbsence : Fault → Bool
  | .missingFile .. | .refused .absent .. => true
  | _ => false

/-- Looks for the vocabulary of the profile, and answers why it cannot be used if a notice can tell. -/
def vocabularyObstacle (setup : Setup) : Action Session (Option Obstacle) := do
  match ← Action.attempt (Session.onVocabulary fun fs =>
      VocabularyFile.find fs setup.profile.vocabulary) with
  | .ok _ => pure none
  | .error f =>
    if isAbsence f then pure (some (.unable f.message))
    else if f.family = .key then pure (some (.badValue "--profile" f.sentence))
    else Action.fail f

end Setup

end TitleClasses
