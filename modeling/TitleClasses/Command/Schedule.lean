import TitleClasses.Command.Session

/-!
# The command that runs on a schedule

At each interval the vocabularies are loaded anew and a batch is run on the documents of a directory,
in the order of their names; unchanged ones are passed over. When the vocabularies cannot be loaded the
run is left out, and the next one tries again.
-/

namespace TitleClasses

/-- What is run at each interval, of so many minutes. -/
structure Schedule where
  setup : Setup
  directory : Path
  interval : Int
  dryRun : Bool

namespace Schedule

/-- The minutes of a day. -/
def dayMinutes : Nat := 1440

/-- The first number of days that is not counted any more. -/
def countedDays : Int := 0x80000000

/-- The number of days that an interval can have at most. -/
def maxDays : Nat := 999999999

/-- The days from the beginning of 1970 to the end of the year 9999. -/
def lastDay : Nat := 2932897

/-- Why there is no next time after an interval. An interval must move time on. -/
def intervalFault? (now : Clock) (interval : Int) : Option IntervalFault :=
  let days := interval.fdiv dayMinutes
  if days < -countedDays || countedDays ≤ days then some .beyondDays
  else if maxDays < days.natAbs then some (.tooManyDays days)
  else if interval ≤ 0 then some .beyondDates
  else if (lastDay * dayMinutes * 60000000 : Nat) ≤ now.micros + interval * 60000000 then
    some .beyondDates
  else none

/-- The ending of the names of documents. -/
def documentEnding : Text := ".json"

/-- The documents of the directory. -/
def documents (s : Schedule) (fs : Files) : List Path :=
  (fs.namesIn s.directory fun name => documentEnding.isSuffixOf name).map s.directory.child

/-- Begins: the vocabulary must be there, and the interval must have a next time. -/
def start (s : Schedule) : Action Session (Option Notice) := do
  match ← s.setup.vocabularyObstacle with
  | some o => pure (some ⟨o, CommandName.schedule⟩)
  | none => do
    match intervalFault? (← Action.state).office.clock s.interval with
    | some f => Action.fail (.interval f)
    | none => do
      Session.say (Text.concat ["Scheduling class assignment every ", Text.ofInt s.interval,
        " minute(s) for ", s.directory.toText, ". Press Ctrl+C to stop."])
      pure none

/-- The families of faults that leave out a run. -/
def leavesOut (family : Family) : Bool := [Family.os, .value, .key].contains family

/-- Loads the vocabularies anew and answers whether the one of the profile is there. -/
def load (s : Schedule) : Action Session Bool := do
  match ← Action.attempt (do
      Session.onVocabulary VocabularyFile.reload
      Session.onVocabulary fun fs => VocabularyFile.find fs s.setup.profile.vocabulary) with
  | .ok _ => pure true
  | .error f =>
    if leavesOut f.family then
      Action.note .error .program (Text.concat
        ["Cannot load vocabularies, skipping this run: ", f.message])
      pure false
    else Action.fail f

/-- What is told of a run. -/
def summary (s : Schedule) (b : BatchResult) : Text :=
  let counts := Text.join ", " (b.labelCounts.map fun c =>
    Text.concat [c.1, ": ", Text.ofInt c.2])
  Text.concat ["\\[scheduler] ", if s.dryRun then "would assign" else "assigned", " ",
    if counts.isEmpty then "none" else counts, " to ", Text.ofNat b.results.length,
    " document(s) (skipped ", Text.ofNat b.skipped, ", failed ", Text.ofNat b.failures, ")."]

/-- One run. -/
def runOnce (s : Schedule) : Action Session Unit := do
  if ← s.load then
    let documents := s.documents (← Action.state).files
    let b ← Session.inOffice (s.setup.batch.run documents s.dryRun true)
    Session.say (s.summary b)

/-- Ends. -/
def stop : Action Session Unit := Session.say "Scheduler stopped."

end Schedule

end TitleClasses
