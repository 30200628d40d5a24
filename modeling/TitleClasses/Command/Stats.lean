import TitleClasses.Command.Markup
import TitleClasses.Command.Session

/-!
# The command that shows statistics

Three tables: the counters over all vocabularies, those of each vocabulary, and the documents that were
classified last. The statistics may hold values of any kind; a table is shown only when all of it could
be made.
-/

namespace TitleClasses.Command

/-- Counts in words. -/
def countsText (counts : Json) : Except Fault Text := do
  let ms ← counts.membersFor "items"
  return Text.join ", " (ms.map fun (label, n) => Text.concat [label, ": ", n.display])

/-- The text of a counter, which is zero when it is not there. -/
def counterText (bucket : Json) (key : Text) : Except Fault Text := do
  return (← bucket.member key (.int 0)).display

/-- The table of the counters over all vocabularies. -/
def globalTable (stats : Json) : Except Fault PrintedTable := do
  let runs ← counterText stats "runs"
  let documents ← counterText stats "documents"
  let failures ← counterText stats "failures"
  let labels ← stats.member "labels" (.object [])
  let counters : List (List Text) := [["Runs", runs], ["Documents", documents], ["Failures", failures]]
  let counts : List (List Text) ←
    if labels.holds then do pure [["Class counts", ← countsText labels]] else pure []
  return {
    title := "Global stats"
    columns := ["Metric", "Value"]
    rows := counters ++ counts }

/-- The row of a vocabulary. -/
def vocabularyRow (name : Text) (bucket : Json) : Except Fault (List Text) := do
  let runs ← counterText bucket "runs"
  let documents ← counterText bucket "documents"
  let counts ← countsText (← bucket.member "labels" (.object []))
  return [name, runs, documents, if counts.isEmpty then "-" else counts]

/-- The table of the counters of each vocabulary. -/
def vocabularyTable (buckets : Json) : Except Fault PrintedTable := do
  let rows ← (← buckets.membersFor "items").mapM fun (name, bucket) => vocabularyRow name bucket
  return {
    title := "Per-vocabulary stats"
    columns := ["Vocabulary", "Runs", "Documents", "Classes"]
    rows }

/-- The row of a document that was classified. -/
def recentRow (d : ProcessedDocument) : List Text :=
  [d.classifiedAt.shortText, d.vocabulary, Markup.escape d.document,
    Markup.escapeOr "-" (Text.join ", " d.labels)]

/-- The table of the documents that were classified last. -/
def recentTable (ds : List ProcessedDocument) : PrintedTable where
  title := "Recently classified documents"
  columns := ["Classified at", "Vocabulary", "Document", "Classes"]
  rows := ds.map recentRow

/-- How many documents the last table has at most. -/
def recentLimit : Int := 10

/-- Shows the statistics. -/
def stats (setup : Setup) : Action Session Ending := do
  let stats ← Session.onFiles (Statistics.snapshot setup.settings.statisticsFile)
  if stats.holds then
    Session.print (.table (← Action.ofExcept (globalTable stats)))
    let buckets ← Action.ofExcept (stats.member "vocabularies" (.object []))
    if buckets.holds then
      Session.print (.table (← Action.ofExcept (vocabularyTable buckets)))
    let recent ← Session.onFiles (Processed.recent setup.settings.tableFile recentLimit)
    unless recent.isEmpty do Session.print (.table (recentTable recent))
  else Session.say "No stats recorded yet."
  pure (.exit 0)

end TitleClasses.Command
