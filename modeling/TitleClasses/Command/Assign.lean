import TitleClasses.Command.Markup
import TitleClasses.Command.Session

/-!
# The command that assigns classes

A batch is run on the documents that were named. What was classified is shown in a table, with the
number of documents that were passed over and of those that failed; only if none failed does the
program end with zero.
-/

namespace TitleClasses.Command

/-- The row for a document that was classified. -/
def resultRow (r : StepResult) : List Text :=
  [Markup.escape r.path.toText, Markup.escapeOr "-" r.subject,
    Markup.escapeOr "-" (Text.join ", " r.labels), Text.ofNat r.removed]

/-- The table of the documents that were classified. -/
def resultTable (dryRun : Bool) (results : List StepResult) : PrintedTable where
  title := if dryRun then "Class assignment (dry-run)" else "Class assignment"
  columns := ["Document", "Title", "Classes", "Removed"]
  rows := results.map resultRow

/-- Shows what became of the documents of a batch. -/
def showBatch (dryRun : Bool) (b : BatchResult) : Action Session Unit := do
  if b.results.isEmpty then Session.say "[yellow]No documents were classified.[/yellow]"
  else Session.print (.table (resultTable dryRun b.results))
  if b.skipped ≠ 0 then
    Session.say (Text.concat ["[dim]", Text.ofNat b.skipped,
      " documents skipped because neither they nor the vocabulary changed.[/dim]"])
  if b.failures ≠ 0 then
    Session.say (Text.concat ["[bold red]", Text.ofNat b.failures,
      " documents failed, see the log for details.[/bold red]"])

/-- Assigns classes to documents. -/
def assign (setup : Setup) (documents : List Path) (dryRun skipUnchanged : Bool) :
    Action Session Ending := do
  match ← setup.vocabularyObstacle with
  | some o => pure (.notice ⟨o, CommandName.assign⟩)
  | none => do
    let b ← Session.inOffice (setup.batch.run documents dryRun skipUnchanged)
    showBatch dryRun b
    pure (.exit (if b.failures = 0 then 0 else 1))

end TitleClasses.Command
