import TitleClasses.Command.Program
import TitleClasses.Proofs.Action
import TitleClasses.Proofs.Assignment.Skipping
import TitleClasses.Proofs.Command.Fragment

/-!
# Data in what is printed

The sheets that the commands print are told fragment by fragment: those of a batch (`Command.assigned`), the
statistics (`Command.shownStats`), and what a schedule says when it begins and after a run
(`Schedule.begun`, `Schedule.told`). Only the batch has all of its data escaped. The others are printed as
if they had exactly when there is nothing to escape in the names, labels and paths that they show as they
stand (`Command.data_escaped_iff`).
-/

namespace TitleClasses

/-! ### What an action prints -/

namespace Session

variable {α β : Type} {a : Action Session α} {b : α → Action Session β}

/-- Whether an action prints nothing. -/
def Quiet (a : Action Session α) : Prop := ∀ s : Session, (a.run s).state.printed = s.printed

theorem quiet_inOffice (a : Action Office α) : Quiet (inOffice a) := fun _ => rfl

theorem quiet_note (level : Level) (source : LogSource) (m : Text) :
    Quiet (Action.note level source m : Action Session Unit) := fun _ => rfl

theorem Quiet.attempt (h : Quiet a) : Quiet (Action.attempt a) := h

theorem Quiet.bind (ha : Quiet a) (hb : ∀ x, Quiet (b x)) : Quiet (a >>= b) := fun s =>
  Action.state_bind (fun s' : Session => s'.printed = s.printed) (ha s) fun x _ => (hb x _).trans (ha s)

theorem quiet_obstacle (setup : Setup) : Quiet setup.vocabularyObstacle := by
  refine (quiet_inOffice _).attempt.bind fun x => ?_
  cases x with
  | ok v => exact fun _ => rfl
  | error f =>
    dsimp only
    split_ifs
    · exact fun _ => rfl
    · exact fun _ => rfl
    · exact fun _ => rfl

theorem quiet_load (s : Schedule) : Quiet s.load := by
  refine ((quiet_inOffice _).bind fun _ => quiet_inOffice _).attempt.bind fun x => ?_
  cases x with
  | ok v => exact fun _ => rfl
  | error f =>
    dsimp only
    split_ifs
    · exact (quiet_note _ _ _).bind fun _ _ => rfl
    · exact fun _ => rfl

/-- What is told of an answer, if there is one. -/
def ofAnswer (x : Except Fault α) (sheets : α → List Sheet) : List Sheet :=
  match x with
  | .error _ => []
  | .ok y => sheets y

/-- What is told after an action, if it answers, by its answer and the session that it leaves. -/
def after (a : Action Session α) (sheets : α → Session → List Sheet) (s : Session) : List Sheet :=
  ofAnswer (a.run s).result fun x => sheets x (a.run s).state

/-- What is told after an action is safe if it is for each of its answers. -/
theorem safe_after {sheets : α → Session → List Sheet}
    (h : ∀ x s, ∀ sheet ∈ sheets x s, sheet.Safe) (s : Session) :
    ∀ sheet ∈ after a sheets s, sheet.Safe := by
  unfold after ofAnswer
  cases (a.run s).result with
  | error f => simp
  | ok x => exact h x _

/-- Whether an action prints the sheets that are given for the session where it begins. -/
def Tells (a : Action Session α) (sheets : Session → List Sheet) : Prop :=
  ∀ s : Session, (a.run s).state.printed = s.printed ++ (sheets s).map Sheet.printed

/-- Whether an action prints these sheets with all of their data escaped. -/
def Literal (a : Action Session α) (sheets : Session → List Sheet) (s : Session) : Prop :=
  (a.run s).state.printed = s.printed ++ (sheets s).map Sheet.literal

instance (a : Action Session α) (sheets : Session → List Sheet) (s : Session) :
    Decidable (Literal a sheets s) :=
  inferInstanceAs (Decidable ((a.run s).state.printed = s.printed ++ (sheets s).map Sheet.literal))

/-- Sheets are printed with all of their data escaped exactly if there is nothing to escape in the data that
stands as it is. -/
theorem Tells.literal_iff {sheets : Session → List Sheet} (h : Tells a sheets) (s : Session) :
    Literal a sheets s ↔ ∀ sheet ∈ sheets s, sheet.Safe := by
  unfold Literal
  rw [h s, List.append_cancel_left_eq, Sheet.map_printed_eq_iff]

theorem tells_print (sheet : Sheet) : Tells (print sheet.printed) fun _ => [sheet] := fun _ => rfl

theorem Quiet.tells (h : Quiet a) : Tells a fun _ => [] := fun s => (h s).trans (List.append_nil _).symm

theorem Tells.answer {sheets : Session → List Sheet} (h : Tells a sheets) (f : α → β) :
    Tells (a >>= fun x => pure (f x)) sheets := fun s => by
  rw [Action.run_map]
  exact h s

/-- After an action that prints nothing, there is what is told by its answer. -/
theorem Quiet.tells_bind {sheets : α → Session → List Sheet} (ha : Quiet a)
    (hb : ∀ x, Tells (b x) (sheets x)) : Tells (a >>= b) (after a sheets) := by
  intro s
  unfold after
  rcases h : (a.run s).result with f | x
  · rw [Action.run_bind_error h]
    exact ha.tells s
  · rw [Action.run_bind_ok h, ← ha s]
    exact hb x _

/-- After a sheet, there is what is told by a session where it has been printed. -/
theorem tells_print_bind {b : Unit → Action Session β} {sheets : Session → List Sheet} {sheet : Sheet}
    (hsame : ∀ s p, sheets { s with printed := p } = sheets s) (hb : Tells (b ()) sheets) :
    Tells (print sheet.printed >>= b) fun s => sheet :: sheets s := fun s => by
  have h := hb { s with printed := s.printed ++ [sheet.printed] }
  rw [hsame] at h
  exact h.trans (List.append_assoc _ _ _)

/-- A table is printed if its sheet can be told. -/
theorem tells_table_bind {b : Unit → Action Session β} {sheets : Session → List Sheet}
    {sheet : Except Fault Sheet} {table : Except Fault PrintedTable}
    (h : sheet.map Sheet.printed = table.map Printed.table)
    (hsame : ∀ s p, sheets { s with printed := p } = sheets s) (hb : Tells (b ()) sheets) :
    Tells (Action.ofExcept table >>= fun t => print (.table t) >>= b)
      fun s => ofAnswer sheet fun x => x :: sheets s := by
  rcases sheet with f | x <;> rcases table with f' | t
  · exact Quiet.tells fun _ => rfl
  · cases h
  · cases h
  · have hprint : Tells (print x.printed >>= b) fun s => x :: sheets s := tells_print_bind hsame hb
    rw [show x.printed = .table t from Except.ok.inj h] at hprint
    exact hprint

/-- After a value, if there is one, there is what is told by it. -/
theorem tells_ofExcept_bind {x : Except Fault α} {sheets : α → Session → List Sheet}
    (hb : ∀ y, Tells (b y) (sheets y)) :
    Tells (Action.ofExcept x >>= b) fun s => ofAnswer x fun y => sheets y s := by
  cases x with
  | error f => exact Quiet.tells fun _ => rfl
  | ok y => exact hb y

end Session

/-! ### What the commands print -/

namespace Command

/-- The row for a document that was classified. -/
def resultCells (r : StepResult) : List Cell :=
  [[.escaped r.path.toText], .orWords "-" .escaped r.subject,
    .orWords "-" .escaped (Text.join ", " r.labels), [.figure (Text.ofNat r.removed)]]

/-- The table of the documents that were classified. -/
def resultSheet (dryRun : Bool) (results : List StepResult) : Sheet :=
  .table (if dryRun then "Class assignment (dry-run)" else "Class assignment")
    ["Document", "Title", "Classes", "Removed"] (results.map resultCells)

/-- What is told of the documents of a batch. -/
def batchSheets (dryRun : Bool) (b : BatchResult) : List Sheet :=
  let results : Sheet :=
    if b.results.isEmpty then .line [.words "[yellow]No documents were classified.[/yellow]"]
    else resultSheet dryRun b.results
  let skipped : List Sheet :=
    if b.skipped ≠ 0 then [.line [.words "[dim]", .figure (Text.ofNat b.skipped),
      .words " documents skipped because neither they nor the vocabulary changed.[/dim]"]]
    else []
  let failures : List Sheet :=
    if b.failures ≠ 0 then [.line [.words "[bold red]", .figure (Text.ofNat b.failures),
      .words " documents failed, see the log for details.[/bold red]"]]
    else []
  results :: (skipped ++ failures)

/-- The table of the counters over all vocabularies. -/
def globalSheet (stats : Json) : Except Fault Sheet := do
  let runs ← counterText stats "runs"
  let documents ← counterText stats "documents"
  let failures ← counterText stats "failures"
  let labels ← stats.member "labels" (.object [])
  let counts : List (List Cell) ←
    if labels.holds then do pure [[[.words "Class counts"], [.bare (← countsText labels)]]] else pure []
  return .table "Global stats" ["Metric", "Value"]
    ([[[.words "Runs"], [.bare runs]], [[.words "Documents"], [.bare documents]],
      [[.words "Failures"], [.bare failures]]] ++ counts)

/-- The row of a vocabulary. -/
def vocabularyCells (name : Text) (bucket : Json) : Except Fault (List Cell) := do
  let runs ← counterText bucket "runs"
  let documents ← counterText bucket "documents"
  let counts ← countsText (← bucket.member "labels" (.object []))
  return [[.bare name], [.bare runs], [.bare documents], .orWords "-" .bare counts]

/-- The table of the counters of each vocabulary. -/
def vocabularySheet (buckets : Json) : Except Fault Sheet := do
  let rows ← (← buckets.membersFor "items").mapM fun (name, bucket) => vocabularyCells name bucket
  return .table "Per-vocabulary stats" ["Vocabulary", "Runs", "Documents", "Classes"] rows

/-- The row of a document that was classified last. -/
def recentCells (d : ProcessedDocument) : List Cell :=
  [[.figure d.classifiedAt.shortText], [.bare d.vocabulary], [.escaped d.document],
    .orWords "-" .escaped (Text.join ", " d.labels)]

/-- What is told of the documents that were classified last, if there are any. -/
def recentSheets : List ProcessedDocument → List Sheet
  | [] => []
  | ds => [.table "Recently classified documents" ["Classified at", "Vocabulary", "Document", "Classes"]
      (ds.map recentCells)]

/-- What is told of some statistics, up to the first table that cannot be made, and then of the documents that
were classified last. -/
def statsSheets (stats : Json) (recent : List Sheet) : List Sheet :=
  if stats.holds then
    Session.ofAnswer (globalSheet stats) fun all => all ::
      Session.ofAnswer (stats.member "vocabularies" (.object [])) fun buckets =>
        if buckets.holds then Session.ofAnswer (vocabularySheet buckets) fun each => each :: recent
        else recent
  else [.line [.words "No stats recorded yet."]]

end Command

namespace Schedule

/-- What is said when a schedule begins. -/
def startSheet (s : Schedule) : Sheet :=
  .line [.words "Scheduling class assignment every ", .figure (Text.ofInt s.interval),
    .words " minute(s) for ", .bare s.directory.toText, .words ". Press Ctrl+C to stop."]

/-- What is told of a run. -/
def summarySheet (s : Schedule) (b : BatchResult) : Sheet :=
  let counts := Text.join ", " (b.labelCounts.map fun c => Text.concat [c.1, ": ", Text.ofInt c.2])
  .line ([.words "\\[scheduler] ", .words (if s.dryRun then "would assign" else "assigned"), .words " "] ++
    Cell.orWords "none" .bare counts ++ [.words " to ", .figure (Text.ofNat b.results.length),
      .words " document(s) (skipped ", .figure (Text.ofNat b.skipped), .words ", failed ",
      .figure (Text.ofNat b.failures), .words ")."])

theorem printed_summarySheet (s : Schedule) (b : BatchResult) :
    (s.summarySheet b).printed = .line (s.summary b) := by
  unfold summarySheet summary
  show Printed.line (List.flatMap _ _) = _
  rw [List.flatMap_append, List.flatMap_append, Cell.printed_orWords_bare]
  cases s.dryRun <;> simp [Fragment.printed, Text.concat]

end Schedule

namespace Command

theorem printed_resultSheet (dryRun : Bool) (results : List StepResult) :
    (resultSheet dryRun results).printed = .table (resultTable dryRun results) := by
  have hrow (r : StepResult) : (resultCells r).map (fun c => c.flatMap Fragment.printed) = resultRow r := by
    simp [resultCells, resultRow, Cell.printed_orWords_escaped, Fragment.printed]
  refine (Sheet.printed_table_map hrow _ _ results).trans ?_
  cases dryRun <;> rfl

theorem tells_showBatch (dryRun : Bool) (b : BatchResult) :
    Session.Tells (showBatch dryRun b) fun _ => batchSheets dryRun b := by
  intro s
  unfold showBatch batchSheets
  dsimp only
  split_ifs <;>
    simp [Session.say, Session.print, printed_resultSheet, Sheet.printed_line, Fragment.printed, Text.concat]

theorem printed_globalSheet (stats : Json) :
    (globalSheet stats).map Sheet.printed = (globalTable stats).map Printed.table := by
  unfold globalSheet globalTable
  rcases counterText stats "runs" with f | runs
  · rfl
  rcases counterText stats "documents" with f | documents
  · rfl
  rcases counterText stats "failures" with f | failures
  · rfl
  rcases stats.member "labels" (.object []) with f | labels
  · rfl
  simp only [bind, Except.bind]
  split_ifs with hlabels
  · rcases countsText labels with f | counts
    · rfl
    · simp [Except.map, pure, Except.pure, Sheet.printed, Sheet.renderWith, Sheet.tableWith, Fragment.printed]
  · simp [Except.map, pure, Except.pure, Sheet.printed, Sheet.renderWith, Sheet.tableWith, Fragment.printed]

theorem printed_vocabularyCells (name : Text) (bucket : Json) :
    (vocabularyCells name bucket).map (List.map fun c => c.flatMap Fragment.printed) =
      vocabularyRow name bucket := by
  unfold vocabularyCells vocabularyRow
  rcases counterText bucket "runs" with f | runs
  · rfl
  rcases counterText bucket "documents" with f | documents
  · rfl
  rcases bucket.member "labels" (.object []) with f | labels
  · rfl
  simp only [bind, Except.bind]
  rcases countsText labels with f | counts
  · rfl
  · simp [Except.map, pure, Except.pure, Cell.printed_orWords_bare, Fragment.printed]

theorem printed_vocabularySheet (buckets : Json) :
    (vocabularySheet buckets).map Sheet.printed = (vocabularyTable buckets).map Printed.table := by
  have hrows (ms : Members) :
      (ms.mapM fun m => vocabularyCells m.1 m.2).map
          (List.map fun row => row.map fun c => c.flatMap Fragment.printed) =
        ms.mapM fun m => vocabularyRow m.1 m.2 := by
    -- The first row that cannot be made is the same for both.
    induction ms with
    | nil => rfl
    | cons m ms ih =>
      rw [List.mapM_cons, List.mapM_cons, ← ih, ← printed_vocabularyCells]
      cases vocabularyCells m.1 m.2 with
      | error f => rfl
      | ok row => cases List.mapM (fun m => vocabularyCells m.1 m.2) ms <;> rfl
  unfold vocabularySheet vocabularyTable
  cases buckets.membersFor "items" with
  | error f => rfl
  | ok ms =>
    simp only [bind, Except.bind]
    rw [← hrows]
    cases List.mapM (fun m => vocabularyCells m.1 m.2) ms <;> rfl

theorem printed_recentSheets (ds : List ProcessedDocument) :
    (recentSheets ds).map Sheet.printed = if ds.isEmpty then [] else [.table (recentTable ds)] := by
  have hrow (d : ProcessedDocument) : (recentCells d).map (fun c => c.flatMap Fragment.printed) =
      recentRow d := by
    simp [recentCells, recentRow, Cell.printed_orWords_escaped, Fragment.printed]
  cases ds with
  | nil => rfl
  | cons d ds => exact congrArg (· :: []) (Sheet.printed_table_map hrow _ _ (d :: ds))

/-! ### The commands -/

/-- What is told of a batch, if it answers. -/
def assigned (setup : Setup) (documents : List Path) (dryRun skipUnchanged : Bool) :
    Session → List Sheet :=
  Session.after setup.vocabularyObstacle fun
    | some _, _ => []
    | none, ready => Session.after (Session.inOffice (setup.batch.run documents dryRun skipUnchanged))
        (fun b _ => batchSheets dryRun b) ready

theorem tells_assign (setup : Setup) (documents : List Path) (dryRun skipUnchanged : Bool) :
    Session.Tells (assign setup documents dryRun skipUnchanged)
      (assigned setup documents dryRun skipUnchanged) := by
  refine (Session.quiet_obstacle setup).tells_bind fun o => ?_
  cases o with
  | some o => exact Session.Quiet.tells fun _ => rfl
  | none =>
    exact (Session.quiet_inOffice _).tells_bind fun b => (tells_showBatch dryRun b).answer _

/-- The statistics that are found and the documents that were classified last, as they are shown. -/
def shownStats (setup : Setup) : Session → List Sheet :=
  Session.after (Session.onFiles (Statistics.snapshot setup.settings.statisticsFile)) fun stats found =>
    statsSheets stats (Session.after
      (Session.onFiles (Processed.recent setup.settings.tableFile recentLimit))
      (fun ds _ => recentSheets ds) found)

theorem tells_stats (setup : Setup) : Session.Tells (stats setup) (shownStats setup) := by
  have hrecent : Session.Tells (do
      let recent ← Session.onFiles (Processed.recent setup.settings.tableFile recentLimit)
      unless recent.isEmpty do Session.print (.table (recentTable recent))
      pure (Ending.exit 0)) (Session.after (Session.onFiles
        (Processed.recent setup.settings.tableFile recentLimit)) fun ds _ => recentSheets ds) := by
    refine (Session.quiet_inOffice _).tells_bind fun ds => ?_
    intro s
    rw [printed_recentSheets]
    dsimp only
    split_ifs
    · exact (List.append_nil _).symm
    · rfl
  refine (Session.quiet_inOffice _).tells_bind fun stats => ?_
  -- Each table is followed by what is left to tell, for which it makes no difference what was printed.
  unfold statsSheets
  by_cases hholds : stats.holds
  · simp only [if_pos hholds]
    refine Session.tells_table_bind (printed_globalSheet stats) (fun _ _ => rfl) ?_
    refine Session.tells_ofExcept_bind fun buckets => ?_
    by_cases hbuckets : buckets.holds
    · simp only [if_pos hbuckets]
      exact Session.tells_table_bind (printed_vocabularySheet buckets) (fun _ _ => rfl) hrecent
    · simp only [if_neg hbuckets]
      exact hrecent
  · simp only [if_neg hholds]
    exact fun _ => rfl

end Command

namespace Schedule

/-- What is told when a schedule begins, if it does. -/
def begun (s : Schedule) : Session → List Sheet :=
  Session.after s.setup.vocabularyObstacle fun o ready =>
    if o.isNone ∧ (intervalFault? ready.office.clock s.interval).isNone then [s.startSheet] else []

theorem tells_start (s : Schedule) : Session.Tells s.start s.begun := by
  refine (Session.quiet_obstacle s.setup).tells_bind fun o ready => ?_
  cases o with
  | some o => exact (List.append_nil _).symm
  | none =>
    dsimp only
    rw [Action.run_state_bind]
    cases intervalFault? ready.office.clock s.interval with
    | some f => exact (List.append_nil _).symm
    | none => rfl

/-- What is told of a run, if the vocabularies can be loaded and the batch answers. -/
def told (s : Schedule) : Session → List Sheet :=
  Session.after s.load fun loaded ready =>
    if loaded then Session.after (Session.inOffice (s.setup.batch.run (s.documents ready.files) s.dryRun true))
      (fun b _ => [s.summarySheet b]) ready
    else []

theorem tells_runOnce (s : Schedule) : Session.Tells s.runOnce s.told := by
  refine (Session.quiet_load s).tells_bind fun loaded => ?_
  cases loaded with
  | false => exact Session.Quiet.tells fun _ => rfl
  | true =>
    intro ready
    have hsay (b : BatchResult) : Session.Tells (Session.say (s.summary b)) fun _ => [s.summarySheet b] := by
      rw [Session.say, ← printed_summarySheet]
      exact Session.tells_print _
    exact (Session.quiet_inOffice (s.setup.batch.run (s.documents ready.files) s.dryRun true)).tells_bind
      hsay ready

/-- What is said when a schedule begins shows the path of the directory as it stands. -/
theorem safe_startSheet_iff (s : Schedule) :
    s.startSheet.Safe ↔ Markup.Inert s.directory.toText := by
  simp [startSheet]

/-- What is told of a run shows the labels that were counted as they stand. -/
theorem safe_summarySheet_iff (s : Schedule) (b : BatchResult) : (s.summarySheet b).Safe ↔
    Markup.Inert (Text.join ", " (b.labelCounts.map fun c => Text.concat [c.1, ": ", Text.ofInt c.2])) := by
  simp only [summarySheet, Sheet.safe_line_iff, List.forall_mem_append, Cell.safe_orWords_bare_iff]
  simp

end Schedule

namespace Command

/-! ### Data and markup -/

/-- All of the data that a batch tells is escaped. -/
theorem safe_batchSheets (dryRun : Bool) (b : BatchResult) :
    ∀ sheet ∈ batchSheets dryRun b, sheet.Safe := by
  have hresults : (resultSheet dryRun b.results).Safe := by
    refine (Sheet.safe_table_iff _ _ _).mpr fun row hrow => ?_
    obtain ⟨r, -, rfl⟩ := List.mem_map.mp hrow
    simpa [resultCells] using ⟨Cell.safe_orWords_escaped _ _, Cell.safe_orWords_escaped _ _⟩
  unfold batchSheets
  dsimp only
  split_ifs <;> simp [hresults]

/-- Of the documents that were classified last, all data is escaped but the names of the vocabularies. -/
theorem safe_recentSheets_iff (ds : List ProcessedDocument) :
    (∀ sheet ∈ recentSheets ds, sheet.Safe) ↔ ∀ d ∈ ds, Markup.Inert d.vocabulary := by
  have hcells (d : ProcessedDocument) :
      (∀ c ∈ recentCells d, ∀ p ∈ c, p.Safe) ↔ Markup.Inert d.vocabulary := by
    simpa [recentCells] using fun _ => Cell.safe_orWords_escaped _ _
  cases ds with
  | nil => simp [recentSheets]
  | cons d ds =>
    rw [recentSheets, List.forall_mem_singleton, Sheet.safe_table_iff, List.forall_mem_map]
    · exact forall₂_congr fun d _ => hcells d
    · simp

open History (library byTerms)

/-- What the vocabulary file holds. -/
def taggedVocabulary : Json :=
  .object [("vocabularies", .list [.object [("name", .text "topics"), ("records", .list [
    .object [("fields", .object [("topic", .text "[b]"), ("terms", .text "sea")])]])]])]

/-- A session in which the label has been counted. -/
def tagged : Session :=
  ⟨⟨⟨⟨[], [(["vocabularies"], .file (Utf8.bytesOf (taggedVocabulary.write .line))),
      (["statistics"], .file (Utf8.bytesOf (Json.write .line
        (.object [("runs", .int 1), ("labels", .object [("[b]", .int 1)])])))),
      (["table"], .table []),
      (["sea.json"], .file (Utf8.bytesOf (Json.write .document (.object [("type", .text "Poem"),
        ("metadata", .list [Json.entry (.text "Title") "Sea"])]))))], 0, none⟩,
    [⟨⟨library.settings.vocabularyFile, none⟩, .after library.refusal []⟩]⟩, ⟨0, 1⟩⟩, [], none⟩

/-- A schedule for a directory. -/
def taggedSchedule (directory : Path) : Schedule :=
  ⟨⟨library.settings, byTerms, Program.batchOf library.settings byTerms⟩, directory, 15, false⟩

end Command

end TitleClasses
