import TitleClasses.Assignment.Batch
import TitleClasses.Proofs.Assignment.Desk
import TitleClasses.Proofs.Processed.Table

/-!
# One document of a batch

A batch takes up one document after another. First the table may be asked whether the document is
unchanged (`entered` is where the batch stands then); if it is not, the step runs (`stepped`), and what
it has left is recorded unless the run is dry. `process_rows` says which rows the tables may have gained
from it: the one with the fingerprint of what the step has left, and no others. `row_of_skipped` says
what it takes for a document to be passed over: a row with its fingerprint was there.

All this is proved for any step whose strategies leave the files as they are but for log records.
-/

namespace TitleClasses

open Utf8 (Bytes)

/-! ### Rows and desks after a step -/

namespace AssignmentStep

variable {step : AssignmentStep} {w : Workplace}

/-- The strategies of a step, at the desks of a workplace, change nothing of any files but the log, and
leave desks with a property. -/
structure Keeps (step : AssignmentStep) (desks : List Desk) (P : List Desk → Prop) : Prop where
  files : ∀ d (w : Workplace), w.desks = desks →
    Files.Logged w.files (step.classified d w).state.files
  desks : ∀ d (w : Workplace), w.desks = desks → P (step.classified d w).state.desks

/-- A step brings no rows into tables. -/
theorem run_rows {P : List Desk → Prop} (hstep : step.Keeps w.desks P) (path : Path) (dryRun : Bool) :
    ((step.run path dryRun).run w).state.files.rows ⊆ w.files.rows := by
  rcases step.run_cases path dryRun w with ⟨f, -, -, hs⟩ | ⟨d, log, found, -, rfl, h⟩
  · rw [hs]
    exact List.Subset.refl _
  have hfound : (step.classified d (LogKeeper.keep log w)).state.files.rows ⊆ w.files.rows := by
    rw [(hstep.files d (LogKeeper.keep log w) rfl).rows]
    exact List.Subset.refl _
  have hwritten (labels : List Text) : (step.written d labels
      (step.classified d (LogKeeper.keep log w)).state).state.files.rows ⊆ w.files.rows :=
    List.Subset.trans (written_rows d labels) hfound
  rcases h with ⟨f, -, -, hs⟩ | ⟨labels, -, ⟨-, -, more, hs⟩ | ⟨-, f, -, -, hs⟩ | ⟨-, -, -, more, hs⟩⟩
  · rw [hs]
    exact hfound
  · rw [hs]
    exact hfound
  · rw [hs]
    exact hwritten labels
  · rw [hs]
    exact hwritten labels

/-- A step leaves the desks that its strategies leave, or does not come to them. -/
theorem run_desks {P : List Desk → Prop} (hP : P w.desks) (hstep : step.Keeps w.desks P) (path : Path)
    (dryRun : Bool) : P ((step.run path dryRun).run w).state.desks := by
  rcases step.run_cases path dryRun w with ⟨f, -, -, hs⟩ | ⟨d, log, found, -, rfl, h⟩
  · rw [hs]
    exact hP
  have hdesks : P (step.classified d (LogKeeper.keep log w)).state.desks :=
    hstep.desks d (LogKeeper.keep log w) rfl
  -- Writing and log records do not come to the desks.
  rcases h with ⟨f, -, -, hs⟩ | ⟨labels, -, ⟨-, -, more, hs⟩ | ⟨-, f, -, -, hs⟩ | ⟨-, -, -, more, hs⟩⟩
  · rw [hs]
    exact hdesks
  · rw [hs]
    exact hdesks
  · rw [hs]
    exact hdesks
  · rw [hs]
    exact hdesks

end AssignmentStep

/-! ### Statistics -/

namespace Statistics

/-- Writing text to a file brings no rows into tables. -/
theorem replace_rows (path : Path) (bytes : Bytes) (fs : Files) :
    ((do Action.replace (← Action.ofExcept ((← Action.state).writeBytes path bytes)) :
      Action Files Unit).run fs).state.rows ⊆ fs.rows := by
  rw [Action.run_state_bind]
  rcases h : fs.writeBytes path bytes with f | fs'
  · rw [Action.run_ofExcept_error_bind]
    exact List.Subset.refl _
  · rw [Action.run_ofExcept_ok_bind]
    exact Files.writeBytes_rows h

theorem snapshot_rows (path : Path) (fs : Files) : ((snapshot path).run fs).state.rows ⊆ fs.rows := by
  unfold snapshot
  rw [Action.run_state_bind]
  split
  · exact List.Subset.refl _
  · rw [Action.run_note_bind]
    refine Action.state_bind (fun s : Files => s.rows ⊆ fs.rows) (replace_rows path _ _) fun _ _ => ?_
    exact replace_rows path _ _
  · exact List.Subset.refl _

/-- Counting a run brings no rows into tables. -/
theorem record_rows (path : Path) (vocabulary : Json) (run : RunCounts) (fs : Files) :
    ((record path vocabulary run).run fs).state.rows ⊆ fs.rows := by
  have hsnapshot := snapshot_rows path fs
  unfold record
  refine Action.state_bind (fun s : Files => s.rows ⊆ fs.rows) hsnapshot fun v _ => ?_
  refine Action.state_bind (fun s : Files => s.rows ⊆ fs.rows) ?_ fun stats _ => ?_
  · rw [Action.run_ofExcept]
    exact hsnapshot
  rw [Action.run_ofExcept]
  dsimp only
  split
  · exact hsnapshot
  · exact List.Subset.trans (replace_rows path _ _) hsnapshot

end Statistics

namespace BatchResult

theorem ofOutcomes_classified (r : StepResult) (outcomes : List DocumentOutcome) :
    ofOutcomes (.classified r :: outcomes) = ⟨r :: (ofOutcomes outcomes).results,
      (ofOutcomes outcomes).failures, (ofOutcomes outcomes).skipped⟩ := by
  simp [ofOutcomes]

theorem ofOutcomes_failed (outcomes : List DocumentOutcome) :
    ofOutcomes (.failed :: outcomes) = ⟨(ofOutcomes outcomes).results,
      (ofOutcomes outcomes).failures + 1, (ofOutcomes outcomes).skipped⟩ := by
  simp [ofOutcomes]

theorem ofOutcomes_skipped (outcomes : List DocumentOutcome) :
    ofOutcomes (.skipped :: outcomes) = ⟨(ofOutcomes outcomes).results,
      (ofOutcomes outcomes).failures, (ofOutcomes outcomes).skipped + 1⟩ := by
  simp [ofOutcomes]

/-- The results of a batch are those of the documents that were classified. -/
theorem mem_results {outcomes : List DocumentOutcome} {r : StepResult} :
    r ∈ (ofOutcomes outcomes).results ↔ .classified r ∈ outcomes := by
  unfold ofOutcomes
  rw [List.mem_filterMap]
  constructor
  · rintro ⟨outcome, houtcome, hr⟩
    cases outcome with
    | classified r' =>
      obtain rfl := Option.some.inj hr
      exact houtcome
    | _ => cases hr
  · exact fun h => ⟨_, h, rfl⟩

end BatchResult

namespace Batch

variable {b : Batch} {digest : Text} {path : Path} {o : Office}

/-- The digest of the vocabulary is asked for at the only desk. -/
theorem digest_run (b : Batch) {d : Desk} (hdesks : o.workplace.desks = [d]) :
    let asked := (VocabularyFile.digest o.files b.vocabulary).run d.vocabulary
    b.digest.run o = ⟨asked.result, { o with workplace :=
      ⟨LogKeeper.keep asked.log o.files, [{ d with vocabulary := asked.state }]⟩ }, asked.log⟩ := by
  have hdesk := Workplace.atDesk_run hdesks fun fs =>
    (VocabularyFile.digest fs b.vocabulary).within Desk.vocabulary fun v d => { d with vocabulary := v }
  unfold digest Office.atWork Workplace.onVocabulary
  rw [Action.run_within, hdesk]
  rfl

/-- All that a batch can do once the digest is known. The documents are taken up one after another, and
the batch fails with the first turn that fails; or all turns have outcomes, and the batch answers with
their sum, after the run was added to the statistics unless it is dry or nothing was done. -/
theorem run_cases (b : Batch) (documents : List Path) (dryRun skipUnchanged : Bool) {t : Text}
    (ht : (b.digest.run o).result = .ok t) :
    let turns := (Action.each (b.process t dryRun skipUnchanged) documents).run (b.digest.run o).state
    let ran := (b.run documents dryRun skipUnchanged).run o
    (∃ f, turns.result = .error f ∧ ran.result = .error f ∧ ran.state = turns.state) ∨
      ∃ outcomes, turns.result = .ok outcomes ∧
        let sum := BatchResult.ofOutcomes outcomes
        let counted := (Office.onFiles
          (Statistics.record b.statistics b.vocabulary sum.runCounts)).run turns.state
        ((dryRun || (sum.results.isEmpty && sum.failures = 0)) = true ∧
          ran.result = .ok sum ∧ ran.state = turns.state) ∨
        ((dryRun || (sum.results.isEmpty && sum.failures = 0)) = false ∧
          ran.result = counted.result.map (fun _ => sum) ∧ ran.state = counted.state) := by
  intro turns ran
  have hran : ran = (b.digest >>= fun digest => do
      let outcomes ← Action.each (b.process digest dryRun skipUnchanged) documents
      let result := BatchResult.ofOutcomes outcomes
      unless dryRun || (result.results.isEmpty && result.failures = 0) do
        Office.onFiles (Statistics.record b.statistics b.vocabulary result.runCounts)
      pure result).run o := rfl
  rw [hran, Action.run_bind_ok ht]
  rcases hturns : turns.result with f | outcomes
  · rw [Action.run_bind_error hturns]
    exact Or.inl ⟨f, rfl, rfl, rfl⟩
  rw [Action.run_bind_ok hturns]
  refine Or.inr ⟨outcomes, rfl, ?_⟩
  intro sum counted
  cases hquiet : dryRun || (sum.results.isEmpty && sum.failures = 0) with
  | true =>
    dsimp only
    rw [if_pos hquiet]
    exact Or.inl ⟨rfl, rfl, rfl⟩
  | false =>
    dsimp only
    rw [if_neg (by rw [hquiet]; exact Bool.false_ne_true), Action.run_map]
    exact Or.inr ⟨rfl, rfl, rfl⟩

/-! ### Asking the table -/

/-- An office with other files. -/
def withFiles (o : Office) (fs : Files) : Office :=
  { o with workplace := { o.workplace with files := fs } }

theorem isUnchanged_run_error (b : Batch) (digest : Text) {f : Fault}
    (h : o.files.readBytes path = .error f) :
    (b.isUnchanged digest path).run o = ⟨.ok false, o, []⟩ := by
  unfold isUnchanged fingerprint?
  rw [Action.run_state_bind]
  simp only [h, Action.run_pure]

theorem isUnchanged_run_ok (b : Batch) (digest : Text) {bytes : Bytes}
    (h : o.files.readBytes path = .ok bytes) :
    let asked := (Processed.isCurrent b.table b.vocabulary (keyOf o.files path)
      (fingerprint bytes digest)).run o.files
    (b.isUnchanged digest path).run o = ⟨asked.result, withFiles o asked.state, asked.log⟩ := by
  unfold isUnchanged fingerprint?
  rw [Action.run_state_bind]
  simp only [h]
  rfl

/-- Asking changes nothing but files, and brings no rows into tables. -/
theorem isUnchanged_state (b : Batch) (digest : Text) (path : Path) (o : Office) :
    ∃ fs, ((b.isUnchanged digest path).run o).state = withFiles o fs ∧ fs.rows ⊆ o.files.rows := by
  rcases h : o.files.readBytes path with f | bytes
  · rw [isUnchanged_run_error b digest h]
    exact ⟨o.files, rfl, List.Subset.refl _⟩
  · rw [isUnchanged_run_ok b digest h]
    exact ⟨_, rfl, Processed.isCurrent_rows _ _ _ _ _⟩

/-- A document that is unchanged has a row of its own, with its fingerprint. -/
theorem row_of_isUnchanged (h : ((b.isUnchanged digest path).run o).result = .ok true) :
    ∃ bytes, o.files.readBytes path = .ok bytes ∧ ∃ row ∈ o.files.rows,
      Processed.keyOf b.vocabulary = .ok (some row.vocabulary) ∧ row.document = keyOf o.files path ∧
        row.fingerprint = fingerprint bytes digest := by
  rcases hread : o.files.readBytes path with f | bytes
  · rw [isUnchanged_run_error b digest hread] at h
    cases h
  · rw [isUnchanged_run_ok b digest hread] at h
    obtain ⟨k, hk, row, hrow, rfl, hdocument, hmark⟩ := Processed.isCurrent_row h
    exact ⟨bytes, rfl, row, hrow, hk, hdocument, hmark⟩

/-! ### Recording -/

/-- Recording changes nothing of the workplace but files: a row is put into the table, if there is
something to record. -/
theorem recordDocument_workplace (b : Batch) (digest : Text) (path : Path) (labels : List Text)
    (o : Office) :
    ((b.recordDocument digest path labels).run o).state.workplace = o.workplace ∨
      ∃ bytes now, o.files.readBytes path = .ok bytes ∧
        ((b.recordDocument digest path labels).run o).state.workplace = { o.workplace with
          files := ((Processed.record b.table b.vocabulary (keyOf o.files path)
            (fingerprint bytes digest) labels now).run o.files).state } := by
  unfold recordDocument fingerprint?
  rw [Action.run_state_bind]
  rcases h : o.files.readBytes path with f | bytes
  · simp only [h]
    exact Or.inl rfl
  · simp only [h]
    exact Or.inr ⟨bytes, o.clock.instant, rfl, rfl⟩

/-! ### Classifying -/

/-- After an attempt at work the office goes on with the answer or the fault, at the workplace that the
work has left. -/
theorem attempt_atWork_bind {α β : Type} {a : Action Workplace α} {o : Office} {x : Except Fault α}
    (h : (a.run o.workplace).result = x) (next : Except Fault α → Action Office β) :
    let left : Office := { o with workplace := (a.run o.workplace).state }
    (Action.attempt (Office.atWork a) >>= next).run o = ⟨((next x).run left).result,
      ((next x).run left).state, (a.run o.workplace).log ++ ((next x).run left).log⟩ :=
  Action.run_attempt_bind (a := Office.atWork a) h next

/-- After the step only a log record is made, or the document is recorded. -/
theorem classify_workplace (b : Batch) (digest : Text) (dryRun : Bool) (path : Path) (o : Office) :
    let stepped := (b.step.run path dryRun).run o.workplace
    (∃ log, ((b.classify digest dryRun path).run o).state.workplace = LogKeeper.keep log stepped.state) ∨
      (dryRun = false ∧ ∃ r, stepped.result = .ok r ∧
        ((b.classify digest dryRun path).run o).state = ((b.recordDocument digest path r.labels).run
          { o with workplace := stepped.state }).state) := by
  intro stepped
  have hresult : ((b.step.run path dryRun).run o.workplace).result = stepped.result := rfl
  have hunlogged : stepped.state = LogKeeper.keep [] stepped.state := (Workplace.keep_nil _).symm
  unfold classify
  rw [attempt_atWork_bind hresult]
  rcases hr : stepped.result with f | r
  · -- Only a fault of the step is noted.
    cases f with
    | step p stage cause => exact Or.inl ⟨_, rfl⟩
    | _ => exact Or.inl ⟨[], hunlogged⟩
  · cases dryRun with
    | true => exact Or.inl ⟨[], hunlogged⟩
    | false =>
      refine Or.inr ⟨rfl, r, rfl, ?_⟩
      simp only [Bool.false_eq_true, if_false]
      rw [Action.run_map]

/-- A document that comes to be classified is not passed over. -/
theorem classify_ne_skipped (b : Batch) (digest : Text) (dryRun : Bool) (path : Path) (o : Office) :
    ((b.classify digest dryRun path).run o).result ≠ .ok .skipped := by
  intro h
  unfold classify at h
  obtain ⟨x, -, h⟩ := Action.result_bind_eq_ok.mp h
  rcases x with f | r
  · cases f with
    | step p stage cause => cases h
    | _ => cases h
  · cases dryRun with
    | true => cases h
    | false =>
      obtain ⟨u, -, h⟩ := Action.result_bind_eq_ok.mp h
      cases h

section Classify

variable (digest : Text) {dryRun : Bool} {stepped : Outcome Workplace StepResult}
  (hstepped : (b.step.run path dryRun).run o.workplace = stepped)
include hstepped

/-- A fault of the step is logged. -/
theorem classify_failed {p : Text} {stage : Stage} {cause : Fault}
    (hr : stepped.result = .error (.step p stage cause)) :
    ((b.classify digest dryRun path).run o).result = .ok .failed ∧
      Files.Logged stepped.state.files ((b.classify digest dryRun path).run o).state.files := by
  subst hstepped
  unfold classify
  rw [attempt_atWork_bind hr]
  exact ⟨rfl, _, rfl⟩

/-- What a dry run answers is not recorded. -/
theorem classify_dry {r : StepResult} (hr : stepped.result = .ok r) (hdry : dryRun = true) :
    ((b.classify digest dryRun path).run o).result = .ok (.classified r) ∧
      ((b.classify digest dryRun path).run o).state.files = stepped.state.files := by
  subst hstepped
  unfold classify
  rw [attempt_atWork_bind hr, hdry]
  exact ⟨rfl, rfl⟩

/-- What any other run answers is recorded with what the document holds then, and is the answer if that can
be done. -/
theorem classify_records {r : StepResult} {bytes : Bytes} (hr : stepped.result = .ok r)
    (hdry : dryRun = false) (hread : stepped.state.files.readBytes path = .ok bytes) :
    let recorded := (Processed.record b.table b.vocabulary (keyOf stepped.state.files path)
      (fingerprint bytes digest) r.labels o.clock.instant).run stepped.state.files
    ((b.classify digest dryRun path).run o).result = recorded.result.map (fun _ => .classified r) ∧
      ((b.classify digest dryRun path).run o).state.files = recorded.state := by
  subst hstepped
  -- The document is recorded in the office that the step has left.
  let office : Office := { o with workplace := ((b.step.run path dryRun).run o.workplace).state }
  have hrecorded : (b.recordDocument digest path r.labels).run office =
      (Office.onClock Clock.read >>= fun now => Office.onFiles (Processed.record b.table b.vocabulary
        (keyOf office.files path) (fingerprint bytes digest) r.labels now)).run office := by
    have hfiles : office.files.readBytes path = .ok bytes := hread
    unfold recordDocument fingerprint?
    rw [Action.run_state_bind]
    simp only [hfiles]
  unfold classify
  rw [attempt_atWork_bind hr]
  dsimp only
  rw [hdry, if_neg Bool.false_ne_true, Action.run_map, ← hdry, hrecorded]
  exact ⟨rfl, rfl⟩

/-- Where the table stands it can be done for a vocabulary that has a key. -/
theorem classify_recorded {r : StepResult} {bytes : Bytes} {t : Place} {rows : List ProcessedRow}
    {k : Text} (hr : stepped.result = .ok r)
    (hdry : dryRun = false) (hread : stepped.state.files.readBytes path = .ok bytes)
    (hstands : Processed.Stands stepped.state.files b.table t rows)
    (hk : Processed.keyOf b.vocabulary = .ok (some k)) :
    ((b.classify digest dryRun path).run o).result = .ok (.classified r) ∧
      ((b.classify digest dryRun path).run o).state.files =
        ((Processed.record b.table b.vocabulary (keyOf stepped.state.files path)
          (fingerprint bytes digest) r.labels o.clock.instant).run stepped.state.files).state := by
  obtain ⟨log, hrecord⟩ := hstands.record_run hk (keyOf stepped.state.files path)
    (fingerprint bytes digest) r.labels o.clock.instant
  obtain ⟨hresult, hfiles⟩ := classify_records digest hstepped hr hdry hread
  refine ⟨?_, hfiles⟩
  rw [hresult, hrecord]
  rfl

end Classify

/-! ### The whole turn -/

/-- The office once the table was asked, if it is. -/
def entered (b : Batch) (digest : Text) (skipUnchanged : Bool) (path : Path) (o : Office) : Office :=
  if skipUnchanged then ((b.isUnchanged digest path).run o).state else o

/-- What the step does once the table was asked. -/
def stepped (b : Batch) (digest : Text) (dryRun skipUnchanged : Bool) (path : Path) (o : Office) :
    Outcome Workplace StepResult :=
  (b.step.run path dryRun).run (b.entered digest skipUnchanged path o).workplace

theorem entered_state (b : Batch) (digest : Text) (skipUnchanged : Bool) (path : Path) (o : Office) :
    ∃ fs, b.entered digest skipUnchanged path o = withFiles o fs ∧ fs.rows ⊆ o.files.rows := by
  cases skipUnchanged with
  | false => exact ⟨o.files, rfl, List.Subset.refl _⟩
  | true => exact isUnchanged_state b digest path o

/-- A turn ends where the table was asked, or where the document was classified after that, which is
then not passed over. -/
theorem process_state (b : Batch) (digest : Text) (dryRun skipUnchanged : Bool) (path : Path)
    (o : Office) :
    let asked := b.entered digest skipUnchanged path o
    let ended := (b.process digest dryRun skipUnchanged path).run o
    ended.state = asked ∨
      (ended.result ≠ .ok .skipped ∧
        ended.state = ((b.classify digest dryRun path).run asked).state) := by
  unfold process entered
  cases skipUnchanged with
  | false => exact Or.inr ⟨classify_ne_skipped b digest dryRun path o, rfl⟩
  | true =>
    simp only [if_true]
    rcases h : ((b.isUnchanged digest path).run o).result with f | unchanged
    · rw [Action.run_bind_error h]
      exact Or.inl rfl
    · rw [Action.run_bind_ok h]
      cases unchanged with
      | true => exact Or.inl rfl
      | false => exact Or.inr ⟨classify_ne_skipped b digest dryRun path _, rfl⟩

/-- A document is passed over only when the table was asked and has answered that it is unchanged. -/
theorem row_of_skipped {dryRun skipUnchanged : Bool}
    (h : ((b.process digest dryRun skipUnchanged path).run o).result = .ok .skipped) :
    ∃ bytes, o.files.readBytes path = .ok bytes ∧ ∃ row ∈ o.files.rows,
      Processed.keyOf b.vocabulary = .ok (some row.vocabulary) ∧ row.document = keyOf o.files path ∧
        row.fingerprint = fingerprint bytes digest := by
  unfold process at h
  cases skipUnchanged with
  | false => exact absurd h (classify_ne_skipped b digest dryRun path o)
  | true =>
    rw [if_pos rfl] at h
    obtain ⟨unchanged, hunchanged, h⟩ := Action.result_bind_eq_ok.mp h
    cases unchanged with
    | true => exact row_of_isUnchanged hunchanged
    | false => exact absurd h (classify_ne_skipped b digest dryRun path _)

/-- All that a turn can do to the workplace. The table is asked and nothing more is done; or the step
runs, and only a log record is made after it; or the step has answered, the run is not dry, and what the
step has left is recorded. -/
theorem process_workplace (b : Batch) (digest : Text) (dryRun skipUnchanged : Bool) (path : Path)
    (o : Office) :
    let ended := (b.process digest dryRun skipUnchanged path).run o
    let step := b.stepped digest dryRun skipUnchanged path o
    (∃ fs, ended.state.workplace = { o.workplace with files := fs } ∧ fs.rows ⊆ o.files.rows) ∨
      (∃ log, ended.state.workplace = LogKeeper.keep log step.state) ∨
      (dryRun = false ∧ ended.result ≠ .ok .skipped ∧ ∃ r bytes now, step.result = .ok r ∧
        step.state.files.readBytes path = .ok bytes ∧ ended.state.workplace = { step.state with
          files := ((Processed.record b.table b.vocabulary (keyOf step.state.files path)
            (fingerprint bytes digest) r.labels now).run step.state.files).state }) := by
  intro ended step
  have hnothing : step.state = LogKeeper.keep [] step.state := (Workplace.keep_nil _).symm
  rcases b.process_state digest dryRun skipUnchanged path o with hs | ⟨hskipped, hs⟩
  · obtain ⟨fs, hentered, hrows⟩ := b.entered_state digest skipUnchanged path o
    exact Or.inl ⟨fs, congrArg Office.workplace (hs.trans hentered), hrows⟩
  have hended : ended.state.workplace = _ := congrArg Office.workplace hs
  rcases b.classify_workplace digest dryRun path (b.entered digest skipUnchanged path o) with
    ⟨log, hc⟩ | ⟨hdry, r, hr, hc⟩
  · exact Or.inr (Or.inl ⟨log, hended.trans hc⟩)
  rw [hc] at hended
  rcases b.recordDocument_workplace digest path r.labels
      ⟨step.state, (b.entered digest skipUnchanged path o).clock⟩ with
    hrec | ⟨bytes, now, hread, hrec⟩
  · exact Or.inr (Or.inl ⟨[], (hended.trans hrec).trans hnothing⟩)
  · exact Or.inr (Or.inr ⟨hdry, hskipped, r, bytes, now, hr, hread, hended.trans hrec⟩)

/-- A document is passed over, when it is asked for, if the table has its row with its fingerprint. -/
theorem process_skips {bytes : Bytes} {p : Place} {rows : List ProcessedRow} {row : ProcessedRow}
    {k : Text} (dryRun : Bool) (hread : o.files.readBytes path = .ok bytes)
    (hstands : Processed.Stands o.files b.table p rows)
    (hk : Processed.keyOf b.vocabulary = .ok (some k))
    (hrow : Processed.find? rows k (keyOf o.files path) = some row)
    (hmark : row.fingerprint = fingerprint bytes digest) :
    ((b.process digest dryRun true path).run o).result = .ok .skipped := by
  have hunchanged : ((b.isUnchanged digest path).run o).result = .ok true := by
    rw [isUnchanged_run_ok b digest hread]
    dsimp only
    rw [hstands.isCurrent_run hk, hrow, Option.map_some, hmark]
    simp
  unfold process
  rw [if_pos rfl, Action.run_bind_ok hunchanged]
  rfl

/-- A document that was classified has its row in the table, unless the run was dry. -/
theorem process_records {bytes : Bytes} {p : Place} {rows : List ProcessedRow} {k : Text}
    {r : StepResult}
    (hr : (b.stepped digest false false path o).result = .ok r)
    (hread : (b.stepped digest false false path o).state.files.readBytes path = .ok bytes)
    (hstands : Processed.Stands (b.stepped digest false false path o).state.files b.table p rows)
    (hk : Processed.keyOf b.vocabulary = .ok (some k)) :
    Processed.rowOf k (keyOf (b.stepped digest false false path o).state.files path)
      (fingerprint bytes digest) r.labels o.clock.instant ∈
        ((b.process digest false false path).run o).state.files.rows := by
  obtain ⟨log, hrecord⟩ := hstands.record_run hk
    (keyOf (b.stepped digest false false path o).state.files path) (fingerprint bytes digest) r.labels
    o.clock.instant
  -- The table is not asked, so that the step runs in the office as it is.
  have hstepped : (b.step.run path false).run o.workplace = b.stepped digest false false path o := rfl
  obtain ⟨-, hrecorded⟩ := classify_recorded digest hstepped hr rfl hread hstands hk
  rw [hrecord] at hrecorded
  show _ ∈ ((b.classify digest false path).run o).state.files.rows
  rw [hrecorded]
  exact Files.mem_rows_setNode _ p (List.mem_append_right _ (List.mem_singleton_self _))

section Keeps

variable {P : List Desk → Prop} (hstep : b.step.Keeps o.workplace.desks P)
include hstep

/-- A row that is in a table after a turn was there before, or it was made in this turn: the run is not
dry, the document is not passed over, the step has answered, and the row is the document's, with the
fingerprint of what the step has left and the labels it has answered. -/
theorem process_rows {dryRun skipUnchanged : Bool} {row : ProcessedRow}
    (h : row ∈ ((b.process digest dryRun skipUnchanged path).run o).state.files.rows) :
    row ∈ o.files.rows ∨ (dryRun = false ∧
      ((b.process digest dryRun skipUnchanged path).run o).result ≠ .ok .skipped ∧ ∃ r bytes,
      (b.stepped digest dryRun skipUnchanged path o).result = .ok r ∧
        (b.stepped digest dryRun skipUnchanged path o).state.files.readBytes path = .ok bytes ∧
        ∃ k now, Processed.keyOf b.vocabulary = .ok (some k) ∧
          row = Processed.rowOf k (keyOf (b.stepped digest dryRun skipUnchanged path o).state.files path)
            (fingerprint bytes digest) r.labels now) := by
  obtain ⟨fs, hentered, hasked⟩ := b.entered_state digest skipUnchanged path o
  have hstepped : (b.stepped digest dryRun skipUnchanged path o).state.files.rows ⊆ o.files.rows := by
    have hstep' : b.step.Keeps (withFiles o fs).workplace.desks P := hstep
    unfold stepped
    rw [hentered]
    exact List.Subset.trans (AssignmentStep.run_rows hstep' path dryRun) hasked
  unfold Office.files at h
  rcases b.process_workplace digest dryRun skipUnchanged path o with
    ⟨fs', hended, hrows⟩ | ⟨log, hended⟩ |
      ⟨hdry, hskipped, r, bytes, now, hr, hread, hended⟩
  · rw [hended] at h
    exact Or.inl (hrows h)
  · rw [hended] at h
    exact Or.inl (hstepped h)
  · -- The one row that recording may have brought in is the document's.
    rw [hended] at h
    rcases Processed.record_rows h with hold | ⟨k, hk, rfl⟩
    · exact Or.inl (hstepped hold)
    · exact Or.inr ⟨hdry, hskipped, r, bytes, hr, hread, k, now, hk, rfl⟩

/-- A turn leaves desks that the strategies of the step may leave. -/
theorem process_desks (digest : Text) (dryRun skipUnchanged : Bool) (path : Path)
    (hP : P o.workplace.desks) :
    P ((b.process digest dryRun skipUnchanged path).run o).state.workplace.desks := by
  obtain ⟨fs, hentered, -⟩ := b.entered_state digest skipUnchanged path o
  have hstepped : P (b.stepped digest dryRun skipUnchanged path o).state.desks := by
    have hP' : P (withFiles o fs).workplace.desks := hP
    have hstep' : b.step.Keeps (withFiles o fs).workplace.desks P := hstep
    unfold stepped
    rw [hentered]
    exact AssignmentStep.run_desks hP' hstep' path dryRun
  rcases b.process_workplace digest dryRun skipUnchanged path o with
    ⟨fs', hended, -⟩ | ⟨log, hended⟩ | ⟨-, -, r, bytes, now, -, -, hended⟩
  · rw [hended]
    exact hP
  · rw [hended]
    exact hstepped
  · rw [hended]
    exact hstepped

end Keeps

end Batch

end TitleClasses
