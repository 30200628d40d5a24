import TitleClasses.Proofs.Assignment.Converged
import TitleClasses.Proofs.Assignment.Verdict

/-!
# What a dry run foretells

No turn changes the verdict on another document, so that a dry run and the run that writes, from one office,
go by the same verdicts (`each_ends`, `turns_told`). Where a verdict has an outcome in the run that writes, the
dry run has foretold it (`Verdict.foretells`), and so the sum of the run (`BatchResult.Foretells`). A dry run
itself changes nothing but the log (`run_dry_logged`). `Batch.foretold` puts this together.
-/

namespace TitleClasses

namespace Batch

variable {b : Batch} {digest : Text} {dryRun skipUnchanged : Bool}

/-! ### One turn after another -/

section Run

variable {o : Office} {refusal : Option Text → Option CompileError} {file : Path} {c : Catalogue}
  {v : Vocabulary} {own : Set Place} {t : Place} {rows : List ProcessedRow}
  {termsField labelField : Json} {workers : Int} {titleField classField : Json} {order : List Path}

/-- One turn after another ends as the verdicts at first say. -/
theorem each_ends (verdicts : Path → Verdict) (hready : b.Ready refusal file c t o)
    (hseparate : Separate o.files own order) (ht : t ∈ own) (hv : c.find b.vocabulary = .ok v)
    (hstep : b.step = .byVocabulary termsField labelField workers b.vocabulary titleField classField)
    (hverdicts : ∀ p ∈ order, verdicts p = b.verdict
      ((Policy.new termsField labelField workers).labelsFor v refusal) digest skipUnchanged o.files p) :
    ((Action.each (b.process digest dryRun skipUnchanged) order).run o).result =
      order.mapM fun p => (verdicts p).outcome dryRun := by
  -- By induction on the documents that are still to come, on which no turn changes the verdicts.
  induction order generalizing o with
  | nil => rfl
  | cons p order ih =>
    have hp : p ∈ p :: order := List.mem_cons_self
    have hends := process_ends hready (hseparate.foreign p hp) ht hv hstep digest dryRun skipUnchanged
    rw [← hverdicts p hp] at hends
    rw [List.mapM_cons]
    rcases hout : (verdicts p).outcome dryRun with f | outcome
    · rw [hout] at hends
      rw [Action.each_cons, Action.run_bind_error hends]
      rfl
    rw [hout] at hends
    obtain ⟨fate, rfl, hturned⟩ := hends
    obtain ⟨rows, hstands⟩ := hready.stands
    have hothers := ih (hturned.ready hready hv hstep)
      ((hseparate.of_subperm (List.sublist_cons_self p order).subperm).grown hturned.grown)
      fun p' hp' => by
        have hne := hseparate.keyOf_ne hp'
        have hin := List.mem_cons_of_mem p hp'
        rw [hverdicts p' hin]
        exact (verdict_congr (hturned.sight_of_ne hseparate hready.home hp hin hne ht hstands)).symm
    rw [Action.run_each_cons hturned.result, hothers]
    cases order.mapM fun p => (verdicts p).outcome dryRun <;> rfl

/-! ### A dry run -/

/-- In a dry run only log records are made. -/
theorem process_dry_logged (hlogged : ∀ d (w : Workplace), Files.Logged w.files
      (b.step.classified d w).state.files) (hstands : Processed.Stands o.files b.table t rows)
    (digest : Text) (skipUnchanged : Bool) (path : Path) :
    Files.Logged o.files ((b.process digest true skipUnchanged path).run o).state.files := by
  have hstep : Files.Logged o.files ((b.step.run path true).run o.workplace).state.files := by
    rcases b.step.run_cases path true o.workplace with ⟨f, -, -, hs⟩ | ⟨d, log, found, -, rfl,
      ⟨f, -, -, hs⟩ | ⟨labels, -, ⟨-, -, more, hs⟩ | ⟨hdry, -⟩ | ⟨hdry, -⟩⟩⟩
    · rw [hs]
      exact Files.Logged.refl o.files
    · rw [hs]
      exact Files.Logged.trans ⟨log, rfl⟩ (hlogged d (LogKeeper.keep log o.workplace))
    · rw [hs]
      exact (Files.Logged.trans ⟨log, rfl⟩ (hlogged d (LogKeeper.keep log o.workplace))).keep more
    · cases hdry
    · cases hdry
  rw [process_asked hstands]
  split
  · exact Files.Logged.refl o.files
  · exact Files.Logged.refl o.files
  · rcases b.classify_workplace digest true path o with ⟨log, hs⟩ | ⟨hdry, -⟩
    · have hfiles : ((b.classify digest true path).run o).state.files = _ := congrArg Workplace.files hs
      rw [hfiles]
      exact hstep.keep log
    · cases hdry

/-- So it is in one turn after another, and in the whole run. -/
theorem run_dry_logged (hlogged : ∀ d (w : Workplace), Files.Logged w.files
      (b.step.classified d w).state.files) (hstands : Processed.Stands o.files b.table t rows)
    (hasked : Files.Logged o.files (b.digest.run o).state.files) (documents : List Path)
    (skipUnchanged : Bool) :
    Files.Logged o.files ((b.run documents true skipUnchanged).run o).state.files := by
  rcases hdigest : (b.digest.run o).result with f | digest
  · unfold run
    rw [Action.run_bind_error hdigest]
    exact hasked
  have hturns := Action.each_state (f := b.process digest true skipUnchanged)
    (I := fun o' => Files.Logged o.files o'.files) documents (fun p _ o' ho' => by
      obtain ⟨log, hfiles⟩ := id ho'
      exact ho'.trans (process_dry_logged hlogged (hfiles ▸ hstands.keep log) digest skipUnchanged p))
    hasked
  rcases b.run_cases documents true skipUnchanged hdigest with ⟨f, -, -, hs⟩ |
    ⟨outcomes, -, ⟨-, -, hs⟩ | ⟨hcounted, -⟩⟩
  · rw [hs]
    exact hturns
  · rw [hs]
    exact hturns
  · cases hcounted

end Run

end Batch

/-! ### Sums -/

/-- Whether the outcome of a turn that writes was foretold by that of a dry one. A document that was
classified is told with the same subject, labels and number of entries removed, unless it was not written,
which fails it. -/
inductive DocumentOutcome.Foretells : DocumentOutcome → DocumentOutcome → Prop
  | skipped : Foretells .skipped .skipped
  | failed : Foretells .failed .failed
  | classified (r : StepResult) :
    Foretells (.classified { r with written := false }) (.classified { r with written := true })
  | unwritten (r : StepResult) : Foretells (.classified r) .failed

/-- A turn that writes and has an outcome was foretold by the dry one. -/
theorem Verdict.foretells {verdict : Verdict} {outcome : DocumentOutcome}
    (h : verdict.outcome false = .ok outcome) :
    ∃ foretold, verdict.outcome true = .ok foretold ∧ foretold.Foretells outcome := by
  cases verdict with
  | skipped =>
    obtain rfl := Except.ok.inj h
    exact ⟨_, rfl, .skipped⟩
  | failed =>
    obtain rfl := Except.ok.inj h
    exact ⟨_, rfl, .failed⟩
  | aborted f => cases h
  | classified r =>
    obtain rfl := Except.ok.inj h
    exact ⟨_, rfl, .classified r⟩
  | unwritten r =>
    obtain rfl := Except.ok.inj h
    exact ⟨_, rfl, .unwritten r⟩
  | unrecorded r f => cases h

/-- Where all turns that write have outcomes, they were foretold by the dry ones. -/
theorem Verdict.foretells_all {verdicts : Path → Verdict} {order : List Path}
    {outcomes : List DocumentOutcome}
    (h : (order.mapM fun p => (verdicts p).outcome false) = .ok outcomes) :
    ∃ foretold, (order.mapM fun p => (verdicts p).outcome true) = .ok foretold ∧
      List.Forall₂ DocumentOutcome.Foretells foretold outcomes := by
  simp only [mapM_eq_ok_iff] at h ⊢
  induction h with
  | nil => exact ⟨[], .nil, .nil⟩
  | cons hp hrest ih =>
    obtain ⟨first, hfirst, hforetells⟩ := Verdict.foretells hp
    obtain ⟨foretold, hforetold, hall⟩ := ih
    exact ⟨first :: foretold, .cons hfirst hforetold, .cons hforetells hall⟩

/-- Whether the sum of a run was foretold by that of a dry one: as many documents were passed over, no fewer
failed, and the results were foretold, in their order, but for whether they were written. -/
structure BatchResult.Foretells (foretold sum : BatchResult) : Prop where
  skipped : foretold.skipped = sum.skipped
  failures : foretold.failures ≤ sum.failures
  results : (sum.results.map fun r => { r with written := false }).Sublist foretold.results

theorem BatchResult.foretells_ofOutcomes {foretold outcomes : List DocumentOutcome}
    (h : List.Forall₂ DocumentOutcome.Foretells foretold outcomes) :
    (ofOutcomes foretold).Foretells (ofOutcomes outcomes) := by
  induction h with
  | nil => exact ⟨rfl, Nat.le_refl _, List.Sublist.refl _⟩
  | cons hfirst _ ih =>
    obtain ⟨hskipped, hfailures, hresults⟩ := ih
    cases hfirst with
    | skipped =>
      rw [ofOutcomes_skipped, ofOutcomes_skipped]
      exact ⟨congrArg (· + 1) hskipped, hfailures, hresults⟩
    | failed =>
      rw [ofOutcomes_failed, ofOutcomes_failed]
      exact ⟨hskipped, Nat.succ_le_succ hfailures, hresults⟩
    | classified r =>
      rw [ofOutcomes_classified, ofOutcomes_classified]
      exact ⟨hskipped, hfailures, hresults.cons_cons _⟩
    | unwritten r =>
      rw [ofOutcomes_classified, ofOutcomes_failed]
      exact ⟨hskipped, Nat.le_succ_of_le hfailures, hresults.cons _⟩

/-! ### The batch -/

namespace Batch

open History (library byTerms poem poemPath)

variable {b : Batch} {documents : List Path} {skipUnchanged : Bool} {o : Office}

/-- A dry run gives the sum of its turns. -/
theorem run_dry_result : ((b.run documents true skipUnchanged).run o).result =
    ((b.turns documents true skipUnchanged).run o).result.map BatchResult.ofOutcomes := by
  rcases hdigest : (b.digest.run o).result with f | digest
  · unfold run turns
    rw [Action.run_bind_error hdigest, Action.run_bind_error hdigest]
    rfl
  unfold turns
  rw [Action.run_bind_ok hdigest]
  rcases b.run_cases documents true skipUnchanged hdigest with ⟨f, hf, hr, -⟩ |
    ⟨outcomes, houtcomes, ⟨-, hr, -⟩ | ⟨hcounted, -⟩⟩
  · rw [hf, hr]
    rfl
  · rw [houtcomes, hr]
    rfl
  · cases hcounted

/-- So does any run that answers. -/
theorem turns_of_answer {dryRun : Bool} {sum : BatchResult}
    (h : ((b.run documents dryRun skipUnchanged).run o).result = .ok sum) :
    ∃ outcomes, ((b.turns documents dryRun skipUnchanged).run o).result = .ok outcomes ∧
      sum = .ofOutcomes outcomes := by
  rcases hdigest : (b.digest.run o).result with f | digest
  · unfold run at h
    rw [Action.run_bind_error hdigest] at h
    cases h
  obtain ⟨outcomes, houtcomes, rfl, -⟩ := turns_of_run hdigest h
  refine ⟨outcomes, ?_, rfl⟩
  unfold turns
  rw [Action.run_bind_ok hdigest]
  exact houtcomes

variable {refusal : Option Text → Option CompileError} {calls : List Engine.Call} {own : Set Place}
  {t : Place} {rows : List ProcessedRow}

/-- An office that has answered for the digest is ready, with what it has loaded, and everything is seen
there as before. -/
theorem ready_of_digest {f : VocabularyFile} {digest : Text} (hhome : o.files.ProperHome)
    (hdesks : o.workplace.desks = [⟨f, Engine.after refusal calls⟩])
    (hstands : Processed.Stands o.files b.table t rows) (hquiet : o.files.NoLogAt t)
    (h : (b.digest.run o).result = .ok digest) :
    ∃ file c v, c.find b.vocabulary = .ok v ∧ digest = v.digest ∧
      b.Ready refusal file c t (b.digest.run o).state ∧
      Files.Logged o.files (b.digest.run o).state.files := by
  have hrun := digest_run b hdesks
  have hlogged : Files.Logged o.files (b.digest.run o).state.files := by
    rw [hrun]
    exact ⟨_, rfl⟩
  rw [hrun] at h
  obtain ⟨c, v, hloaded, hv, rfl⟩ := (VocabularyFile.digest_state f o.files b.vocabulary).2 digest h
  refine ⟨((VocabularyFile.digest o.files b.vocabulary).run f).state.path, c, v, hv, rfl,
    ready_of_logged hhome hstands hquiet ⟨calls, ?_⟩ hlogged, hlogged⟩
  rw [hrun, ← hloaded]

/-- The turns fail with what asking for the digest fails with, or a vocabulary is found and they end as the
verdicts at first say. -/
theorem turns_told {f : VocabularyFile} {termsField labelField : Json} {workers : Int}
    {titleField classField : Json} (hhome : o.files.ProperHome)
    (hdesks : o.workplace.desks = [⟨f, Engine.after refusal calls⟩])
    (hstands : Processed.Stands o.files b.table t rows) (hquiet : o.files.NoLogAt t) (ht : t ∈ own)
    (hseparate : Separate o.files own documents)
    (hstep : b.step = .byVocabulary termsField labelField workers b.vocabulary titleField classField)
    (skipUnchanged : Bool) :
    (∃ e, (b.digest.run o).result = .error e ∧
      ∀ dryRun, ((b.turns documents dryRun skipUnchanged).run o).result = .error e) ∨
    ∃ file c v, Loaded refusal file c (b.digest.run o).state.workplace.desks ∧
      c.find b.vocabulary = .ok v ∧ ∀ dryRun, ((b.turns documents dryRun skipUnchanged).run o).result =
        documents.mapM fun p => (b.verdict ((Policy.new termsField labelField workers).labelsFor v refusal)
          v.digest skipUnchanged o.files p).outcome dryRun := by
  unfold turns
  rcases hdigest : (b.digest.run o).result with e | digest
  · refine Or.inl ⟨e, rfl, fun dryRun => ?_⟩
    rw [Action.run_bind_error hdigest]
  obtain ⟨file, c, v, hv, rfl, hready, hlogged⟩ := ready_of_digest hhome hdesks hstands hquiet hdigest
  refine Or.inr ⟨file, c, v, hready.loaded, hv, fun dryRun => ?_⟩
  obtain ⟨log, hfiles⟩ := id hlogged
  have hkept : Files.Grown ∅ o.files (b.digest.run o).state.files := hfiles ▸ .keep ∅ log o.files
  rw [Action.run_bind_ok hdigest]
  refine each_ends _ hready (hseparate.grown hkept) ht hv hstep fun p hp => ?_
  exact (verdict_congr (sight_of_logged hstands (hseparate.foreign p hp) hlogged)).symm

end Batch

end TitleClasses
