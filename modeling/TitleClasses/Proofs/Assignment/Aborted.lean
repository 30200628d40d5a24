import TitleClasses.Proofs.Assignment.Batch
import TitleClasses.Proofs.Assignment.Unloaded

/-!
# What ends a batch early

A batch that classifies by a loaded vocabulary goes on after a step has failed. Only three things end it
early (`Batch.Ended`): a document that is nested too deeply to be read, which is no fault that a step
contains, and faults of the table and of the statistics. As far as it comes, it classifies by the records
of the vocabulary (`Batch.run_loaded`).
-/

namespace TitleClasses

/-- A document is nested too deeply to be read if its text is. -/
theorem Document.load_of_tooDeep {fs : Files} {path : Path} {e : Json.ReadError}
    (h : fs.readJson path = .error (.unreadable e)) : Document.load fs path = .error (.unreadable e) := by
  obtain ⟨bytes, hread⟩ := Files.readBytes_of_unreadable h
  unfold load
  rw [Files.exists?_of_readBytes hread, h]
  rfl

namespace AssignmentStep

variable {step : AssignmentStep} {path : Path} {w : Workplace} {dryRun : Bool} {d : Desk}
  {v : Vocabulary} {refusal : Option Text → Option CompileError} {termsField labelField : Json}
  {workers : Int} {vocabulary titleField classField : Json}

/-- A step whose strategies fail only in ways that a step contains fails as a step, or its document is
nested too deeply. -/
theorem deep_of_run_error (hstep : ∀ d log, Document.load w.files path = .ok d →
      FailsOnly [.os, .value, .key] (step.classified d (LogKeeper.keep log w)).result)
    {f : Fault} (h : ((step.run path dryRun).run w).result = .error f)
    (hf : ∀ p stage cause, f ≠ .step p stage cause) : ∃ holder, f = .unreadable (.tooDeep holder) := by
  by_cases hdeep : w.files.NotTooDeep path
  · obtain ⟨stage, cause, rfl⟩ := run_fails_as_step hdeep hstep h
    exact absurd rfl (hf _ _ _)
  · simp only [Files.NotTooDeep, ne_eq, not_forall, not_not] at hdeep
    obtain ⟨holder, hread⟩ := hdeep
    obtain ⟨hr, -⟩ := step.run_of_unreadable dryRun (Document.load_of_tooDeep hread)
    exact ⟨holder, Except.error.inj (h.symm.trans hr)⟩

/-- What a step answers where the vocabulary is loaded is labelled by the records of it. -/
theorem run_labelledBy {c : Catalogue} {r : StepResult} (hdesks : w.desks = [d])
    (hsound : d.engine.Sound) (hrefusal : d.engine.refusal = refusal)
    (hc : d.vocabulary.loaded = some c) (hv : c.find vocabulary = .ok v)
    (h : (((byVocabulary termsField labelField workers vocabulary titleField classField).run path
      dryRun).run w).result = .ok r) : r.LabelledBy refusal v termsField labelField := by
  obtain ⟨document, log, labels, -, hfound, rfl⟩ := of_run_ok h
  have hdesks' : (LogKeeper.keep log w : Workplace).desks = [d] := hdesks
  refine labelledBy_answerOf hdesks' hsound hrefusal (fun _ => ?_) hfound _
  rw [VocabularyFile.records_run hc _ hv]

end AssignmentStep

namespace Batch

/-- Whether a fault ends a batch: that of a document which is nested too deeply, or one of the table or
of the statistics. -/
inductive Ended (b : Batch) (f : Fault) : Prop
  | deep {holder : Json.Holder} (h : f = .unreadable (.tooDeep holder))
  | asked {fs : Files} {document mark : Text}
      (h : ((Processed.isCurrent b.table b.vocabulary document mark).run fs).result = .error f)
  | recorded {fs : Files} {document mark : Text} {labels : List Text} {now : Instant}
      (h : ((Processed.record b.table b.vocabulary document mark labels now).run fs).result = .error f)
  | counted {fs : Files} {counts : RunCounts}
      (h : ((Statistics.record b.statistics b.vocabulary counts).run fs).result = .error f)

variable {b : Batch} {digest : Text} {dryRun skipUnchanged : Bool} {path : Path} {o : Office} {f : Fault}

/-! ### One document -/

theorem ended_of_isUnchanged (h : ((b.isUnchanged digest path).run o).result = .error f) :
    b.Ended f := by
  rcases hread : o.files.readBytes path with g | bytes
  · rw [isUnchanged_run_error b digest hread] at h
    cases h
  · rw [isUnchanged_run_ok b digest hread] at h
    exact .asked h

theorem ended_of_recordDocument {labels : List Text}
    (h : ((b.recordDocument digest path labels).run o).result = .error f) : b.Ended f := by
  unfold recordDocument fingerprint? at h
  rw [Action.run_state_bind] at h
  rcases hread : o.files.readBytes path with g | bytes
  · simp only [hread] at h
    cases h
  · simp only [hread] at h
    exact .recorded h

/-- What a classified document gives is what the step has answered. -/
theorem result_of_classify {r : StepResult}
    (h : ((b.classify digest dryRun path).run o).result = .ok (.classified r)) :
    ((b.step.run path dryRun).run o.workplace).result = .ok r := by
  unfold classify at h
  obtain ⟨x, hx, h⟩ := Action.result_bind_eq_ok.mp h
  obtain rfl : ((b.step.run path dryRun).run o.workplace).result = x := Except.ok.inj hx
  rcases hr : ((b.step.run path dryRun).run o.workplace).result with f | r'
  · rw [hr] at h
    cases f with
    | step p stage cause => cases h
    | _ => cases h
  · rw [hr] at h
    cases dryRun with
    | true =>
      obtain rfl : r' = r := by simpa using Except.ok.inj h
      rfl
    | false =>
      obtain ⟨u, -, h⟩ := Action.result_bind_eq_ok.mp h
      obtain rfl : r' = r := by simpa using Except.ok.inj h
      rfl

/-- Classifying a document fails only as the step does where it fails as no step, or as recording does. -/
theorem fault_of_classify (h : ((b.classify digest dryRun path).run o).result = .error f) :
    (((b.step.run path dryRun).run o.workplace).result = .error f ∧
      ∀ p stage cause, f ≠ .step p stage cause) ∨ b.Ended f := by
  unfold classify at h
  rw [attempt_atWork_bind rfl] at h
  rcases hr : ((b.step.run path dryRun).run o.workplace).result with g | r
  · rw [hr] at h
    cases g with
    | step p stage cause => cases h
    | _ =>
      obtain rfl := Except.error.inj h
      exact Or.inl ⟨rfl, fun p stage cause heq => nomatch heq⟩
  · rw [hr] at h
    cases dryRun with
    | true => cases h
    | false =>
      dsimp only at h
      rw [if_neg Bool.false_ne_true, Action.run_map] at h
      rcases hrecord : ((b.recordDocument digest path r.labels).run
          { o with workplace := ((b.step.run path false).run o.workplace).state }).result with g | u
      · rw [hrecord] at h
        obtain rfl := Except.error.inj h
        exact Or.inr (ended_of_recordDocument hrecord)
      · rw [hrecord] at h
        cases h

/-- A turn answers as classifying does in the office that is entered, or passes the document over; it
fails as classifying does there, or as the table. -/
theorem process_classifies (b : Batch) (digest : Text) (dryRun skipUnchanged : Bool) (path : Path)
    (o : Office) :
    (∀ r, ((b.process digest dryRun skipUnchanged path).run o).result = .ok (.classified r) →
      ((b.classify digest dryRun path).run (b.entered digest skipUnchanged path o)).result =
        .ok (.classified r)) ∧
    ∀ f, ((b.process digest dryRun skipUnchanged path).run o).result = .error f → b.Ended f ∨
      ((b.classify digest dryRun path).run (b.entered digest skipUnchanged path o)).result =
        .error f := by
  unfold process entered
  cases skipUnchanged with
  | false => exact ⟨fun r h => h, fun f h => Or.inr h⟩
  | true =>
    simp only [if_true]
    rcases h : ((b.isUnchanged digest path).run o).result with g | unchanged
    · rw [Action.run_bind_error h]
      refine ⟨(fun r hr => nomatch hr), fun f hf => ?_⟩
      obtain rfl := Except.error.inj hf
      exact Or.inl (ended_of_isUnchanged h)
    · rw [Action.run_bind_ok h]
      cases unchanged with
      | true => exact ⟨(fun r hr => nomatch hr), fun f hf => nomatch hf⟩
      | false => exact ⟨fun r hr => hr, fun f hf => Or.inr hf⟩

/-- A document that was classified in a turn is one for which the step has answered there. -/
theorem answered_of_process {r : StepResult}
    (h : ((b.process digest dryRun skipUnchanged path).run o).result = .ok (.classified r)) :
    (b.stepped digest dryRun skipUnchanged path o).result = .ok r :=
  result_of_classify ((b.process_classifies digest dryRun skipUnchanged path o).1 r h)

/-! ### The batch -/

/-- Whether the only desk has a catalogue loaded, and its engine is a new one after some calls. -/
def Loaded (refusal : Option Text → Option CompileError) (file : Path) (c : Catalogue)
    (desks : List Desk) : Prop :=
  ∃ calls, desks = [⟨⟨file, some c⟩, Engine.after refusal calls⟩]

variable {refusal : Option Text → Option CompileError} {file : Path} {c : Catalogue} {v : Vocabulary}
  {termsField labelField : Json} {workers : Int} {titleField classField : Json}

/-- The digest is asked of what is loaded, which stays; only log records are made. -/
theorem digest_loaded (hv : c.find b.vocabulary = .ok v)
    (hdesks : Loaded refusal file c o.workplace.desks) :
    (b.digest.run o).result = .ok v.digest ∧
      Loaded refusal file c (b.digest.run o).state.workplace.desks ∧
      Files.Logged o.files (b.digest.run o).state.files := by
  obtain ⟨calls, hdesk⟩ := hdesks
  have hdigest := digest_run b hdesk
  rw [VocabularyFile.digest_run rfl _ hv] at hdigest
  rw [hdigest]
  exact ⟨rfl, ⟨calls, rfl⟩, _, rfl⟩

/-- Log records leave the desks as they are. -/
theorem Loaded.keep {w : Workplace} (h : Loaded refusal file c w.desks) (log : Log) :
    Loaded refusal file c (LogKeeper.keep log w : Workplace).desks := h

/-- A step that classifies by a vocabulary changes no files but the log, whatever it finds. -/
theorem step_logged
    (hstep : b.step = .byVocabulary termsField labelField workers b.vocabulary titleField classField)
    (document : Document) (w : Workplace) :
    Files.Logged w.files (b.step.classified document w).state.files := by
  rw [hstep]
  exact AssignmentStep.classified_logged _ b.vocabulary titleField classField document w

/-- A step that classifies by the vocabulary keeps it loaded. -/
theorem keeps_loaded (hv : c.find b.vocabulary = .ok v)
    (hstep : b.step = .byVocabulary termsField labelField workers b.vocabulary titleField classField)
    {desks : List Desk} (hdesks : Loaded refusal file c desks) :
    b.step.Keeps desks (Loaded refusal file c) := by
  obtain ⟨calls, rfl⟩ := hdesks
  refine ⟨fun document w _ => step_logged hstep document w, fun document w hw => ?_⟩
  rw [hstep]
  obtain ⟨-, -, more, hdesks⟩ := AssignmentStep.classified_run hw rfl hv
    (Policy.new termsField labelField workers) classField document
  exact ⟨calls ++ more, hdesks.trans (by rw [Engine.after, Engine.after, List.foldl_append])⟩

section Loaded

variable (hv : c.find b.vocabulary = .ok v)
  (hstep : b.step = .byVocabulary termsField labelField workers b.vocabulary titleField classField)
  (hterms : termsField.IsKey) (hlabel : labelField.IsKey)
  (hdesks : Loaded refusal file c o.workplace.desks)
include hv hstep hdesks

/-- Whatever stands at the path, a turn leaves the vocabulary loaded, and labels by its records. -/
theorem process_labelledBy {r : StepResult}
    (h : ((b.process digest dryRun skipUnchanged path).run o).result = .ok (.classified r)) :
    r.LabelledBy refusal v termsField labelField := by
  obtain ⟨fs, hentered, -⟩ := b.entered_state digest skipUnchanged path o
  obtain ⟨calls, hdesk⟩ := hdesks
  obtain ⟨hsound, hrefusal⟩ := Engine.after_sound refusal calls
  have hdesk' : (withFiles o fs).workplace.desks = [⟨⟨file, some c⟩, Engine.after refusal calls⟩] :=
    hdesk
  obtain ⟨hanswer, -⟩ := b.process_classifies digest dryRun skipUnchanged path o
  have hr := result_of_classify (hanswer r h)
  rw [hentered, hstep] at hr
  exact AssignmentStep.run_labelledBy hdesk' hsound hrefusal rfl hv hr

include hterms hlabel in
/-- A turn at a desk where the vocabulary is loaded fails only with what ends a batch. -/
theorem process_ended (h : ((b.process digest dryRun skipUnchanged path).run o).result = .error f) :
    b.Ended f := by
  obtain ⟨fs, hentered, -⟩ := b.entered_state digest skipUnchanged path o
  obtain ⟨calls, hdesk⟩ := hdesks
  obtain ⟨hsound, -⟩ := Engine.after_sound refusal calls
  have hdesk' (log : Log) : (LogKeeper.keep log (withFiles o fs).workplace : Workplace).desks =
      [⟨⟨file, some c⟩, Engine.after refusal calls⟩] := hdesk
  obtain ⟨-, hfault⟩ := b.process_classifies digest dryRun skipUnchanged path o
  rcases hfault f h with hended | hclassify
  · exact hended
  rw [hentered] at hclassify
  rcases fault_of_classify hclassify with ⟨hr, hf⟩ | hended
  · rw [hstep] at hr
    obtain ⟨holder, rfl⟩ := AssignmentStep.deep_of_run_error (fun d log _ =>
      AssignmentStep.failsOnly_classified (hdesk' log) hsound hterms hlabel
        (by rw [VocabularyFile.records_run rfl _ hv]; exact failsOnly_ok _ _) d) hr hf
    exact .deep rfl
  · exact hended

include hterms hlabel in
/-- A batch that classifies by a loaded vocabulary gives results that are labelled by its records, or it
is ended by a document that is nested too deeply, by the table or by the statistics. -/
theorem run_loaded (documents : List Path) (dryRun skipUnchanged : Bool) :
    let ran := (b.run documents dryRun skipUnchanged).run o
    (∀ result, ran.result = .ok result →
      ∀ r ∈ result.results, r.LabelledBy refusal v termsField labelField) ∧
    ∀ f, ran.result = .error f → b.Ended f := by
  obtain ⟨hanswer, hasked, -⟩ := digest_loaded hv hdesks
  obtain ⟨hanswers, hfaults⟩ := Action.each_invariant
    (f := b.process v.digest dryRun skipUnchanged) (I := fun o => Loaded refusal file c o.workplace.desks)
    (R := fun y => ∀ r, y = .classified r → r.LabelledBy refusal v termsField labelField)
    (E := b.Ended) documents (fun path _ o hdesks =>
      ⟨process_desks (keeps_loaded hv hstep hdesks) v.digest dryRun skipUnchanged path hdesks,
        fun y hy r hr => process_labelledBy hv hstep hdesks (hr ▸ hy),
        fun f hf => process_ended hv hstep hterms hlabel hdesks hf⟩) hasked
  rcases b.run_cases documents dryRun skipUnchanged hanswer with ⟨f, hf, hr, -⟩ |
    ⟨outcomes, houtcomes, h⟩
  · refine ⟨(fun result hresult => nomatch hr.symm.trans hresult), fun g hg => ?_⟩
    obtain rfl := Except.error.inj (hr.symm.trans hg)
    exact hfaults _ hf
  have hlabelled : ∀ r ∈ (BatchResult.ofOutcomes outcomes).results,
      r.LabelledBy refusal v termsField labelField := fun r hr =>
    hanswers outcomes houtcomes _ (BatchResult.mem_results.mp hr) r rfl
  rcases h with ⟨-, hr, -⟩ | ⟨-, hr, -⟩
  · refine ⟨fun result hresult => ?_, fun f hf => nomatch hr.symm.trans hf⟩
    obtain rfl := Except.ok.inj (hr.symm.trans hresult)
    exact hlabelled
  · -- Adding the run to the statistics is the last that can fail.
    rcases hcounted : ((Office.onFiles (Statistics.record b.statistics b.vocabulary
      (BatchResult.ofOutcomes outcomes).runCounts)).run _).result with f | u
    · rw [hcounted] at hr
      refine ⟨(fun result hresult => nomatch hr.symm.trans hresult), fun g hg => ?_⟩
      obtain rfl := Except.error.inj (hr.symm.trans hg)
      exact .counted hcounted
    · rw [hcounted] at hr
      refine ⟨fun result hresult => ?_, fun f hf => nomatch hr.symm.trans hf⟩
      obtain rfl := Except.ok.inj (hr.symm.trans hresult)
      exact hlabelled

end Loaded

/-- A batch is ended by its first document if that is nested too deeply, whichever documents are to
follow. -/
theorem run_deep {holder : Json.Holder} (rest : List Path) (dryRun : Bool)
    (hv : c.find b.vocabulary = .ok v) (hdesks : Loaded refusal file c o.workplace.desks)
    (hquiet : ∀ q, o.files.place path = .ok q → o.files.NoLogAt q)
    (hdeep : o.files.readJson path = .error (.unreadable (.tooDeep holder))) :
    ((b.run (path :: rest) dryRun false).run o).result = .error (.unreadable (.tooDeep holder)) := by
  obtain ⟨hanswer, -, log, hfiles⟩ := digest_loaded hv hdesks
  have hload : Document.load (b.digest.run o).state.workplace.files path =
      .error (.unreadable (.tooDeep holder)) := by
    refine Document.load_of_tooDeep ?_
    show (b.digest.run o).state.files.readJson path = _
    rw [hfiles, Files.readJson_congr (Files.readBytes_keep log hquiet), hdeep]
  -- The step does not contain the fault, and so it is none that is logged.
  obtain ⟨hstepped, -⟩ := b.step.run_of_unreadable dryRun hload
  have hturn : ((b.process v.digest dryRun false path).run (b.digest.run o).state).result =
      .error (.unreadable (.tooDeep holder)) := by
    show ((b.classify v.digest dryRun path).run (b.digest.run o).state).result = _
    unfold classify
    rw [attempt_atWork_bind hstepped]
    rfl
  rcases b.run_cases (path :: rest) dryRun false hanswer with ⟨f, hf, hr, -⟩ | ⟨outcomes, houtcomes, -⟩
  · rw [Action.each_cons, Action.run_bind_error hturn] at hf
    obtain rfl := Except.error.inj hf
    exact hr
  · rw [Action.each_cons, Action.run_bind_error hturn] at houtcomes
    cases houtcomes

end Batch

end TitleClasses
