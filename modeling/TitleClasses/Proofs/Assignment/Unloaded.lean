import TitleClasses.Proofs.Assignment.Contained
import TitleClasses.Proofs.Vocabulary.Loading

/-!
# Classifying by a vocabulary that was not loaded yet

A step that asks a vocabulary file for the first time loads it. If what the file holds can be loaded,
the step classifies by the records that are loaded then, or it fails as a step and leaves its document
as it was (`AssignmentStep.run_unloaded`). Log records that are made before, while the document is
read, do not come to the file (`VocabularyFile.reload_keep`).
-/

namespace TitleClasses

/-! ### The labels of a result -/

/-- Whether the labels of a result are, in increasing order, the stripped labels of the records whose
rule is not refused and matches the subject; without a subject there are none. -/
structure StepResult.LabelledBy (refusal : Option Text → Option CompileError) (v : Vocabulary)
    (termsField labelField : Json) (r : StepResult) : Prop where
  increasing : Text.Increasing r.labels
  mem_iff : ∀ l, l ∈ r.labels ↔ r.subject ≠ [] ∧ ∃ record ∈ v.records, ∃ rule label,
    record.Has termsField rule ∧ record.Has labelField label ∧ refusal (some rule) = none ∧
      ruleMatches (some rule) (some r.subject) ∧ l = label.strip

/-! ### The first question -/

namespace VocabularyFile

variable {fs : Files} {file : Path}

/-- Log records that do not come to a vocabulary file change nothing of what is loaded from it. -/
theorem reload_keep (hopen : ∀ q, fs.place file = .ok q → fs.NoLogAt q) (log : Log)
    (loaded : Option Catalogue) :
    (reload (LogKeeper.keep log fs)).run ⟨file, loaded⟩ = (reload fs).run ⟨file, loaded⟩ := by
  have hnode : (LogKeeper.keep log fs : Files).nodeAt file = fs.nodeAt file :=
    Files.Logged.nodeAt ⟨log, rfl⟩ hopen
  have hexists : (LogKeeper.keep log fs : Files).exists? file = fs.exists? file := by
    unfold Files.exists?
    rw [hnode]
  have hread : (LogKeeper.keep log fs : Files).readJson file = fs.readJson file :=
    Files.readJson_congr (Files.readBytes_keep log hopen)
  unfold reload
  rw [Action.run_state_bind, Action.run_state_bind]
  dsimp only
  rw [hexists, hread]

theorem find_keep (hopen : ∀ q, fs.place file = .ok q → fs.NoLogAt q) (log : Log) (name : Json) :
    (find (LogKeeper.keep log fs) name).run ⟨file, none⟩ = (find fs name).run ⟨file, none⟩ := by
  have hcatalogue : (catalogue (LogKeeper.keep log fs)).run ⟨file, none⟩ =
      (catalogue fs).run ⟨file, none⟩ := by
    rw [catalogue_unloaded, catalogue_unloaded]
    exact Action.run_bind_congr (reload_keep hopen log none) _
  unfold find
  exact Action.run_bind_congr hcatalogue _

theorem records_result (fs : Files) (name : Json) (f : VocabularyFile) :
    ((records fs name).run f).result = ((find fs name).run f).result.map Vocabulary.records := by
  unfold records
  rw [Action.run_map]

/-- The first question for a vocabulary is answered with what is found in the catalogue that is loaded
then, or fails in a way that a step contains. -/
theorem find_unloaded (hfile : Loadable fs file) {name : Json} (hname : name.IsKey) :
    let o := (find fs name).run ⟨file, none⟩
    (∃ f, o.result = .error f ∧ f.family ∈ [Family.os, .value, .key]) ∨
      ∃ c v, ((reload fs).run ⟨file, none⟩).result = .ok () ∧
        ((reload fs).run ⟨file, none⟩).state = ⟨file, some c⟩ ∧ c.find name = .ok v ∧
        o.result = .ok v := by
  unfold find
  rcases reload_cases hfile none with ⟨f, hf, hfamily, -⟩ | ⟨c, hc, hstate, hnames⟩
  · have herror : ((catalogue fs).run ⟨file, none⟩).result = .error f := by
      rw [catalogue_unloaded, Action.run_bind_error hf]
    rw [Action.run_bind_error herror]
    refine Or.inl ⟨f, rfl, ?_⟩
    rcases List.mem_cons.mp hfamily with hos | hvalue
    · exact List.mem_cons.mpr (Or.inl hos)
    · rw [List.mem_singleton.mp hvalue]
      simp
  · have hok : ((catalogue fs).run ⟨file, none⟩).result = .ok c := by
      rw [catalogue_unloaded, Action.run_bind_ok hc, hstate]
      rfl
    rw [Action.run_bind_ok hok, Action.run_ofExcept]
    rcases hfind : c.find name with f | v
    · have hkey := Catalogue.failsOnly_find hnames hname f hfind
      refine Or.inl ⟨f, rfl, ?_⟩
      rw [List.mem_singleton.mp hkey]
      simp
    · exact Or.inr ⟨c, v, hc, hstate, hfind, rfl⟩

end VocabularyFile

/-! ### The step -/

/-- A strategy that has answered for an element with a subject was given records. -/
theorem Strategy.records_of_ofDesk {w : Workplace} {d : Desk} {policy : Policy}
    {vocabulary titleField : Json} {e : Element} {found : List (Option Text)} (hdesks : w.desks = [d])
    (hsubject : e.subject titleField ≠ [])
    (h : (((Strategy.ofDesk 0 policy vocabulary titleField).labels e).run w).result = .ok found) :
    ∃ records, ((VocabularyFile.records w.files vocabulary).run d.vocabulary).result = .ok records := by
  have hempty : ¬ (e.subject titleField).isEmpty = true := fun heq =>
    hsubject (List.isEmpty_iff.mp heq)
  unfold ofDesk ofVocabulary at h
  dsimp only at h
  rw [if_neg hempty] at h
  obtain ⟨records, hrecords, -⟩ := Action.result_bind_eq_ok.mp h
  unfold Workplace.onVocabulary at hrecords
  rw [Workplace.atDesk_run hdesks] at hrecords
  exact ⟨records, hrecords⟩

namespace AssignmentStep

variable {w : Workplace} {d : Desk} {v : Vocabulary} {refusal : Option Text → Option CompileError}
  {termsField labelField : Json} {workers : Int} {vocabulary titleField classField : Json}

/-- Where something was found, the strategy of the vocabulary has answered. -/
theorem answer_of_classified {document : Document} {labels : List Text}
    (hc : ((byVocabulary termsField labelField workers vocabulary titleField classField).classified
      document w).result = .ok labels) :
    ∃ found, (((Strategy.ofDesk 0 (Policy.new termsField labelField workers) vocabulary
      titleField).labels document.logical).run w).result = .ok found := by
  obtain ⟨hanswer, -⟩ := Classifier.classify_run (w := w) document.logical
    (.ofDesk 0 (Policy.new termsField labelField workers) vocabulary titleField)
  unfold classified byVocabulary at hc
  rw [hanswer] at hc
  cases h : (((Strategy.ofDesk 0 (Policy.new termsField labelField workers) vocabulary
      titleField).labels document.logical).run w).result with
  | error f =>
    rw [h] at hc
    cases hc
  | ok found => exact ⟨found, rfl⟩

/-- What is found by the records of a vocabulary are the labels of these records. -/
theorem labelledBy_answerOf {document : Document} {labels : List Text} (hdesks : w.desks = [d])
    (hsound : d.engine.Sound) (hrefusal : d.engine.refusal = refusal)
    (hv : document.logical.subject titleField ≠ [] →
      ((VocabularyFile.records w.files vocabulary).run d.vocabulary).result = .ok v.records)
    (hc : ((byVocabulary termsField labelField workers vocabulary titleField classField).classified
      document w).result = .ok labels) (written : Bool) :
    ((byVocabulary termsField labelField workers vocabulary titleField classField).answerOf document
      labels written).LabelledBy refusal v termsField labelField := by
  obtain ⟨hresult, -⟩ := classified_of_records hdesks hv (Policy.new termsField labelField workers)
    classField
  have hworkers := Policy.new_workers_pos termsField labelField workers
  rcases hfindings : (Policy.new termsField labelField workers).findings v d.engine
    (document.logical.subject titleField) with f | found
  · rw [hfindings] at hresult
    cases hc.symm.trans hresult
  · rw [hfindings] at hresult
    obtain rfl := Except.ok.inj (hc.symm.trans hresult)
    obtain ⟨hincreasing, hmem⟩ := Policy.clean_findings hworkers hsound hrefusal hfindings
    exact ⟨hincreasing, hmem⟩

/-- A step that classifies by a vocabulary file that was not loaded yet, and can be, answers for a
document with a title by the records that are loaded, or it fails as a step and leaves the document as
it was. -/
theorem run_unloaded {path file : Path} {dryRun : Bool} {document : Document} {calls : List Engine.Call}
    (hdesks : w.desks = [⟨⟨file, none⟩, Engine.after refusal calls⟩])
    (hfile : VocabularyFile.Loadable w.files file)
    (hopen : ∀ q, w.files.place file = .ok q → w.files.NoLogAt q)
    (hname : vocabulary.IsKey) (hterms : termsField.IsKey) (hlabel : labelField.IsKey)
    (hread : Document.load w.files path = .ok document)
    (hsubject : document.logical.subject titleField ≠ [])
    (hlog : ∀ q, w.files.place path = .ok q → w.files.NoLogAt q) :
    let o := ((byVocabulary termsField labelField workers vocabulary titleField classField).run path
      dryRun).run w
    (∃ r c v, o.result = .ok r ∧
      ((VocabularyFile.reload w.files).run ⟨file, none⟩).state.loaded = some c ∧
      c.find vocabulary = .ok v ∧ r.subject = document.logical.subject titleField ∧
      r.LabelledBy refusal v termsField labelField) ∨
    ∃ stage cause, o.result = .error (.step path.toText stage cause) ∧
      o.state.files.nodeAt path = w.files.nodeAt path := by
  intro o
  obtain ⟨hsound, hrefusal⟩ := Engine.after_sound refusal calls
  -- The file is asked after the log records of the reading, which do not come to it.
  have hasked (log : Log) : ((VocabularyFile.records (LogKeeper.keep log w : Workplace).files
      vocabulary).run ⟨file, none⟩).result =
        ((VocabularyFile.find w.files vocabulary).run ⟨file, none⟩).result.map Vocabulary.records := by
    rw [VocabularyFile.records_result, ← VocabularyFile.find_keep hopen log vocabulary]
    rfl
  have hfound := VocabularyFile.find_unloaded hfile hname
  obtain ⟨-, value, hvalue, -⟩ := Document.load_ok hread
  rcases hr : o.result with f | r
  · have hfails : FailsOnly [.os, .value, .key]
        ((VocabularyFile.find w.files vocabulary).run ⟨file, none⟩).result := by
      intro f hf
      rcases hfound with ⟨g, hg, hfamily⟩ | ⟨c, v, -, -, -, hv⟩
      · obtain rfl := Except.error.inj (hf.symm.trans hg)
        exact hfamily
      · cases hf.symm.trans hv
    obtain ⟨stage, cause, rfl⟩ := run_fails_as_step (Files.notTooDeep_of_readJson hvalue)
      (fun d log _ => failsOnly_classified (w := LogKeeper.keep log w) hdesks hsound hterms hlabel
        ((hasked log).symm ▸ hfails.map Vocabulary.records) d) hr
    exact Or.inr ⟨stage, cause, rfl, run_leaves_document
      (classified_logged _ vocabulary titleField classField) hlog (Or.inr ⟨_, hr⟩)⟩
  · obtain ⟨d, log, labels, hl, hc, rfl⟩ := of_run_ok hr
    obtain rfl : d = document := Except.ok.inj (hl.symm.trans hread)
    have hdesks' : (LogKeeper.keep log w : Workplace).desks =
        [⟨⟨file, none⟩, Engine.after refusal calls⟩] := hdesks
    rcases hfound with ⟨f, hf, -⟩ | ⟨c, v, -, hstate, hv, hfind⟩
    · -- Without records nothing would have been found.
      obtain ⟨found, hanswer⟩ := answer_of_classified hc
      obtain ⟨records, hrecords⟩ := Strategy.records_of_ofDesk hdesks' hsubject hanswer
      rw [hasked, hf] at hrecords
      cases hrecords
    · refine Or.inl ⟨_, c, v, rfl, by rw [hstate], hv, rfl, ?_⟩
      refine labelledBy_answerOf hdesks' hsound hrefusal (fun _ => ?_) hc _
      rw [hasked, hfind]
      rfl

end AssignmentStep

end TitleClasses
