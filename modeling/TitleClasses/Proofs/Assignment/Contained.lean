import TitleClasses.Proofs.Assignment.Effect
import TitleClasses.Proofs.Document.Faults
import TitleClasses.Proofs.Document.Remains

/-!
# Faults of a document stay with it

A step that does not write the document in the end leaves what stands at its path as it was
(`AssignmentStep.run_leaves_document`), and a step whose stages fail only in ways that they contain fails
as a step, with the path of its document (`AssignmentStep.run_fails_as_step`). Both hold of the step that
classifies by a loaded vocabulary, whatever the document is, as long as it is not nested too deeply for
the reader (`AssignmentStep.run_contained`): evaluating records whose fields can be keys does not
fail at all (`Policy.assignRecords_total`).
-/

namespace TitleClasses

/-! ### Fields -/

/-- A record has a value for a field that can be a key, or the value is missing. -/
theorem Record.fieldValue_of_isKey {name : Json} (h : name.IsKey) (r : Record) :
    (∃ value, r.fieldValue name = .ok value) ∨
      ∃ field, r.fieldValue name = .error (.missingField r.id field) := by
  cases name with
  | list xs => cases h
  | object ms => cases h
  | text key =>
    unfold fieldValue
    dsimp only
    cases r.fields.lookup key with
    | none => exact Or.inr ⟨key, rfl⟩
    | some value =>
      by_cases hblank : value.isBlank = true
      · exact Or.inr ⟨key, if_pos hblank⟩
      · exact Or.inl ⟨value, if_neg hblank⟩
  | _ => exact Or.inr ⟨_, rfl⟩

namespace Policy

open Engine

variable {p : Policy} (hterms : p.termsField.IsKey) (hclass : p.classField.IsKey)
include hterms hclass

/-- A record has a pair, or lacks one of its values. -/
theorem pairOf_of_isKey (r : Record) : (∃ pair, p.pairOf r = .ok pair) ∨
    ∃ field, p.pairOf r = .error (.missingField r.id field) := by
  unfold pairOf
  rcases r.fieldValue_of_isKey hterms with ⟨rule, hrule⟩ | ⟨field, hrule⟩
  · rcases r.fieldValue_of_isKey hclass with ⟨label, hlabel⟩ | ⟨field, hlabel⟩
    · exact Or.inl ⟨(some rule, some label), by rw [hrule, hlabel]; rfl⟩
    · exact Or.inr ⟨field, by rw [hrule, hlabel]; rfl⟩
  · exact Or.inr ⟨field, by rw [hrule]; rfl⟩

/-- A record gives its pair or is passed over. -/
theorem finds_pairOrWarning (refusal : Option Text → Option CompileError) (r : Record) :
    Finds refusal (p.pairOrWarning r) (p.pairOf r).toOption [] := by
  unfold pairOrWarning
  rcases pairOf_of_isKey hterms hclass r with ⟨pair, hpair⟩ | ⟨field, hpair⟩
  · rw [hpair]
    exact finds_pure (some pair)
  · rw [hpair]
    exact Finds.bind (x := ()) (finds_note _ _ _) (finds_pure none)

/-- What is found in records are the labels of their pairs, among however many workers. -/
theorem finds_assignRecords (refusal : Option Text → Option CompileError) (subject : Option Text)
    (hworkers : 0 < p.workers) (records : List Record) :
    Finds refusal (p.assignRecords records subject) (labelsOf refusal subject (p.pairsOf records))
      (rulesOf refusal (p.pairsOf records)) := by
  have hread := finds_each records fun r _ => finds_pairOrWarning hterms hclass refusal r
  have hpairs : (records.map fun r => (p.pairOf r).toOption).filterMap id = p.pairsOf records := by
    rw [List.filterMap_map]
    rfl
  have hnone : (records.flatMap fun _ => ([] : List (Option Text))) = [] := by simp
  rw [hnone] at hread
  refine Finds.bind hread ?_
  rw [hpairs]
  exact finds_assign refusal subject hworkers (p.pairsOf records)

/-- What records offer is found, with any sound engine and among however many workers. -/
theorem assignRecords_total (hworkers : 0 < p.workers) {e : Engine} (he : e.Sound)
    (records : List Record) (subject : Option Text) :
    ∃ found, ((p.assignRecords records subject).run e).result = .ok found := by
  obtain ⟨hfound, -⟩ := finds_assignRecords hterms hclass e.refusal subject hworkers records e he rfl
  exact ⟨_, hfound⟩

end Policy

/-- The strategy of the only desk fails only as asking for the records does. -/
theorem Strategy.failsOnly_ofDesk {families : List Family} {w : Workplace} {d : Desk} {policy : Policy}
    {vocabulary titleField : Json} (hdesks : w.desks = [d]) (hsound : d.engine.Sound)
    (hterms : policy.termsField.IsKey) (hclass : policy.classField.IsKey) (hworkers : 0 < policy.workers)
    (hrecords : FailsOnly families
      ((VocabularyFile.records w.files vocabulary).run d.vocabulary).result) (e : Element) :
    FailsOnly families
      (((Strategy.ofDesk 0 policy vocabulary titleField).labels e).run w).result := by
  unfold ofDesk ofVocabulary
  dsimp only
  split
  · exact failsOnly_ok _ _
  have hasked := Workplace.atDesk_run hdesks fun fs =>
    (VocabularyFile.records fs vocabulary).within Desk.vocabulary fun f d => { d with vocabulary := f }
  rw [Action.run_within] at hasked
  unfold Workplace.onVocabulary
  refine FailsOnly.bind_run ?_ fun records _ => ?_
  · rw [hasked]
    exact hrecords
  · -- The engine of the desk is the one that it had, and the policy does not fail with it.
    obtain ⟨found, hfound⟩ := Policy.assignRecords_total hterms hclass hworkers hsound records
      (some (e.subject titleField))
    rw [Action.run_map, hasked]
    unfold Workplace.onEngine
    rw [Workplace.atDesk_run rfl, Action.run_within]
    dsimp only
    rw [hfound]
    exact failsOnly_ok _ _

/-! ### What stands at the path -/

/-- Log records that are made elsewhere leave what a path leads to. -/
theorem Files.Logged.nodeAt {fs fs' : Files} {path : Path} (h : Logged fs fs')
    (hlog : ∀ q, fs.place path = .ok q → fs.NoLogAt q) : fs'.nodeAt path = fs.nodeAt path := by
  obtain ⟨log, rfl⟩ := h
  unfold Files.nodeAt
  rw [place_keep]
  cases hp : fs.place path with
  | error r => rfl
  | ok q => simp only [node?_keep log (hlog q hp)]

/-- A document that was loaded stands at its path. -/
theorem Document.nodeAt_of_load {fs : Files} {path : Path} {d : Document}
    (h : Document.load fs path = .ok d) : ∃ n, fs.nodeAt path = .ok n := by
  obtain ⟨-, v, hv, -⟩ := load_ok h
  obtain ⟨bytes, hbytes⟩ := Files.readBytes_of_readJson hv
  obtain ⟨target, hplace, -, n, hn, -⟩ := Files.place_of_readBytes hbytes
  exact ⟨n, Files.nodeAt_eq_ok.mpr ⟨target, hplace, hn⟩⟩

/-- A document that was not written stands at its path as it did. -/
theorem Document.nodeAt_of_write_error {d : Document} {fs : Files} {f : Fault} {n : Node}
    (hw : (d.write.run fs).result = .error f) (hnode : fs.nodeAt d.path = .ok n) :
    (d.write.run fs).state.nodeAt d.path = .ok n := by
  obtain ⟨target, hplace, hn⟩ := Files.nodeAt_eq_ok.mp hnode
  refine Files.nodeAt_eq_ok.mpr ⟨target, (d.write_within fs).place_iff.mpr hplace, ?_⟩
  rcases d.write_leaves fs with ⟨hok, -⟩ | ⟨g, -, -, hsame | ⟨run, -, -, q, -, hnone, -, hothers⟩⟩
  · cases hw.symm.trans hok
  · exact (hsame target).trans hn
  · -- Something stands at the target, and nothing stood where the temporary file is.
    have htarget : target ≠ q := by
      rintro rfl
      cases hn.symm.trans hnone
    exact (hothers target htarget).trans hn

namespace AssignmentStep

open Files (Logged)

variable {step : AssignmentStep} {path : Path} {w : Workplace} {dryRun : Bool}

/-! ### Any step -/

/-- A step that has failed, or runs dry, leaves what stands at the path of its document, if its strategies
leave the files alone and no log is open there. -/
theorem run_leaves_document
    (hstep : ∀ d (w' : Workplace), Logged w'.files (step.classified d w').state.files)
    (hlog : ∀ q, w.files.place path = .ok q → w.files.NoLogAt q)
    (h : dryRun = true ∨ ∃ f, ((step.run path dryRun).run w).result = .error f) :
    ((step.run path dryRun).run w).state.files.nodeAt path = w.files.nodeAt path := by
  rcases step.run_cases path dryRun w with ⟨f, -, -, hs⟩ | ⟨d, log, found, hl, rfl, hcases⟩
  · rw [hs]
  have hlogged : Logged w.files (step.classified d (LogKeeper.keep log w)).state.files :=
    Logged.trans ⟨log, rfl⟩ (hstep d (LogKeeper.keep log w))
  have hfound := hlogged.nodeAt hlog
  rcases hcases with ⟨f, -, -, hs⟩ | ⟨labels, -, ⟨-, -, more, hs⟩ | ⟨-, f, hw, -, hs⟩ |
    ⟨hdry, -, hr, -⟩⟩
  · rw [hs, hfound]
  · rw [hs]
    exact (hlogged.keep more).nodeAt hlog
  · -- Before the writing the document stands where it stood.
    obtain ⟨hpath, -⟩ := Document.load_ok hl
    obtain ⟨n, hn⟩ := Document.nodeAt_of_load hl
    subst hpath
    rw [hs, hn]
    exact Document.nodeAt_of_write_error hw (hfound.trans hn)
  · rcases h with h | ⟨f, h⟩
    · cases hdry.symm.trans h
    · cases hr.symm.trans h

/-- A step whose strategies fail only in ways that a step contains, and whose document is not nested too
deeply, fails as a step with the path of its document. -/
theorem run_fails_as_step (hdeep : w.files.NotTooDeep path)
    (hstep : ∀ d log, Document.load w.files path = .ok d →
      FailsOnly [.os, .value, .key] (step.classified d (LogKeeper.keep log w)).result)
    {f : Fault} (h : ((step.run path dryRun).run w).result = .error f) :
    ∃ stage cause, f = .step path.toText stage cause := by
  have htold (s : Stage) (cause : Fault) (hs : s.contains cause.family = true) :
      s.told path cause = .step path.toText s cause := if_pos hs
  rcases step.run_cases path dryRun w with ⟨cause, hl, hr, -⟩ | ⟨d, log, found, hl, rfl,
    ⟨cause, hc, hr, -⟩ | ⟨labels, -, ⟨-, hr, -⟩ | ⟨-, cause, hw, hr, -⟩ | ⟨-, -, hr, -⟩⟩⟩
  · have hfamily := Document.failsOnly_load hdeep cause hl
    obtain rfl := Except.error.inj (h.symm.trans hr)
    exact ⟨.read, cause, htold .read cause (List.contains_iff_mem.mpr hfamily)⟩
  · have hfamily := hstep d log hl cause hc
    obtain rfl := Except.error.inj (h.symm.trans hr)
    exact ⟨.classify, cause, htold .classify cause (List.contains_iff_mem.mpr hfamily)⟩
  · cases h.symm.trans hr
  · have hfamily := Document.failsOnly_write (step.changed d labels) _ cause hw
    have hcontained : cause.family ∈ [Family.os, .type, .value] := by
      rcases List.mem_cons.mp hfamily with hos | hvalue
      · exact List.mem_cons.mpr (Or.inl hos)
      · rw [List.mem_singleton.mp hvalue]
        simp
    obtain rfl := Except.error.inj (h.symm.trans hr)
    exact ⟨.write, cause, htold .write cause (List.contains_iff_mem.mpr hcontained)⟩
  · cases h.symm.trans hr

/-! ### The step that classifies by a vocabulary -/

variable {d : Desk} {termsField labelField : Json} {workers : Int}
  {vocabulary titleField classField : Json}

/-- Classifying by a vocabulary fails only as asking for its records does. -/
theorem failsOnly_classified {families : List Family} (hdesks : w.desks = [d])
    (hsound : d.engine.Sound) (hterms : termsField.IsKey) (hlabel : labelField.IsKey)
    (hrecords : FailsOnly families
      ((VocabularyFile.records w.files vocabulary).run d.vocabulary).result) (document : Document) :
    FailsOnly families ((byVocabulary termsField labelField workers vocabulary titleField
      classField).classified document w).result := by
  have hworkers := Policy.new_workers_pos termsField labelField workers
  obtain ⟨hresult, -⟩ := Classifier.classify_run (w := w) document.logical
    (.ofDesk 0 (Policy.new termsField labelField workers) vocabulary titleField)
  unfold classified byVocabulary
  rw [hresult]
  exact (Strategy.failsOnly_ofDesk hdesks hsound hterms hlabel hworkers hrecords _).map _

/-- A workplace where the metadata of the series are a number. -/
def brokenPlace : Workplace :=
  { seriesPlace with files := ⟨[], [(["series"], .file (Utf8.bytesOf
    "\x7b\"type\": \"Series\", \"metadata\": 7\x7d"))], 0, none⟩ }

/-- A workplace where the log goes to the file of the series. -/
def loggedPlace : Workplace :=
  { seriesPlace with files := { seriesPlace.files with
    log := some ⟨["series"], ⟨seriesPath, .debug, false⟩, "", []⟩ } }

theorem notTooDeep_of_read {fs : Files} (h : (fs.readJson path).toOption.isSome = true) :
    fs.NotTooDeep path := by
  intro deep hdeep
  rw [hdeep] at h
  cases h

end AssignmentStep

end TitleClasses
