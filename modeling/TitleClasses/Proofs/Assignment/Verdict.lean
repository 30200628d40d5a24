import TitleClasses.Proofs.Assignment.Record

/-!
# The verdict on a document

What becomes of a document, in a dry run or in one that writes, is told by one verdict on it
(`Batch.verdict`), which is made of what the turn finds: whether the document is on record, whether it can be
read and classified, and whether it can be written and recorded. The two runs differ in the last part alone
(`Verdict.outcome`). A turn ends as the verdict says (`process_ends`), whether or not the vocabulary has a key
in the table, and the verdict depends on what is seen of the document (`verdict_congr`).
-/

namespace TitleClasses

/-- The labels that a policy gives to a title in a vocabulary, or why it gives none. -/
def Policy.labelsFor (p : Policy) (v : Vocabulary) (refusal : Option Text → Option CompileError)
    (subject : Text) : Except Fault (List Text) :=
  (p.findings v (.new refusal) subject).map fun found => Classifier.clean (found.map some)

/-! ### Verdicts -/

/-- What is in store for a document. -/
inductive Verdict where
  /-- It is on record as it is. -/
  | skipped
  /-- It cannot be read or classified, and the step tells so. -/
  | failed
  /-- The table does not answer, or there is a fault that the step does not contain. -/
  | aborted (f : Fault)
  /-- It is classified, and can be written and recorded. -/
  | classified (r : StepResult)
  /-- It is classified, but cannot be written. -/
  | unwritten (r : StepResult)
  /-- It is classified, and can be written but not recorded. -/
  | unrecorded (r : StepResult) (f : Fault)

namespace Verdict

/-- How the turn of a document ends. A dry run tells what is found, whatever could be done with it. -/
def outcome (dryRun : Bool) : Verdict → Except Fault DocumentOutcome
  | skipped => .ok .skipped
  | failed => .ok .failed
  | aborted f => .error f
  | classified r => .ok (.classified { r with written := !dryRun })
  | unwritten r => if dryRun then .ok (.classified r) else .ok .failed
  | unrecorded r f => if dryRun then .ok (.classified r) else .error f

/-- What a step that fails has in store for its document. -/
def ofFault (f : Fault) : Verdict := if f.family = .step then failed else aborted f

/-- A fault that a stage contains fails the document. -/
theorem ofFault_told {s : Stage} {f : Fault} (h : s.contains f.family = true) (path : Path) :
    ofFault (s.told path f) = failed := by
  unfold Stage.told
  rw [if_pos h]
  rfl

end Verdict

namespace Batch

/-- The verdict on a document for which there are labels. -/
def verdictOn (b : Batch) (fs : Files) (d : Document) (labels : List Text) : Verdict :=
  match fs.hasTemporary d.path, Utf8.encode (b.step.changed d labels).root.render with
  | true, .ok _ =>
    match Processed.recordKey b.vocabulary with
    | .ok _ => .classified (b.step.answerOf d labels false)
    | .error f => .unrecorded (b.step.answerOf d labels false) f
  | _, _ => .unwritten (b.step.answerOf d labels false)

/-- The verdict on the document at a path, where it is known what is found for a title. -/
def verdict (b : Batch) (found : Text → Except Fault (List Text)) (digest : Text) (skipUnchanged : Bool)
    (fs : Files) (path : Path) : Verdict :=
  match (b.sight fs path).passed b.vocabulary digest skipUnchanged with
  | .error f => .aborted f
  | .ok true => .skipped
  | .ok false =>
    match Document.load fs path with
    | .error f => .ofFault (Stage.read.told path f)
    | .ok d =>
      match found (d.logical.subject b.step.titleField) with
      | .error f => .ofFault (Stage.classify.told path f)
      | .ok labels => b.verdictOn fs d labels

end Batch

/-! ### What a verdict depends on -/

namespace Document

variable {fs fs' : Files} {path : Path}

/-- What is loaded is told by the bytes; without any nothing is, in a way that reading contains. -/
theorem load_congr (hsame : (fs'.readBytes path).toOption = (fs.readBytes path).toOption) :
    load fs' path = load fs path ∨ ∃ f f', load fs path = .error f ∧ load fs' path = .error f' ∧
      Stage.read.contains f.family = true ∧ Stage.read.contains f'.family = true := by
  have hunread {fs : Files} {g : Fault} (hread : fs.readBytes path = .error g) :
      ∃ f, load fs path = .error f ∧ Stage.read.contains f.family = true := by
    have hdeep : fs.NotTooDeep path := by
      intro holder hdeep
      obtain ⟨bytes, hbytes⟩ := Files.readBytes_of_unreadable hdeep
      cases hread.symm.trans hbytes
    rcases hload : load fs path with f | d
    · have hfamily := failsOnly_load hdeep f hload
      exact ⟨f, rfl, List.contains_iff_mem.mpr hfamily⟩
    · obtain ⟨bytes, hbytes, -⟩ := bytes_of_load hload
      cases hread.symm.trans hbytes
  rcases hread : fs.readBytes path with g | bytes
  · rcases hread' : fs'.readBytes path with g' | bytes'
    · obtain ⟨f, hf, hcontained⟩ := hunread hread
      obtain ⟨f', hf', hcontained'⟩ := hunread hread'
      exact Or.inr ⟨f, f', hf, hf', hcontained, hcontained'⟩
    · rw [hread, hread'] at hsame
      cases hsame
  · rw [hread] at hsame
    have hread' := Except.eq_ok_of_toOption hsame
    left
    unfold load
    rw [Files.exists?_of_readBytes hread, Files.exists?_of_readBytes hread',
      Files.readJson_congr (hread'.trans hread.symm)]

end Document

namespace Batch

variable {b : Batch} {fs fs' : Files} {path : Path} {digest : Text} {dryRun skipUnchanged : Bool}
  {found : Text → Except Fault (List Text)}

/-- The verdict on a document depends on what is seen of it. -/
theorem verdict_congr (hsight : b.sight fs' path = b.sight fs path) :
    b.verdict found digest skipUnchanged fs' path = b.verdict found digest skipUnchanged fs path := by
  unfold verdict
  rw [hsight]
  rcases (b.sight fs path).passed b.vocabulary digest skipUnchanged with f | passed
  · rfl
  cases passed with
  | true => rfl
  | false =>
    rcases Document.load_congr (congrArg Sight.bytes hsight) with hload | ⟨f, f', hf, hf', hin, hin'⟩
    · rw [hload]
      rcases hd : Document.load fs path with f | d
      · rfl
      · obtain ⟨rfl, -⟩ := Document.load_ok hd
        have hbeside : fs'.hasTemporary d.path = fs.hasTemporary d.path := congrArg Sight.beside hsight
        unfold verdictOn
        dsimp only
        rw [hbeside]
    · rw [hf, hf']
      exact (Verdict.ofFault_told hin' path).trans (Verdict.ofFault_told hin path).symm

/-! ### One turn -/

/-- What holds where the turn of a document has ended in some way: in an outcome, with which the document
has met a fate, or in a fault. -/
def Ends (b : Batch) (t : Place) (path : Path) (fs : Files) (ended : Outcome Office DocumentOutcome) :
    Except Fault DocumentOutcome → Prop
  | .error f => ended.result = .error f
  | .ok outcome => ∃ fate : Fate, fate.outcome = outcome ∧ b.Turned t path fs fate ended

section Turn

variable {o : Office} {refusal : Option Text → Option CompileError} {file : Path} {c : Catalogue}
  {v : Vocabulary} {own : Set Place} {t : Place} {termsField labelField : Json} {workers : Int}
  {titleField classField : Json}
  (hready : b.Ready refusal file c t o) (hforeign : o.files.Foreign own path) (ht : t ∈ own)
include hready hforeign ht

/-- A turn whose step has failed fails its document, or fails. -/
theorem classify_ends_fault (digest : Text) {f : Fault} {stepped : Outcome Workplace StepResult}
    (hstepped : (b.step.run path dryRun).run o.workplace = stepped) (hr : stepped.result = .error f)
    (hlogged : Files.Logged o.files stepped.state.files) :
    b.Ends t path o.files ((b.classify digest dryRun path).run o) ((Verdict.ofFault f).outcome dryRun) := by
  unfold Verdict.ofFault
  split
  next hfamily =>
    obtain ⟨p, stage, cause, rfl⟩ := Fault.eq_step hfamily
    obtain ⟨hresult, hmore⟩ := classify_failed digest hstepped hr
    exact ⟨_, rfl, turned_of_logged hready hforeign ht hresult (hlogged.trans hmore)⟩
  next hfamily => exact classify_error (hstepped ▸ hr) hfamily

/-- A document for which there are labels meets the fate that is in store for it. -/
theorem classify_ends_found (digest : Text) {root : Element} {labels : List Text}
    (hload : Document.load o.files path = .ok ⟨path, root⟩)
    (hlabels : ∀ log,
      (b.step.classified ⟨path, root⟩ (LogKeeper.keep log o.workplace)).result = .ok labels)
    (hlogged : ∀ d (w : Workplace), Files.Logged w.files (b.step.classified d w).state.files) :
    b.Ends t path o.files ((b.classify digest dryRun path).run o)
      ((b.verdictOn o.files ⟨path, root⟩ labels).outcome dryRun) := by
  unfold verdictOn
  dsimp only
  cases dryRun with
  | true =>
    have hdry := turned_dry hready hforeign ht hload hlabels hlogged digest
    split
    · split
      · exact ⟨_, rfl, hdry⟩
      · exact ⟨_, rfl, hdry⟩
    · exact ⟨_, rfl, hdry⟩
  | false =>
    split
    next bytes hbeside he =>
      split
      next k hkey =>
        exact ⟨_, rfl, turned_written hready (Processed.keyOf_of_recordKey hkey) hforeign ht hload hlabels
          hlogged digest hbeside he⟩
      next f hkey =>
        -- The document is written, but the table refuses to record it.
        obtain ⟨hr, hread⟩ :=
          (AssignmentStep.run_found_result hload hlabels hlogged).1 hbeside bytes he
        obtain ⟨rows, hstands⟩ := hready.stands
        have hafter := stands_of_grown hready.home hstands hforeign ht hready.quiet
          (AssignmentStep.run_found_grown hload hlabels hlogged)
        obtain ⟨hresult, -⟩ := classify_records digest rfl hr rfl hread
        rw [hafter.record_refused hkey] at hresult
        exact hresult
    next hcannot =>
      refine ⟨_, rfl, turned_unwritten hready hforeign ht hload hlabels hlogged digest ?_⟩
      cases hbeside : o.files.hasTemporary path with
      | false => exact Or.inl rfl
      | true =>
        rcases he : Utf8.encode (b.step.changed ⟨path, root⟩ labels).root.render with run | bytes
        · exact Or.inr ⟨run, rfl⟩
        · exact absurd he (hcannot bytes hbeside)

/-- A turn ends as the verdict on its document says. -/
theorem process_ends (hv : c.find b.vocabulary = .ok v)
    (hstep : b.step = .byVocabulary termsField labelField workers b.vocabulary titleField classField)
    (digest : Text) (dryRun skipUnchanged : Bool) :
    b.Ends t path o.files ((b.process digest dryRun skipUnchanged path).run o)
      ((b.verdict ((Policy.new termsField labelField workers).labelsFor v refusal) digest skipUnchanged
        o.files path).outcome dryRun) := by
  have hlogged := step_logged hstep
  obtain ⟨rows, hstands⟩ := hready.stands
  rw [process_asked hstands]
  unfold verdict
  rcases (b.sight o.files path).passed b.vocabulary digest skipUnchanged with f | passed
  · exact (rfl : Except.error f = _)
  cases passed with
  | true => exact ⟨_, rfl, turned_of_logged hready hforeign ht rfl (Files.Logged.refl o.files)⟩
  | false =>
    dsimp only
    rcases hload : Document.load o.files path with f | d
    · obtain ⟨hr, hs⟩ := b.step.run_of_unreadable dryRun hload
      refine classify_ends_fault hready hforeign ht digest rfl hr ?_
      rw [hs]
      exact Files.Logged.refl o.files
    obtain ⟨rfl, -⟩ := Document.load_ok hload
    obtain ⟨log, hread⟩ := Document.read_run_ok hload
    have hclassified := classified_ready hready hv hstep d
    dsimp only
    rcases hfound : (Policy.new termsField labelField workers).labelsFor v refusal
      (d.logical.subject b.step.titleField) with f | labels
    · obtain ⟨hr, hs⟩ := AssignmentStep.run_of_unclassified hread dryRun ((hclassified log).trans hfound)
      refine classify_ends_fault hready hforeign ht digest rfl hr ?_
      rw [hs]
      exact Files.Logged.trans ⟨log, rfl⟩ (hlogged d (LogKeeper.keep log o.workplace))
    · exact classify_ends_found hready hforeign ht digest hload
        (fun log => (hclassified log).trans hfound) hlogged

end Turn

end Batch

end TitleClasses
