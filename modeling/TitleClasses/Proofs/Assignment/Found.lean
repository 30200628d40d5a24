import TitleClasses.Proofs.Assignment.Aborted
import TitleClasses.Proofs.Assignment.Repeated
import TitleClasses.Proofs.Document.Reach

/-!
# A step that finds labels

What a step does with a document whose labels it finds. Whether it finds them depends on the bytes of the
document (`Element.ofBytes?`): on what holds no element it fails as a step (`run_unseen`). Where it does
find them, a dry run answers and nothing else is done (`run_found_dry`); any other run answers if the
document can be written, which then holds the bytes that were written, and fails as a step if not
(`run_found_result`), and in either case it reaches no further than the document (`run_found_grown`).
Where a vocabulary is loaded, what is found for a title does not depend on what the engine was asked before
(`classified_findings`, `classified_labelling`).
-/

namespace TitleClasses

open Utf8 (Bytes)

/-! ### Reading -/

/-- The element that bytes hold, if they hold one. -/
def Element.ofBytes? (bytes : Bytes) : Option Element :=
  (Utf8.decode bytes).toOption.bind fun t =>
    (Json.read t.unifyLineEnds).toOption.bind fun v => (ofJson v).toOption

namespace Document

variable {fs : Files} {path : Path} {bytes : Bytes}

/-- The element that the bytes of a file hold is that of the value which is read there. -/
theorem ofBytes?_eq (hread : fs.readBytes path = .ok bytes) : Element.ofBytes? bytes =
    (fs.readJson path).toOption.bind fun v => (Element.ofJson v).toOption := by
  unfold Element.ofBytes?
  rcases hd : Utf8.decode bytes with e | t
  · have hnone : fs.readJson path = .error (.undecodable e) := by
      simp [Files.readJson, Files.readText, hread, hd]
    rw [hnone]
    rfl
  · rw [Files.readJson_of_readText (Files.readText_of_decode hread hd)]
    dsimp only [Except.toOption, Option.bind_some]
    cases Json.read t.unifyLineEnds <;> rfl

/-- A document is the element that its bytes hold. -/
theorem load_of_seen {root : Element}
    (hseen : (fs.readBytes path).toOption.bind Element.ofBytes? = some root) :
    load fs path = .ok ⟨path, root⟩ := by
  obtain ⟨bytes, hbytes, hroot⟩ := Option.bind_eq_some_iff.mp hseen
  rw [ofBytes?_eq (Except.eq_ok_of_toOption hbytes)] at hroot
  obtain ⟨v, hv, hroot⟩ := Option.bind_eq_some_iff.mp hroot
  exact load_of_readJson (Except.eq_ok_of_toOption hv) (Except.eq_ok_of_toOption hroot)

/-- Where a document is loaded there are bytes that hold its element. -/
theorem bytes_of_load {d : Document} (h : load fs path = .ok d) :
    ∃ bytes, fs.readBytes path = .ok bytes ∧ Element.ofBytes? bytes = some d.root := by
  obtain ⟨-, v, hv, hroot⟩ := load_ok h
  obtain ⟨bytes, hread⟩ := Files.readBytes_of_readJson hv
  refine ⟨bytes, hread, ?_⟩
  rw [ofBytes?_eq hread, hv]
  exact congrArg Except.toOption hroot

end Document

/-! ### A step that finds labels -/

namespace AssignmentStep

/-- A step on what holds no element fails as a step, and changes nothing. -/
theorem run_unseen (step : AssignmentStep) {path : Path} {w : Workplace} (dryRun : Bool)
    (hdeep : w.files.NotTooDeep path)
    (hseen : (w.files.readBytes path).toOption.bind Element.ofBytes? = none) :
    let o := (step.run path dryRun).run w
    (∃ stage cause, o.result = .error (.step path.toText stage cause)) ∧ o.state = w := by
  intro o
  rcases hload : Document.load w.files path with f | d
  · obtain ⟨hr, hs⟩ := run_of_unreadable step dryRun hload
    obtain ⟨stage, cause, hf⟩ :=
      run_fails_as_step hdeep (fun d log hd => nomatch hload.symm.trans hd) hr
    exact ⟨⟨stage, cause, hf ▸ hr⟩, hs⟩
  · obtain ⟨bytes, hread, hroot⟩ := Document.bytes_of_load hload
    rw [hread] at hseen
    cases hroot.symm.trans hseen

section Found

variable {step : AssignmentStep} {path : Path} {w : Workplace} {d : Document} {labels : List Text}
  {bytes : Bytes} (hload : Document.load w.files path = .ok d)
  (hfound : ∀ log, (step.classified d (LogKeeper.keep log w)).result = .ok labels)
  (hlogged : ∀ d (w : Workplace), Files.Logged w.files (step.classified d w).state.files)
include hload hfound hlogged

/-- A dry run answers, and changes nothing of the files but the log. -/
theorem run_found_dry : ((step.run path true).run w).result = .ok (step.answerOf d labels false) ∧
    Files.Logged w.files ((step.run path true).run w).state.files := by
  rcases step.run_cases path true w with ⟨f, hl, -, -⟩ | ⟨d', log, found, hl, rfl,
    ⟨f, hc, -, -⟩ | ⟨labels', hc, ⟨-, hr, more, hs⟩ | ⟨hdry, -⟩ | ⟨hdry, -⟩⟩⟩
  · cases hload.symm.trans hl
  · obtain rfl := Except.ok.inj (hload.symm.trans hl)
    cases (hfound log).symm.trans hc
  · obtain rfl := Except.ok.inj (hload.symm.trans hl)
    obtain rfl := Except.ok.inj ((hfound log).symm.trans hc)
    rw [hs]
    exact ⟨hr, (Files.Logged.trans ⟨log, rfl⟩ (hlogged d (LogKeeper.keep log w))).keep more⟩
  · cases hdry
  · cases hdry

/-- A run that is not dry writes what is found after some log records, and ends after some more. It
answers if that was written and fails if not. -/
theorem run_found : ∃ log more,
    let written := (step.changed d labels).write.run (LogKeeper.keep log w.files)
    let o := (step.run path false).run w
    (written.result = .ok () → o.result = .ok (step.answerOf d labels true)) ∧
    ((∃ f, written.result = .error f) → ∃ f, o.result = .error f) ∧
    o.state.files = LogKeeper.keep more written.state := by
  rcases step.run_cases path false w with ⟨f, hl, -, -⟩ | ⟨d', log, found, hl, rfl,
    ⟨f, hc, -, -⟩ | ⟨labels', hc, ⟨hdry, -⟩ | ⟨-, f, hw, hr, hs⟩ | ⟨-, hw, hr, more, hs⟩⟩⟩
  · cases hload.symm.trans hl
  · obtain rfl := Except.ok.inj (hload.symm.trans hl)
    cases (hfound log).symm.trans hc
  · cases hdry
  · obtain rfl := Except.ok.inj (hload.symm.trans hl)
    obtain rfl := Except.ok.inj ((hfound log).symm.trans hc)
    obtain ⟨all, hall⟩ := Files.Logged.trans ⟨log, rfl⟩ (hlogged d (LogKeeper.keep log w))
    rw [written_result, hall] at hw
    refine ⟨all, [], (fun hok => nomatch hw.symm.trans hok), fun _ => ⟨_, hr⟩, ?_⟩
    rw [hs, Files.keep_nil, ← hall]
    rfl
  · obtain rfl := Except.ok.inj (hload.symm.trans hl)
    obtain rfl := Except.ok.inj ((hfound log).symm.trans hc)
    obtain ⟨all, hall⟩ := Files.Logged.trans ⟨log, rfl⟩ (hlogged d (LogKeeper.keep log w))
    rw [written_result, hall] at hw
    refine ⟨all, more, fun _ => hr, (fun ⟨f, hf⟩ => nomatch hw.symm.trans hf), ?_⟩
    rw [hs, ← hall]
    rfl

/-- A run reaches no further than the document. -/
theorem run_found_grown : Files.Grown (w.files.reach path) w.files
    ((step.run path false).run w).state.files := by
  obtain ⟨log, more, -, -, hs⟩ := run_found hload hfound hlogged
  obtain ⟨rfl, -⟩ := Document.load_ok hload
  obtain ⟨n, hnode⟩ := Document.nodeAt_of_load hload
  -- Only log records are made before and after the writing.
  have hbefore : Files.Grown ∅ w.files (LogKeeper.keep log w.files) := .keep ∅ log w.files
  obtain ⟨n', hnode'⟩ := hbefore.nodeAt hnode
  have hwritten := Document.write_grown (d := step.changed d labels) hnode'
  have hreach : (LogKeeper.keep log w.files : Files).reach d.path ⊆ w.files.reach d.path :=
    hbefore.reach_subset fun q _ => Set.notMem_empty q
  rw [hs]
  exact ((hbefore.mono (Set.empty_subset _)).trans (hwritten.mono hreach)).trans (.keep _ more _)

/-- A run brings at most an empty temporary file. -/
theorem run_found_fresh : Files.Fresh w.files ((step.run path false).run w).state.files := by
  obtain ⟨log, more, -, -, hs⟩ := run_found hload hfound hlogged
  obtain ⟨rfl, -⟩ := Document.load_ok hload
  obtain ⟨n, hnode⟩ := Document.nodeAt_of_load hload
  obtain ⟨n', hnode'⟩ := (Files.Grown.keep ∅ log w.files).nodeAt hnode
  have hwritten := Document.write_fresh (d := step.changed d labels) hnode'
  rw [hs]
  exact Files.Fresh.of_keep (hwritten.within (Document.write_within (step.changed d labels) _)
    (.keep ∅ more _) fun p hp => absurd hp (Set.notMem_empty p))

/-- A run answers if a temporary file can be made beside the document and the text to be written has
bytes, which the document holds then; in any other case it fails as a step. -/
theorem run_found_result :
    let o := (step.run path false).run w
    (w.files.hasTemporary path = true → ∀ bytes,
      Utf8.encode (step.changed d labels).root.render = .ok bytes →
      o.result = .ok (step.answerOf d labels true) ∧ o.state.files.readBytes path = .ok bytes) ∧
    ((w.files.hasTemporary path = false ∨
      ∃ run, Utf8.encode (step.changed d labels).root.render = .error run) →
      ∃ stage cause, o.result = .error (.step path.toText stage cause)) := by
  intro o
  obtain ⟨log, more, hwritten, hunwritten, hs⟩ := run_found hload hfound hlogged
  obtain ⟨rfl, v, hv, -⟩ := Document.load_ok hload
  obtain ⟨old, hold⟩ := Files.readBytes_of_readJson hv
  obtain ⟨old', hold'⟩ := Files.readBytes_keep_ok log hold
  have hiff := Document.write_ok_iff (d := step.changed d labels) hold'
  have hbeside : (LogKeeper.keep log w.files : Files).hasTemporary d.path = w.files.hasTemporary d.path :=
    (Files.Within.keep ∅ log w.files).hasTemporary fun q _ => (Files.node?_keep_directory log q).1
  rw [show (step.changed d labels).path = d.path from rfl, hbeside] at hiff
  constructor
  · intro htemporary bytes he
    have hok := hiff.mpr ⟨htemporary, bytes, he⟩
    obtain ⟨bytes', he', hread, hlog, -⟩ := Document.write_ok hok
    obtain rfl := Except.ok.inj (he.symm.trans he')
    refine ⟨hwritten hok, ?_⟩
    rw [hs]
    exact (Files.readBytes_keep more hlog).trans hread
  · intro hcannot
    have hfails : ∃ f, ((step.changed d labels).write.run (LogKeeper.keep log w.files)).result =
        .error f := by
      rcases hresult : ((step.changed d labels).write.run (LogKeeper.keep log w.files)).result with f | u
      · exact ⟨f, rfl⟩
      · obtain ⟨htemporary, bytes, he⟩ := hiff.mp hresult
        rcases hcannot with hfalse | ⟨run, hrun⟩
        · cases htemporary.symm.trans hfalse
        · cases he.symm.trans hrun
    obtain ⟨f, hf⟩ := hunwritten hfails
    have hstep (d' : Document) (log : Log) (hd : Document.load w.files d.path = .ok d') :
        FailsOnly [.os, .value, .key] (step.classified d' (LogKeeper.keep log w)).result := by
      obtain rfl := Except.ok.inj (hload.symm.trans hd)
      rw [hfound log]
      exact failsOnly_ok _ labels
    -- The document was loaded, so that it is not nested too deeply.
    obtain ⟨stage, cause, rfl⟩ := run_fails_as_step (Files.notTooDeep_of_readJson hv) hstep hf
    exact ⟨stage, cause, hf⟩

end Found

end AssignmentStep

/-! ### The labels of a title -/

/-- The labels that a policy finds for a title in a vocabulary. -/
def Policy.labelling (p : Policy) (v : Vocabulary) (refusal : Option Text → Option CompileError)
    (subject : Text) : List Text :=
  Classifier.clean (((p.findings v (.new refusal) subject).toOption.getD []).map some)

namespace AssignmentStep

variable {w : Workplace} {path : Path} {refusal : Option Text → Option CompileError} {file : Path}
  {calls : List Engine.Call} {c : Catalogue} {v : Vocabulary} {termsField labelField : Json}
  {workers : Int} {vocabulary titleField classField : Json} {document : Document}

/-- Classifying by a loaded vocabulary finds what a new engine finds for the title, whatever the engine
was asked before. -/
theorem classified_findings (hdesks : w.desks = [⟨⟨file, some c⟩, Engine.after refusal calls⟩])
    (hv : c.find vocabulary = .ok v) (document : Document) :
    ((byVocabulary termsField labelField workers vocabulary titleField classField).classified document
      w).result = ((Policy.new termsField labelField workers).findings v (.new refusal)
        (document.logical.subject titleField)).map fun found => Classifier.clean (found.map some) := by
  obtain ⟨hsound, hrefusal⟩ := Engine.after_sound refusal calls
  obtain ⟨hnew, hnewRefusal⟩ := Engine.after_sound refusal []
  obtain ⟨hresult, -⟩ := classified_run hdesks rfl hv (Policy.new termsField labelField workers)
    classField document
  have hagree := (Policy.new termsField labelField workers).findings_agree v hsound hnew
    (hrefusal.trans hnewRefusal.symm) (document.logical.subject titleField)
  exact hresult.trans (congrArg (Except.map _) hagree)

/-- Where both fields can be keys it finds the labels of the title. -/
theorem classified_labelling (hdesks : w.desks = [⟨⟨file, some c⟩, Engine.after refusal calls⟩])
    (hv : c.find vocabulary = .ok v) (hterms : termsField.IsKey) (hlabel : labelField.IsKey) :
    ((byVocabulary termsField labelField workers vocabulary titleField classField).classified document
      w).result = .ok ((Policy.new termsField labelField workers).labelling v refusal
        (document.logical.subject titleField)) := by
  have hworkers := Policy.new_workers_pos termsField labelField workers
  obtain ⟨hnew, -⟩ := Engine.after_sound refusal []
  have htotal : ∃ found, (Policy.new termsField labelField workers).findings v (.new refusal)
      (document.logical.subject titleField) = .ok found := by
    unfold Policy.findings
    split
    · exact ⟨[], rfl⟩
    · exact Policy.assignRecords_total hterms hlabel hworkers hnew v.records _
  obtain ⟨found, hfound⟩ := htotal
  unfold Policy.labelling
  rw [classified_findings hdesks hv document, hfound]
  rfl

end AssignmentStep

end TitleClasses
