import TitleClasses.Assignment.Step
import TitleClasses.Proofs.Document.RoundTrip
import TitleClasses.Proofs.Text.Distinct

/-!
# What a step does

A step that is carried out reads, classifies and writes. `run_cases` says all that it can do, whatever
its strategies do, and what it leaves behind in each case. From that follows what a successful step has
written.
-/

namespace TitleClasses

theorem Except.eq_ok_of_toOption {ε α : Type} {x : Except ε α} {y : α} (h : x.toOption = some y) :
    x = .ok y := by
  cases x with
  | error e => cases h
  | ok x => exact congrArg Except.ok (Option.some.inj h)

/-- What a stage tells of a fault. -/
def Stage.told (s : Stage) (path : Path) (f : Fault) : Fault :=
  if s.contains f.family then .step path.toText s f else f

namespace AssignmentStep

/-! ### Stages -/

section Stage

variable {σ α : Type} (path : Path) (s : Stage) {a : Action σ α} {x : σ}

/-- A stage does what its action does, and tells its faults. -/
theorem stage_run : (stage path s a).run x =
    ⟨(a.run x).result.mapError (s.told path), (a.run x).state, (a.run x).log⟩ := by
  unfold stage
  rw [Action.run_attempt_bind rfl]
  cases (a.run x).result with
  | error f => exact congrArg (Outcome.mk _ _) (List.append_nil _)
  | ok y => exact congrArg (Outcome.mk _ _) (List.append_nil _)

theorem stage_state : ((stage path s a).run x).state = (a.run x).state := by rw [stage_run]

theorem stage_ok {y : α} (h : (a.run x).result = .ok y) :
    ((stage path s a).run x).result = .ok y := by
  rw [stage_run, h]
  rfl

theorem stage_error {f : Fault} (h : (a.run x).result = .error f) :
    ((stage path s a).run x).result = .error (s.told path f) := by
  rw [stage_run, h]
  rfl

end Stage

/-! ### The whole step -/

/-- What the strategies of a step find for a document that was read. -/
def classified (step : AssignmentStep) (d : Document) : Workplace → Outcome Workplace (List Text) :=
  (Classifier.classify step.strategies d.logical).run

/-- What a step writes, its labels being known. -/
def changed (step : AssignmentStep) (d : Document) (labels : List Text) : Document :=
  d.updateLogical fun e => e.replaceValues step.classField labels

/-- What a step answers, its labels being known. -/
def answerOf (step : AssignmentStep) (d : Document) (labels : List Text) (written : Bool) : StepResult :=
  ⟨d.path, d.logical.subject step.titleField, labels, d.logical.countOf step.classField, written⟩

/-- What writing does, the labels being known. -/
def written (step : AssignmentStep) (d : Document) (labels : List Text) :
    Workplace → Outcome Workplace Unit :=
  (Workplace.onFiles (step.changed d labels).write).run

variable {step : AssignmentStep} {path : Path} {w : Workplace}

/-- A step writes as its document is written. -/
theorem written_result (step : AssignmentStep) (d : Document) (labels : List Text) (w : Workplace) :
    (step.written d labels w).result = ((step.changed d labels).write.run w.files).result := rfl

/-- Writing brings no rows into tables. -/
theorem written_rows (d : Document) (labels : List Text) :
    (step.written d labels w).state.files.rows ⊆ w.files.rows := Document.write_rows

/-- A step on a document that cannot be loaded fails and changes nothing. -/
theorem run_of_unreadable (step : AssignmentStep) (dryRun : Bool) {f : Fault}
    (h : Document.load w.files path = .error f) :
    ((step.run path dryRun).run w).result = .error (Stage.read.told path f) ∧
      ((step.run path dryRun).run w).state = w := by
  have hread : ((Workplace.onFiles (Document.read path)).run w).result = .error f := by
    show ((Document.read path).run w.files).result = _
    rw [Document.read_run_error h]
  unfold run
  rw [Action.run_bind_error (stage_error path .read hread), stage_state]
  refine ⟨rfl, ?_⟩
  show { w with files := ((Document.read path).run w.files).state } = w
  rw [Document.read_run_error h]

section Read

variable {d : Document} {log : Log}
  (hd : (Document.read path).run w.files = ⟨.ok d, LogKeeper.keep log w.files, log⟩)
include hd

theorem read_onFiles : ((Workplace.onFiles (Document.read path)).run w).result = .ok d := by
  show ((Document.read path).run w.files).result = _
  rw [hd]

theorem read_state {t : Stage} :
    ((stage path t (Workplace.onFiles (Document.read path))).run w).state = LogKeeper.keep log w := by
  rw [stage_state]
  show { w with files := ((Document.read path).run w.files).state } = _
  rw [hd]
  rfl

/-- A step whose strategies fail leaves what they leave. -/
theorem run_of_unclassified (dryRun : Bool) {f : Fault}
    (hc : (step.classified d (LogKeeper.keep log w)).result = .error f) :
    ((step.run path dryRun).run w).result = .error (Stage.classify.told path f) ∧
      ((step.run path dryRun).run w).state = (step.classified d (LogKeeper.keep log w)).state := by
  unfold run
  rw [Action.run_bind_ok (stage_ok _ _ (read_onFiles hd)), read_state hd,
    Action.run_bind_error (stage_error path .classify hc), stage_state]
  exact ⟨rfl, rfl⟩

section Classified

variable {labels : List Text} (hp : d.path = path)
  (hc : (step.classified d (LogKeeper.keep log w)).result = .ok labels)
include hp hc

/-- A dry run leaves what its strategies leave, and tells what it has found. -/
theorem run_dry : ∃ more,
    ((step.run path true).run w).result = .ok (step.answerOf d labels false) ∧
      ((step.run path true).run w).state =
        LogKeeper.keep more (step.classified d (LogKeeper.keep log w)).state := by
  subst hp
  unfold run
  rw [Action.run_bind_ok (stage_ok _ _ (read_onFiles hd)), read_state hd,
    Action.run_bind_ok (stage_ok _ _ hc), stage_state]
  exact ⟨_, rfl, rfl⟩

/-- A step that does not run dry goes on to write what it has found, and to tell so. -/
theorem run_writing : ∃ message,
    let o := (stage path .write (Workplace.onFiles (step.changed d labels).write) >>= fun _ =>
      Action.note .info .step message >>= fun _ => pure (step.answerOf d labels true)).run
        (step.classified d (LogKeeper.keep log w)).state
    ((step.run path false).run w).result = o.result ∧ ((step.run path false).run w).state = o.state := by
  subst hp
  unfold run
  rw [Action.run_bind_ok (stage_ok _ _ (read_onFiles hd)), read_state hd,
    Action.run_bind_ok (stage_ok _ _ hc), stage_state]
  exact ⟨_, rfl, rfl⟩

/-- A step that cannot write what it has found fails, and leaves what the writing leaves. -/
theorem run_of_unwritten {f : Fault}
    (hw : (step.written d labels (step.classified d (LogKeeper.keep log w)).state).result = .error f) :
    ((step.run path false).run w).result = .error (Stage.write.told path f) ∧
      ((step.run path false).run w).state =
        (step.written d labels (step.classified d (LogKeeper.keep log w)).state).state := by
  obtain ⟨message, hr, hs⟩ := run_writing hd hp hc
  rw [hr, hs]
  unfold written at hw ⊢
  rw [Action.run_bind_error (stage_error path .write hw), stage_state]
  exact ⟨rfl, rfl⟩

/-- A step that has written what it has found has told so at last. -/
theorem run_of_written
    (hw : (step.written d labels (step.classified d (LogKeeper.keep log w)).state).result = .ok ()) :
    ∃ more, ((step.run path false).run w).result = .ok (step.answerOf d labels true) ∧
      ((step.run path false).run w).state = LogKeeper.keep more
        (step.written d labels (step.classified d (LogKeeper.keep log w)).state).state := by
  obtain ⟨message, hr, hs⟩ := run_writing hd hp hc
  rw [hr, hs]
  unfold written at hw ⊢
  rw [Action.run_bind_ok (stage_ok path .write hw), stage_state]
  exact ⟨_, rfl, rfl⟩

end Classified

end Read

/-- All that a step can do. The document cannot be loaded, and nothing is changed. Or the strategies
run, after the log records of the reading: they fail, and the step leaves what they leave; or they find
labels, and the step runs dry and leaves that; or it leaves what the writing leaves, which has failed or
not. -/
theorem run_cases (step : AssignmentStep) (path : Path) (dryRun : Bool) (w : Workplace) :
    (∃ f, Document.load w.files path = .error f ∧
      ((step.run path dryRun).run w).result = .error (Stage.read.told path f) ∧
      ((step.run path dryRun).run w).state = w) ∨
    ∃ d log found, Document.load w.files path = .ok d ∧
      step.classified d (LogKeeper.keep log w) = found ∧
      ((∃ f, found.result = .error f ∧
        ((step.run path dryRun).run w).result = .error (Stage.classify.told path f) ∧
        ((step.run path dryRun).run w).state = found.state) ∨
      ∃ labels, found.result = .ok labels ∧
        ((dryRun = true ∧
          ((step.run path dryRun).run w).result = .ok (step.answerOf d labels false) ∧
          ∃ more, ((step.run path dryRun).run w).state = LogKeeper.keep more found.state) ∨
        (dryRun = false ∧ ∃ f, (step.written d labels found.state).result = .error f ∧
          ((step.run path dryRun).run w).result = .error (Stage.write.told path f) ∧
          ((step.run path dryRun).run w).state = (step.written d labels found.state).state) ∨
        (dryRun = false ∧ (step.written d labels found.state).result = .ok () ∧
          ((step.run path dryRun).run w).result = .ok (step.answerOf d labels true) ∧
          ∃ more, ((step.run path dryRun).run w).state =
            LogKeeper.keep more (step.written d labels found.state).state))) := by
  rcases hl : Document.load w.files path with f | d
  · exact Or.inl ⟨f, rfl, run_of_unreadable step dryRun hl⟩
  obtain ⟨hp, -⟩ := Document.load_ok hl
  obtain ⟨log, hd⟩ := Document.read_run_ok hl
  refine Or.inr ⟨d, log, _, rfl, rfl, ?_⟩
  rcases hc : (step.classified d (LogKeeper.keep log w)).result with f | labels
  · exact Or.inl ⟨f, rfl, run_of_unclassified hd dryRun hc⟩
  refine Or.inr ⟨labels, rfl, ?_⟩
  cases dryRun with
  | true =>
    obtain ⟨more, hr, hs⟩ := run_dry hd hp hc
    exact Or.inl ⟨rfl, hr, more, hs⟩
  | false =>
    rcases hw : (step.written d labels (step.classified d (LogKeeper.keep log w)).state).result with
      f | u
    · exact Or.inr (Or.inl ⟨rfl, f, rfl, run_of_unwritten hd hp hc hw⟩)
    · obtain ⟨more, hr, hs⟩ := run_of_written hd hp hc hw
      exact Or.inr (Or.inr ⟨rfl, rfl, hr, more, hs⟩)

/-- A step that has answered has read and classified, and tells what was found. -/
theorem of_run_ok {dryRun : Bool} {r : StepResult} (h : ((step.run path dryRun).run w).result = .ok r) :
    ∃ d log labels, Document.load w.files path = .ok d ∧
      (step.classified d (LogKeeper.keep log w)).result = .ok labels ∧
      r = step.answerOf d labels (!dryRun) := by
  rcases step.run_cases path dryRun w with ⟨f, -, hr, -⟩ | ⟨d, log, found, hl, rfl,
    ⟨f, -, hr, -⟩ | ⟨labels, hc, ⟨rfl, hr, -⟩ | ⟨rfl, f, -, hr, -⟩ | ⟨rfl, -, hr, -⟩⟩⟩
  · cases h.symm.trans hr
  · cases h.symm.trans hr
  · exact ⟨d, log, labels, hl, hc, Except.ok.inj (h.symm.trans hr)⟩
  · cases h.symm.trans hr
  · exact ⟨d, log, labels, hl, hc, Except.ok.inj (h.symm.trans hr)⟩

/-! ### What is written -/

/-- The labels of a classification are distinct and in increasing order. -/
theorem sortDistinct_classified {d : Document} {labels : List Text}
    (h : (step.classified d w).result = .ok labels) : Text.sortDistinct labels = labels := by
  unfold classified Classifier.classify at h
  obtain ⟨found, -, hfound⟩ := Action.result_bind_eq_ok.mp h
  rw [Action.run_note_bind] at hfound
  obtain rfl : Classifier.clean found.flatten = labels := Except.ok.inj hfound
  exact Text.sortDistinct_sortDistinct _

/-- What a step changes of a document that was read from a value. -/
theorem toJson_changed (step : AssignmentStep) {d : Document} {v : Json} {labels : List Text}
    (hv : Element.ofJson v = .ok d.root) (hl : Text.sortDistinct labels = labels) :
    (step.changed d labels).root.toJson = v.kept.withClasses step.classField labels := by
  show (d.root.updateLogical fun e => e.replaceValues step.classField labels).toJson = _
  rw [Element.toJson_updateLogical, (Element.toJson_ofJson v d.root hv).1, hl]

/-- What a step writes can be read back if the type of its class entries can. -/
theorem readable_changed (labels : List Text) {d : Document} {v : Json}
    (hv : Element.ofJson v = .ok d.root) (hcf : Json.Readable false step.classField) :
    Json.Readable false (step.changed d labels).root.toJson := by
  have htypes : d.root.AllTypes (Json.Readable false) :=
    (Element.toJson_ofJson v d.root hv).2.mono fun type => by
      rintro ⟨t, rfl⟩
      simp [Json.Readable]
  exact Element.readable_toJson _ (Element.allTypes_updateLogical htypes hcf)

/-- A step that has answered has loaded, classified and written a document, and leaves what the writing
leaves, but for log records. -/
theorem of_run_finished {r : StepResult} (h : ((step.run path false).run w).result = .ok r) :
    ∃ d log labels more, Document.load w.files path = .ok d ∧
      (step.classified d (LogKeeper.keep log w)).result = .ok labels ∧
      r = step.answerOf d labels true ∧
      (step.written d labels (step.classified d (LogKeeper.keep log w)).state).result = .ok () ∧
      ((step.run path false).run w).state = LogKeeper.keep more
        (step.written d labels (step.classified d (LogKeeper.keep log w)).state).state := by
  rcases step.run_cases path false w with ⟨f, -, hr, -⟩ | ⟨d, log, found, hl, rfl,
    ⟨f, -, hr, -⟩ | ⟨labels, hc, ⟨hdry, -⟩ | ⟨-, f, -, hr, -⟩ | ⟨-, hw, hr, more, hs⟩⟩⟩
  · cases h.symm.trans hr
  · cases h.symm.trans hr
  · cases hdry
  · cases h.symm.trans hr
  · exact ⟨d, log, labels, more, hl, hc, Except.ok.inj (h.symm.trans hr), hw, hs⟩

/-- The bytes of the changed document are at the path then. -/
theorem of_run_written {r : StepResult} (h : ((step.run path false).run w).result = .ok r) :
    ∃ d log labels bytes, Document.load w.files path = .ok d ∧
      (step.classified d (LogKeeper.keep log w)).result = .ok labels ∧
      r = step.answerOf d labels true ∧
      Utf8.encode (step.changed d labels).root.render = .ok bytes ∧
      ((step.run path false).run w).state.files.readBytes path = .ok bytes := by
  obtain ⟨d, log, labels, more, hl, hc, hr, hw, hs⟩ := of_run_finished h
  obtain ⟨hp, -⟩ := Document.load_ok hl
  obtain ⟨bytes, he, hread, hlog, -⟩ := Document.write_ok hw
  have hpath : (step.changed d labels).path = path := hp
  rw [hpath] at hread hlog
  refine ⟨d, log, labels, bytes, hl, hc, hr, he, ?_⟩
  rw [hs]
  exact (Files.readBytes_keep more hlog).trans hread

/-- A step that has answered has put the bytes of the changed document at its path. -/
theorem written_of_run_ok {r : StepResult} (h : ((step.run path false).run w).result = .ok r) :
    ∃ d v labels bytes, w.files.readJson path = .ok v ∧ Element.ofJson v = .ok d.root ∧
      r = step.answerOf d labels true ∧ Text.sortDistinct labels = labels ∧
      Utf8.encode (step.changed d labels).root.render = .ok bytes ∧
      ((step.run path false).run w).state.files.readBytes path = .ok bytes := by
  obtain ⟨d, log, labels, bytes, hl, hc, hr, he, hread⟩ := of_run_written h
  obtain ⟨-, v, hv, hroot⟩ := Document.load_ok hl
  exact ⟨d, v, labels, bytes, hv, hroot, hr, sortDistinct_classified hc, he, hread⟩

/-- A step that has answered has put at its path the kept part of the value that was there, with the
class entries of the logical element replaced by one for each label. Its text is at the path in any
case; the value is read from there again if the type of class entries can be read back and the value is
not nested too deeply to be read. -/
theorem run_writes_withClasses {r : StepResult} (h : ((step.run path false).run w).result = .ok r) :
    ∃ v bytes, w.files.readJson path = .ok v ∧
      Utf8.encode ((v.kept.withClasses step.classField r.labels).write .document) = .ok bytes ∧
      ((step.run path false).run w).state.files.readBytes path = .ok bytes ∧
      (Json.Readable false step.classField →
        (v.kept.withClasses step.classField r.labels).nesting ≤ Json.maxDepth →
        ((step.run path false).run w).state.files.readJson path =
          .ok (v.kept.withClasses step.classField r.labels)) := by
  obtain ⟨d, v, labels, bytes, hv, hroot, rfl, hsorted, he, hbytes⟩ := written_of_run_ok h
  have hjson := toJson_changed step hroot hsorted
  unfold Element.render at he
  rw [hjson] at he
  refine ⟨v, bytes, hv, he, hbytes, fun hcf hdepth => ?_⟩
  have hreadable := readable_changed labels hroot hcf
  rw [hjson] at hreadable
  exact Files.readJson_of_write hbytes he hreadable hdepth

/-! A book with a member that is not kept, and a step with a strategy that always gives one label. -/

/-- The path of the book. -/
def bookPath : Path := ⟨[], ["book"]⟩

/-- A workplace with the book. -/
def bookPlace : Workplace :=
  ⟨⟨[], [(["book"], .file (Utf8.bytesOf
    "\x7b\"type\": \"Book\", \"metadata\": [], \"shelf\": 7\x7d"))], 0, none⟩, []⟩

/-- A step that classifies every element as poetry. -/
def poetryStep : AssignmentStep :=
  ⟨[⟨"poetry", fun _ => Action.answer [some "Poetry"]⟩], .text "Title", .text "Class"⟩

theorem run_poetryStep : ((poetryStep.run bookPath false).run bookPlace).result =
    .ok ⟨bookPath, "", ["Poetry"], 0, true⟩ := by
  apply Except.eq_ok_of_toOption
  unfold bookPlace
  repeat rw [Text.ofString_ofList]
  decide +kernel

/-- What the file of the book holds. -/
def book : Json := .object [("type", .text "Book"), ("metadata", .list []), ("shelf", .int 7)]

theorem readJson_book : bookPlace.files.readJson bookPath = .ok book := by
  apply Except.eq_ok_of_toOption
  unfold bookPlace
  repeat rw [Text.ofString_ofList]
  decide +kernel

theorem run_writes_withClasses_book :
    ((poetryStep.run bookPath false).run bookPlace).result =
        .ok ⟨bookPath, "", ["Poetry"], 0, true⟩ ∧
      ((poetryStep.run bookPath false).run bookPlace).state.files.readJson bookPath =
        .ok (book.kept.withClasses (.text "Class") ["Poetry"]) := by
  refine ⟨run_poetryStep, ?_⟩
  obtain ⟨v, bytes, hv, -, -, hback⟩ := run_writes_withClasses run_poetryStep
  obtain rfl : v = book := Except.ok.inj (hv.symm.trans readJson_book)
  have hreadable : Json.Readable false poetryStep.classField := by
    show Json.Readable false (.text "Class")
    simp [Json.Readable]
  exact hback hreadable (by decide +kernel)

/-- What a step does not know is not kept: the shelf of the book is gone. -/
theorem run_not_only_classes : ¬ ∀ (step : AssignmentStep) (path : Path) (w : Workplace)
    (r : StepResult) (v : Json), ((step.run path false).run w).result = .ok r →
      w.files.readJson path = .ok v →
      ((step.run path false).run w).state.files.readJson path =
        .ok (v.withClasses step.classField r.labels) := by
  intro h
  have hlost : (((poetryStep.run bookPath false).run bookPlace).state.files.readJson
      bookPath).toOption ≠ some (book.withClasses (.text "Class") ["Poetry"]) := by
    unfold bookPlace
    repeat rw [Text.ofString_ofList]
    decide +kernel
  exact hlost (by rw [h _ _ _ _ _ run_poetryStep readJson_book]; rfl)

end AssignmentStep

end TitleClasses
