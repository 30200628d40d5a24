import TitleClasses.Proofs.Assignment.Desk
import TitleClasses.Proofs.Document.Element
import TitleClasses.Proofs.Json.Depth

/-!
# A step on what it has written

What a step has written is read back as it was or not at all (`load_written_iff`). If the step finds the
same labels again, it has nothing to change: the classes are the ones that are there, and the title is
not touched by them. So a second step leaves the bytes that the first one has written, whether it fails
or not (`run_again`).
-/

namespace TitleClasses

open Utf8 (Bytes)

namespace AssignmentStep

variable {step : AssignmentStep} {d : Document} {labels : List Text}

/-! ### What was changed -/

/-- Changing a document again to the same labels changes nothing. -/
theorem changed_changed : step.changed (step.changed d labels) labels = step.changed d labels := by
  show Document.mk d.path _ = Document.mk d.path _
  rw [Document.mk.injEq]
  exact ⟨rfl, Element.updateLogical_updateLogical⟩

/-- The title is not touched by the classes. -/
theorem subject_changed (htf : step.titleField ≠ step.classField) :
    (step.changed d labels).logical.subject step.titleField = d.logical.subject step.titleField := by
  have hlogical : (step.changed d labels).logical = d.logical.replaceValues step.classField labels :=
    Element.logical_updateLogical
  rw [hlogical, Element.subject_replaceValues htf]

/-- A step answers for what it has written as it did, but that there is a class entry for each label. -/
theorem answerOf_changed (htf : step.titleField ≠ step.classField)
    (hsorted : Text.sortDistinct labels = labels) (written : Bool) :
    step.answerOf (step.changed d labels) labels written =
      { step.answerOf d labels written with removed := labels.length } := by
  have hlogical : (step.changed d labels).logical = d.logical.replaceValues step.classField labels :=
    Element.logical_updateLogical
  have hcount : (step.changed d labels).logical.countOf step.classField = labels.length := by
    rw [hlogical, Element.countOf_replaceValues, hsorted]
  unfold answerOf
  rw [subject_changed htf, hcount]
  rfl

/-! ### Loading it again -/

/-- What a step has written is loaded as what it has written, if it is nested no deeper than the reader
goes. -/
theorem load_written_iff {d' : Document} {v : Json} {t : Text} {fs : Files} {path : Path} {bytes : Bytes}
    (hv : Element.ofJson v = .ok d.root) (hcf : step.classField = .text t)
    (he : Utf8.encode (step.changed d labels).root.render = .ok bytes)
    (hr : fs.readBytes path = .ok bytes) :
    Document.load fs path = .ok d' ↔ d' = ⟨path, (step.changed d labels).root⟩ ∧
      (step.changed d labels).root.toJson.nesting ≤ Json.maxDepth := by
  have htexts : (step.changed d labels).root.TextTypes :=
    Element.allTypes_updateLogical (Element.toJson_ofJson v d.root hv).2 ⟨t, hcf⟩
  exact Document.load_rendered_iff htexts he hr

/-! ### A second step -/

/-- A step that finds what another one with the same fields has found leaves the bytes that that one has
written. -/
theorem run_again {step' : AssignmentStep} {path path' : Path} {w w' : Workplace} {r : StepResult}
    {t : Text} {bytes : Bytes} (h : ((step.run path false).run w).result = .ok r)
    (hbytes : ((step.run path false).run w).state.files.readBytes path = .ok bytes)
    (hcf : step.classField = .text t) (htf : step.titleField ≠ step.classField)
    (hcf' : step'.classField = step.classField)
    (hsame : w'.files.readBytes path' = .ok bytes)
    (hlog : ∀ q, w'.files.place path' = .ok q → w'.files.NoLogAt q)
    (hlogged : ∀ d log, Files.Logged w'.files (step'.classified d (LogKeeper.keep log w')).state.files)
    (hlabels : ∀ d log labels, d.logical.subject step.titleField = r.subject →
      (step'.classified d (LogKeeper.keep log w')).result = .ok labels → labels = r.labels)
    (dryRun : Bool) :
    ((step'.run path' dryRun).run w').state.files.readBytes path' = .ok bytes := by
  obtain ⟨d, v, labels, bytes', -, hroot, rfl, -, he, hbytes'⟩ := written_of_run_ok h
  obtain rfl : bytes' = bytes := Except.ok.inj (hbytes'.symm.trans hbytes)
  -- Log records do not reach the document.
  have hkeep {fs : Files} (hfs : Files.Logged w'.files fs) : fs.readBytes path' = .ok bytes' ∧
      ∀ q, fs.place path' = .ok q → fs.NoLogAt q := by
    obtain ⟨log, rfl⟩ := hfs
    refine ⟨(Files.readBytes_keep log hlog).trans hsame, fun q hq => ?_⟩
    rw [Files.place_keep] at hq
    exact Files.noLogAt_keep log (hlog q hq)
  rcases step'.run_cases path' dryRun w' with ⟨f, -, -, hs⟩ | ⟨d', log, found, hl, rfl, hcases⟩
  · rw [hs]
    exact hsame
  obtain ⟨hdocument, -⟩ := (load_written_iff hroot hcf he hsame).mp hl
  have hpath : d'.path = path' := by rw [hdocument]
  have hroot' : d'.root = (step.changed d labels).root := by rw [hdocument]
  have hleft := hkeep (hlogged d' log)
  rcases hcases with ⟨f, -, -, hs⟩ | ⟨labels', hc, hcases⟩
  · rw [hs]
    exact hleft.1
  -- The title is the one that the first step has found, and so are the labels.
  have hsubject : d'.logical.subject step.titleField = d.logical.subject step.titleField := by
    show d'.root.logical.subject step.titleField = _
    rw [hroot']
    exact subject_changed htf
  obtain rfl : labels' = labels := hlabels d' log labels' hsubject hc
  have hchanged : (step'.changed d' labels').root = (step.changed d labels').root := by
    show (d'.root.updateLogical fun e => e.replaceValues step'.classField labels') = _
    rw [hroot', hcf']
    exact Element.updateLogical_updateLogical
  have hwritepath : (step'.changed d' labels').path = path' := hpath
  rcases hcases with ⟨-, -, more, hs⟩ | ⟨-, f, -, -, hs⟩ | ⟨-, hw, -, more, hs⟩
  · rw [hs]
    exact (hkeep ((hlogged d' log).keep more)).1
  · -- A write that has failed has changed nothing, since the text has bytes.
    have hwrite := Document.write_of_bytes (d := step'.changed d' labels')
      (hwritepath.symm ▸ hleft.1) (hchanged.symm ▸ he)
    rw [hwritepath] at hwrite
    rw [hs]
    rcases hwrite with hwrite | hwrite
    · exact (congrArg (Files.readBytes · path') hwrite).trans hleft.1
    · exact hwrite
  · obtain ⟨b, hb, hread, hnolog, -⟩ := Document.write_ok hw
    rw [hwritepath] at hread hnolog
    rw [hchanged, he] at hb
    rw [hs, Except.ok.inj hb]
    exact (Files.readBytes_keep more hnolog).trans hread

/-- A document that a step has written can be written again, when log records are all that came since. -/
theorem written_again {d' : Document} {labels' : List Text} {w w' : Workplace}
    {old bytes : Bytes} {log : Log} (hr : w.files.readBytes d.path = .ok old)
    (hw : (step.written d labels w).result = .ok ()) (hpath : d'.path = d.path)
    (he : Utf8.encode (step.changed d' labels').root.render = .ok bytes)
    (hfiles : w'.files = LogKeeper.keep log (step.written d labels w).state.files) :
    (step.written d' labels' w').result = .ok () := by
  have hread : w.files.readBytes (step.changed d labels).path = .ok old := hr
  have hpaths : (step.changed d' labels').path = (step.changed d labels).path := hpath
  rw [written_result] at hw ⊢
  rw [hfiles]
  exact Document.write_again hread hw hpaths he log

/-- A second step that would find the same labels, in a workplace with the same files, leaves the bytes
that the first one has written. It answers the same, but for the entries it has removed, which are those
of the first one; unless what the first one has written is nested deeper than the reader goes, when it
fails. -/
theorem run_repeated {path : Path} {w : Workplace} {r : StepResult} {t : Text}
    (h : ((step.run path false).run w).result = .ok r) (hcf : step.classField = .text t)
    (htf : step.titleField ≠ step.classField)
    (hlogged : ∀ d log, Files.Logged w.files (step.classified d (LogKeeper.keep log w)).state.files) :
    ∃ (v : Json) (bytes : Bytes), Utf8.encode (v.write .document) = .ok bytes ∧
      ((step.run path false).run w).state.files.readBytes path = .ok bytes ∧
      ∀ w' : Workplace, w'.files = ((step.run path false).run w).state.files →
        (∀ d log, Files.Logged w'.files (step.classified d (LogKeeper.keep log w')).state.files) →
        (∀ d log, d.logical.subject step.titleField = r.subject →
          (step.classified d (LogKeeper.keep log w')).result = .ok r.labels) →
        ((step.run path false).run w').state.files.readBytes path = .ok bytes ∧
        (v.nesting ≤ Json.maxDepth → ((step.run path false).run w').result =
          .ok { r with removed := r.labels.length }) ∧
        (Json.maxDepth < v.nesting → ∃ f, ((step.run path false).run w').result = .error f) := by
  obtain ⟨d, log, labels, more, hl, hc, rfl, hw, hs⟩ := of_run_finished h
  obtain ⟨rfl, v, hv, hroot⟩ := Document.load_ok hl
  have hsorted := sortDistinct_classified hc
  obtain ⟨bytes, he, hread, hlog, -⟩ := Document.write_ok hw
  have hsame : ((step.run d.path false).run w).state.files.readBytes d.path = .ok bytes := by
    rw [hs]
    exact (Files.readBytes_keep more hlog).trans hread
  refine ⟨(step.changed d labels).root.toJson, bytes, he, hsame, fun w' hfiles hlogged' hlabels => ?_⟩
  have hsame' : w'.files.readBytes d.path = .ok bytes := hfiles ▸ hsame
  refine ⟨?_, fun hdepth => ?_, fun hdepth => ?_⟩
  · -- No log is open on what was written.
    have hnolog : ∀ q, w'.files.place d.path = .ok q → w'.files.NoLogAt q := by
      rw [hfiles, hs]
      intro q hq
      exact Files.noLogAt_keep more (hlog q ((Files.place_keep more _).symm.trans hq))
    refine run_again h hsame hcf htf rfl hsame' hnolog hlogged' ?_ false
    intro d' log' labels' hsubject hc'
    exact Except.ok.inj (hc'.symm.trans (hlabels d' log' hsubject))
  · -- The document is loaded as it was written, with the same title.
    have hl' : Document.load w'.files d.path = .ok (step.changed d labels) :=
      (load_written_iff hroot hcf he hsame').mpr ⟨rfl, hdepth⟩
    obtain ⟨log', hd'⟩ := Document.read_run_ok hl'
    have hc' := hlabels (step.changed d labels) log' (subject_changed htf)
    -- It is written as the first step has written it, from files that differ by log records alone.
    obtain ⟨old, hold⟩ : ∃ old,
        (step.classified d (LogKeeper.keep log w)).state.files.readBytes d.path = .ok old := by
      obtain ⟨l, hl⟩ := hlogged d log
      obtain ⟨first, hfirst⟩ := Files.readBytes_of_readJson hv
      rw [hl]
      exact Files.readBytes_keep_ok l hfirst
    have hw' : (step.written (step.changed d labels) labels
        (step.classified (step.changed d labels) (LogKeeper.keep log' w')).state).result = .ok () := by
      obtain ⟨l, hl⟩ := hlogged' (step.changed d labels) log'
      have hleft : w'.files = LogKeeper.keep more (step.written d labels
          (step.classified d (LogKeeper.keep log w)).state).state.files := by
        rw [hfiles, hs]
        rfl
      rw [hleft, Files.keep_keep] at hl
      exact written_again hold hw rfl (changed_changed.symm ▸ he) hl
    obtain ⟨-, hr', -⟩ := run_of_written hd' rfl hc' hw'
    rw [hr']
    exact congrArg Except.ok (answerOf_changed htf hsorted true)
  · -- The document cannot be loaded.
    rcases hl' : Document.load w'.files d.path with f | d'
    · exact ⟨_, (run_of_unreadable step false hl').1⟩
    · obtain ⟨-, hle⟩ := (load_written_iff hroot hcf he hsame').mp hl'
      omega

end AssignmentStep

end TitleClasses
