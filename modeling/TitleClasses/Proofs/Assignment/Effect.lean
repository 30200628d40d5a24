import TitleClasses.Proofs.Assignment.Classifier
import TitleClasses.Proofs.Assignment.Desk
import TitleClasses.Proofs.Assignment.Finding
import TitleClasses.Proofs.Text.Words

/-!
# The effect of a step

What a step with the strategy of a desk returns and writes, told from the document it has read and from
the vocabulary alone (`run_effect`). The parts are told one by one before: how the tree that is written
differs from the one that was read (`Replaced`), and what is left of the labels of a policy when they are
cleaned (`clean_labelsOf`), which is all of them.
-/

namespace TitleClasses

/-! ### The tree -/

/-- Whether an element is the logical one of a tree, and another tree differs from the first only in the
metadata of that element, which are others. -/
inductive Element.Replaced (metadata : List Entry) : (root logical root' : Element) → Prop
  /-- The logical element of an anchor that has children is the first of them. -/
  | volume {root first : Element} {others : List Element} (hanchor : root.anchor = true)
      (hchildren : root.children = first :: others) :
      Replaced metadata root first
        { root with children := { first with metadata := metadata } :: others }
  /-- Any other root is itself the logical element. -/
  | root {root : Element} (h : root.anchor = false ∨ root.children = []) :
      Replaced metadata root root { root with metadata := metadata }

/-- Replacing the values of a type, when they are a set, takes the entries of that type away and adds
those of the values, in order. -/
theorem Element.replaced_updateLogical {root : Element} {type : Json} {values : List Text}
    (h : Text.sortDistinct values = values) :
    Replaced ((root.logical.metadata.filter fun entry => entry.type ≠ type) ++
        values.map fun value => ⟨type, value⟩)
      root root.logical (root.updateLogical fun e => e.replaceValues type values) := by
  have hreplace (e : Element) : e.replaceValues type values = { e with metadata :=
      (e.metadata.filter fun entry => entry.type ≠ type) ++
        (values.map fun value => ⟨type, value⟩) } := by
    unfold replaceValues removeValues
    rw [h]
  obtain ⟨t, anchor, metadata, children⟩ := root
  cases anchor with
  | false =>
    show Replaced _ _ _ (replaceValues _ _ _)
    rw [hreplace]
    exact .root (.inl rfl)
  | true =>
    cases children with
    | nil =>
      show Replaced _ _ _ (replaceValues _ _ _)
      rw [hreplace]
      exact .root (.inr rfl)
    | cons first others =>
      show Replaced _ _ first ⟨t, true, metadata, first.replaceValues type values :: others⟩
      rw [hreplace]
      exact .volume rfl rfl

/-! ### The labels -/

namespace Policy

variable {refusal : Option Text → Option CompileError} {subject : Option Text}

/-- The labels of a policy are clean already: none is blank, and none has white space at its ends. -/
theorem clean_labelsOf (pairs : List RulePair) :
    Classifier.clean ((labelsOf refusal subject pairs).map some) = labelsOf refusal subject pairs := by
  have hstripped : ∀ l ∈ labelsOf refusal subject pairs, l.isBlank = false ∧ l.strip = l := by
    intro l hl
    obtain ⟨rule, label, ⟨-, -, hlabel, -⟩, -, rfl⟩ := mem_labelsOf.mp hl
    exact ⟨by rw [Text.isBlank_strip, hlabel], Text.strip_strip label⟩
  exact Classifier.clean_of_stripped (labelsOf_increasing pairs) hstripped

/-- What a policy has found for a subject in a vocabulary, cleaned: an increasing list of the labels of
the records whose rule compiles and matches, which has none if there is no subject. -/
theorem clean_findings {p : Policy} (hworkers : 0 < p.workers) {v : Vocabulary} {e : Engine}
    {subject : Text} {found : List Text} (hsound : e.Sound) (hrefusal : e.refusal = refusal)
    (h : p.findings v e subject = .ok found) :
    Text.Increasing (Classifier.clean (found.map some)) ∧
      ∀ l, l ∈ Classifier.clean (found.map some) ↔ subject ≠ [] ∧ ∃ record ∈ v.records, ∃ rule label,
        record.Has p.termsField rule ∧ record.Has p.classField label ∧ refusal (some rule) = none ∧
          ruleMatches (some rule) (some subject) ∧ l = label.strip := by
  unfold findings at h
  split_ifs at h with hempty
  · obtain rfl := Except.ok.inj h
    rw [List.isEmpty_iff] at hempty
    exact ⟨List.Pairwise.nil, fun l => by simp [Classifier.clean, Text.sortDistinct, hempty]⟩
  · rw [List.isEmpty_iff] at hempty
    obtain rfl := assignRecords_ok refusal hworkers hsound hrefusal h
    rw [clean_labelsOf]
    refine ⟨labelsOf_increasing _, fun l => ?_⟩
    rw [mem_labelsOf]
    simp only [offers_pairsOf]
    constructor
    · rintro ⟨rule, label, ⟨hc, record, hrecord, hrule, hlabel⟩, hmatch, hl⟩
      exact ⟨hempty, record, hrecord, rule, label, hrule, hlabel, hc, hmatch, hl⟩
    · rintro ⟨-, record, hrecord, rule, label, hrule, hlabel, hc, hmatch, hl⟩
      exact ⟨rule, label, ⟨hc, record, hrecord, hrule, hlabel⟩, hmatch, hl⟩

end Policy

/-! ### The step -/

namespace AssignmentStep

/-- The step that classifies by a vocabulary at the only desk: where the records have their rules and
labels and among how many workers they are dealt out, which vocabulary it is, and where the document has
its title and its classes. -/
def byVocabulary (termsField labelField : Json) (workers : Int)
    (vocabulary titleField classField : Json) : AssignmentStep :=
  ⟨[.ofDesk 0 (Policy.new termsField labelField workers) vocabulary titleField], titleField, classField⟩

/-- What a step has returned and written that has answered. Its subject is the value of the last title
entry of the logical element, or nothing. Its labels are increasing: the class values, stripped, of the
records whose rule matches the subject. It tells how many class entries there were, and at the path of
the document is the text of the tree that was read, in which the metadata of the logical element are the
ones of other types that it had and an entry for each label. -/
theorem run_effect {refusal : Option Text → Option CompileError} {calls : List Engine.Call}
    {file : Path} {c : Catalogue} {v : Vocabulary} {vocabulary termsField labelField : Json}
    {workers : Int} {titleField classField : Json} {path : Path} {w : Workplace} {r : StepResult}
    (hdesks : w.desks = [⟨⟨file, some c⟩, Engine.after refusal calls⟩])
    (hv : c.find vocabulary = .ok v)
    (h : (((byVocabulary termsField labelField workers vocabulary titleField classField).run path
      false).run w).result = .ok r) :
    ∃ d logical root' bytes, Document.load w.files path = .ok d ∧
      Element.Replaced ((logical.metadata.filter fun entry => entry.type ≠ classField) ++
        r.labels.map fun label => ⟨classField, label⟩) d.root logical root' ∧
      r.path = path ∧ r.written = true ∧
      r.subject = (((logical.metadata.filter fun entry => entry.type = titleField).getLast?).map
        Entry.value).getD [] ∧
      Text.Increasing r.labels ∧
      (∀ l, l ∈ r.labels ↔ r.subject ≠ [] ∧ ∃ record ∈ v.records, ∃ rule label,
        record.Has termsField rule ∧ record.Has labelField label ∧ refusal (some rule) = none ∧
          ruleMatches (some rule) (some r.subject) ∧ l = label.strip) ∧
      r.removed = (logical.metadata.filter fun entry => entry.type = classField).length ∧
      Utf8.encode root'.render = .ok bytes ∧
      (((byVocabulary termsField labelField workers vocabulary titleField classField).run path
        false).run w).state.files.readBytes path = .ok bytes := by
  obtain ⟨d, log, labels, bytes, hl, hc, rfl, he, hread⟩ := of_run_written h
  have hsorted := sortDistinct_classified hc
  obtain ⟨hpath, -⟩ := Document.load_ok hl
  -- The strategy is asked in the workplace as it was, but for the log records of the reading.
  have hdesks' : (LogKeeper.keep log w : Workplace).desks =
      [⟨⟨file, some c⟩, Engine.after refusal calls⟩] := hdesks
  have hfound : ((byVocabulary termsField labelField workers vocabulary titleField
      classField).classified d (LogKeeper.keep log w)).result =
        ((Policy.new termsField labelField workers).findings v (Engine.after refusal calls)
          (d.logical.subject titleField)).map fun found => Classifier.clean (found.map some) :=
    (classified_run hdesks' rfl hv _ classField d).1
  rw [hc] at hfound
  obtain ⟨hsound, hrefusal⟩ := Engine.after_sound refusal calls
  have hworkers := Policy.new_workers_pos termsField labelField workers
  rcases hfindings : (Policy.new termsField labelField workers).findings v
    (Engine.after refusal calls) (d.logical.subject titleField) with f | found
  · rw [hfindings] at hfound
    cases hfound
  rw [hfindings] at hfound
  obtain rfl := Except.ok.inj hfound
  obtain ⟨hincreasing, hmem⟩ := Policy.clean_findings hworkers hsound hrefusal hfindings
  refine ⟨d, d.root.logical, _, bytes, hl, Element.replaced_updateLogical hsorted, hpath, rfl, ?_,
    hincreasing, hmem, rfl, he, hread⟩
  show ((d.root.logical.metadata.filter _).map Entry.value).getLast?.getD [] = _
  rw [List.getLast?_map]
  rfl

/-! A volume of a series, about the sea, with a class entry from before; and a vocabulary with a record
about the sea and one about the sky. -/

/-- The path of the series. -/
def seriesPath : Path := ⟨[], ["series"]⟩

/-- What is about the sea is about nature. -/
def subjects : Vocabulary :=
  ⟨.text "subjects", [⟨"1", [("terms", "sea"), ("class", " Nature ")]⟩,
    ⟨"2", [("terms", "sky"), ("class", "Air")]⟩]⟩

/-- A workplace with the series, where the vocabulary is loaded. -/
def seriesPlace : Workplace where
  files := ⟨[], [(["series"], .file (Utf8.bytesOf
    ("\x7b\"type\": \"Series\", \"anchor\": true, \"children\": [\x7b\"type\": \"Volume\", " ++
      "\"metadata\": [\x7b\"type\": \"Class\", \"value\": \"Old\"\x7d, " ++
        "\x7b\"type\": \"Title\", \"value\": \"The sea\"\x7d]\x7d]\x7d" : String)))], 0, none⟩
  desks := [⟨⟨⟨[], ["vocabularies"]⟩, some [(.text "subjects", subjects)]⟩,
    .after (fun _ => none) []⟩]

/-- A step that classifies by the vocabulary, with classes in the metadata of a type. -/
def subjectStep (classField : Json) : AssignmentStep :=
  byVocabulary (.text "terms") (.text "class") 1 (.text "subjects") (.text "Title") classField

theorem find_subjects : Catalogue.find [(.text "subjects", subjects)] (.text "subjects") = .ok subjects :=
  rfl

theorem run_series : (((subjectStep (.text "Class")).run seriesPath false).run seriesPlace).result =
    .ok ⟨seriesPath, "The sea", ["Nature"], 1, true⟩ := by
  apply Except.eq_ok_of_toOption
  unfold seriesPlace
  simp only [Text.ofString_append]
  repeat rw [Text.ofString_ofList]
  decide +kernel

theorem run_effect_series :
    (((subjectStep (.text "Class")).run seriesPath false).run seriesPlace).result =
        .ok ⟨seriesPath, "The sea", ["Nature"], 1, true⟩ ∧
      ∃ d logical root' bytes, Document.load seriesPlace.files seriesPath = .ok d ∧
        Element.Replaced ((logical.metadata.filter fun entry => entry.type ≠ .text "Class") ++
          [⟨.text "Class", "Nature"⟩]) d.root logical root' ∧
        Utf8.encode root'.render = .ok bytes ∧
        (((subjectStep (.text "Class")).run seriesPath false).run
          seriesPlace).state.files.readBytes seriesPath = .ok bytes := by
  have hrun := run_series
  have hdesks : seriesPlace.desks = [⟨⟨⟨[], ["vocabularies"]⟩, some [(.text "subjects", subjects)]⟩,
    Engine.after (fun _ => none) []⟩] := rfl
  unfold subjectStep at *
  obtain ⟨d, logical, root', bytes, hl, hreplaced, -, -, -, -, -, -, he, hread⟩ :=
    run_effect hdesks find_subjects hrun
  exact ⟨hrun, d, logical, root', bytes, hl, hreplaced, he, hread⟩

end AssignmentStep

end TitleClasses
