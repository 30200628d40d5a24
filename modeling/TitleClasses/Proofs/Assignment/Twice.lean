import TitleClasses.Proofs.Assignment.Effect
import TitleClasses.Proofs.Assignment.Repeated

/-!
# Running a step twice

A step that classifies by a vocabulary and has succeeded is run again, in the workplace it has left or in
another one with the same files and the same vocabulary. The file stays as the first run has written it,
and the second run finds and reports the same, provided that the type of class entries is a text and that
what the first run has written is nested no deeper than the reader goes (`run_twice`). Neither can be
left out (`not_repeats`).
-/

namespace TitleClasses

/-! ### Desks with the same vocabulary -/

/-- Whether a desk gives the records of a vocabulary for a name, from its file or from what is loaded of
it, whatever log records are made meanwhile. -/
def Desk.Offers (d : Desk) (fs : Files) (name : Json) (v : Vocabulary) : Prop :=
  ∀ log, ((VocabularyFile.records (LogKeeper.keep log fs) name).run d.vocabulary).result = .ok v.records

/-- A desk at which a catalogue is loaded gives the records in it. -/
theorem Desk.offers_of_loaded {d : Desk} {c : Catalogue} {name : Json} {v : Vocabulary}
    (hc : d.vocabulary.loaded = some c) (hv : c.find name = .ok v) (fs : Files) :
    d.Offers fs name v := by
  intro log
  rw [VocabularyFile.records_run hc _ hv]

/-- A file that has given records has them loaded, and gives them again. -/
theorem VocabularyFile.loaded_of_records {f : VocabularyFile} {fs : Files} {name : Json}
    {records : List Record} (h : ((VocabularyFile.records fs name).run f).result = .ok records) :
    ∃ c v, ((VocabularyFile.records fs name).run f).state.loaded = some c ∧ c.find name = .ok v ∧
      v.records = records := by
  unfold VocabularyFile.records at h ⊢
  rw [Action.run_map] at h ⊢
  rcases hfind : ((find fs name).run f).result with e | v
  · rw [hfind] at h
    cases h
  rw [hfind] at h
  obtain ⟨c, hc, hv⟩ := (find_state f fs name).2 v hfind
  exact ⟨c, v, hc, hv, Except.ok.inj h⟩

/-! ### Ready for a second run -/

namespace AssignmentStep

open Document (partsPath)
open Element (parts)

/-- Whether a workplace is ready for a step that finds a subject: its only desk has an engine that refuses
certain rules, and gives the records of a vocabulary, which it is asked for if there is a subject. -/
structure Ready (refusal : Option Text → Option CompileError) (v : Vocabulary) (vocabulary : Json)
    (subject : Text) (w : Workplace) (d : Desk) : Prop where
  desks : w.desks = [d]
  sound : d.engine.Sound
  refusal : d.engine.refusal = refusal
  offers : subject ≠ [] → d.Offers w.files vocabulary v

variable {refusal : Option Text → Option CompileError} {d : Desk} {v : Vocabulary}
  {vocabulary termsField labelField titleField classField : Json} {workers : Int} {path : Path}
  {w : Workplace} {r : StepResult}

/-- A step that has answered in a workplace that was ready for it has found what its policy finds, and
leaves the workplace ready. -/
theorem Ready.of_run (hready : Ready refusal v vocabulary r.subject w d)
    (h : (((byVocabulary termsField labelField workers vocabulary titleField classField).run path
      false).run w).result = .ok r) :
    (∃ found, (Policy.new termsField labelField workers).findings v d.engine r.subject = .ok found ∧
      r.labels = Classifier.clean (found.map some)) ∧
    ∃ d', Ready refusal v vocabulary r.subject (((byVocabulary termsField labelField workers vocabulary
      titleField classField).run path false).run w).state d' := by
  obtain ⟨document, log, labels, more, -, hc, rfl, -, hs⟩ := of_run_finished h
  -- The vocabulary is asked only if there is a title, and then it has the records.
  have hoffers (hne : document.logical.subject titleField ≠ []) := hready.offers hne log
  obtain ⟨hresult, calls, hdesks⟩ := classified_of_records (w := LogKeeper.keep log w) hready.desks
    hoffers (Policy.new termsField labelField workers) classField
  constructor
  · have hfound : Except.ok labels = _ := hc.symm.trans hresult
    rcases hf : (Policy.new termsField labelField workers).findings v d.engine
      (document.logical.subject titleField) with f | found
    · rw [hf] at hfound
      cases hfound
    · rw [hf] at hfound
      exact ⟨found, hf, Except.ok.inj hfound⟩
  · obtain ⟨hsound, hrefusal⟩ := Engine.foldl_sound hready.sound calls
    rw [hs]
    refine ⟨_, hdesks, hsound, hrefusal.trans hready.refusal, fun hne => ?_⟩
    -- What the file was asked for it has loaded.
    obtain ⟨c, v', hc', hv', hrecords⟩ := VocabularyFile.loaded_of_records (hoffers hne)
    have hne' : (document.logical.subject titleField).isEmpty = false :=
      (List.isEmpty_eq_false_iff).mpr hne
    rw [hne']
    intro log'
    have hagain := Desk.offers_of_loaded (d := ⟨_, calls.foldl Engine.Call.effect d.engine⟩) hc' hv'
    exact (hagain _ log').trans (congrArg Except.ok hrecords)

/-- A step finds in a workplace that is ready what the policy finds with any sound engine. -/
theorem Ready.classified (hready : Ready refusal v vocabulary r.subject w d) {e : Engine}
    (he : e.Sound) (hr : e.refusal = refusal) {found : List Text}
    (hfound : (Policy.new termsField labelField workers).findings v e r.subject = .ok found)
    {document : Document} (hsubject : document.logical.subject titleField = r.subject) (log : Log) :
    ((byVocabulary termsField labelField workers vocabulary titleField classField).classified document
      (LogKeeper.keep log w)).result = .ok (Classifier.clean (found.map some)) := by
  have hoffers (hne : document.logical.subject titleField ≠ []) :=
    hready.offers (hsubject ▸ hne) log
  obtain ⟨hresult, -⟩ := classified_of_records (w := LogKeeper.keep log w) hready.desks hoffers
    (Policy.new termsField labelField workers) classField
  refine hresult.trans ?_
  rw [hsubject, Policy.findings_agree _ v hready.sound he (hready.refusal.trans hr.symm), hfound]
  rfl

/-! ### Two runs -/

/-- A step that classifies by a vocabulary and has succeeded leaves bytes which a second run of it leaves
as they are: in the workplace as it was left, or in any one with the same files whose desk gives the same
records and has an engine that refuses the same rules. The second run reports the same, but that it has
removed as many entries as there are labels; unless the value in the file is nested deeper than the
reader goes, when it fails. -/
theorem run_twice {calls : List Engine.Call} {t : Text} (htitle : titleField ≠ .text t)
    (hdesks : w.desks = [d]) (hengine : d.engine = Engine.after refusal calls)
    (hoffers : d.Offers w.files vocabulary v)
    (h : (((byVocabulary termsField labelField workers vocabulary titleField (.text t)).run path
      false).run w).result = .ok r) :
    let step := byVocabulary termsField labelField workers vocabulary titleField (.text t)
    let left := ((step.run path false).run w).state
    ∃ (written : Json) (bytes : Utf8.Bytes), Utf8.encode (written.write .document) = .ok bytes ∧
      left.files.readBytes path = .ok bytes ∧
      ∀ w', (w' = left ∨ (w'.files = left.files ∧ ∃ d' calls', w'.desks = [d'] ∧
          d'.engine = Engine.after refusal calls' ∧ d'.Offers w'.files vocabulary v)) →
        let again := (step.run path false).run w'
        again.state.files.readBytes path = .ok bytes ∧
        (written.nesting ≤ Json.maxDepth → again.result = .ok { r with removed := r.labels.length }) ∧
        (Json.maxDepth < written.nesting → ∃ f, again.result = .error f) := by
  obtain ⟨hsound, hrefusal⟩ := Engine.after_sound refusal calls
  rw [← hengine] at hsound hrefusal
  have hready : Ready refusal v vocabulary r.subject w d := ⟨hdesks, hsound, hrefusal, fun _ => hoffers⟩
  obtain ⟨⟨found, hfound, hlabels⟩, hleft⟩ := hready.of_run h
  have hlogged (w : Workplace) (d : Document) (log : Log) :=
    Files.Logged.trans (⟨log, rfl⟩ : Files.Logged w.files (LogKeeper.keep log w.files))
      (classified_logged (Policy.new termsField labelField workers) vocabulary titleField (.text t) d
        (LogKeeper.keep log w))
  obtain ⟨written, bytes, he, hread, hagain⟩ := run_repeated h rfl htitle (hlogged w)
  refine ⟨written, bytes, he, hread, fun w' hw' => ?_⟩
  -- Either workplace is ready.
  obtain ⟨hfiles, d', hready'⟩ : w'.files = (((byVocabulary termsField labelField workers vocabulary
      titleField (.text t)).run path false).run w).state.files ∧
        ∃ d', Ready refusal v vocabulary r.subject w' d' := by
    rcases hw' with rfl | ⟨hfiles, d', calls', hdesks', hengine', hoffers'⟩
    · exact ⟨rfl, hleft⟩
    · obtain ⟨hsound', hrefusal'⟩ := Engine.after_sound refusal calls'
      rw [← hengine'] at hsound' hrefusal'
      exact ⟨hfiles, d', hdesks', hsound', hrefusal', fun _ => hoffers'⟩
  refine hagain w' hfiles (hlogged w') fun document log hsubject => ?_
  rw [hlabels]
  exact hready'.classified hsound hrefusal hfound hsubject log

theorem run_twice_series :
    (((subjectStep (.text "Class")).run seriesPath false).run seriesPlace).result =
        .ok ⟨seriesPath, "The sea", ["Nature"], 1, true⟩ ∧
      ∃ (written : Json) (bytes : Utf8.Bytes), Utf8.encode (written.write .document) = .ok bytes ∧
        (written.nesting ≤ Json.maxDepth →
          (((subjectStep (.text "Class")).run seriesPath false).run
            (((subjectStep (.text "Class")).run seriesPath false).run seriesPlace).state).result =
              .ok ⟨seriesPath, "The sea", ["Nature"], 1, true⟩) := by
  have hrun := run_series
  have htitle : Json.text "Title" ≠ .text "Class" := by decide
  unfold subjectStep at *
  obtain ⟨written, bytes, he, -, hagain⟩ := run_twice htitle rfl rfl
    (Desk.offers_of_loaded rfl find_subjects seriesPlace.files) hrun
  obtain ⟨-, hok, -⟩ := hagain _ (.inl rfl)
  exact ⟨hrun, written, bytes, he, hok⟩

/-! ### What cannot be left out -/

/-- Whether every step that classifies by a vocabulary, has its classes in entries of a type and its title
elsewhere repeats itself where it has succeeded: it succeeds again, reports the same and as many removed
entries as there are labels, and leaves the bytes as they are. -/
def Repeats (classField : Json) : Prop :=
  ∀ {refusal : Option Text → Option CompileError} {calls : List Engine.Call} {d : Desk} {v : Vocabulary}
    {vocabulary termsField labelField titleField : Json} {workers : Int} {path : Path} {w : Workplace}
    {r : StepResult}, titleField ≠ classField → w.desks = [d] → d.engine = Engine.after refusal calls →
      d.Offers w.files vocabulary v →
      (((byVocabulary termsField labelField workers vocabulary titleField classField).run path
        false).run w).result = .ok r →
      let step := byVocabulary termsField labelField workers vocabulary titleField classField
      let left := ((step.run path false).run w).state
      ((step.run path false).run left).result = .ok { r with removed := r.labels.length } ∧
        ((step.run path false).run left).state.files.readBytes path = left.files.readBytes path

/-- A value for parts in parts, none of which has a list of metadata. -/
def partsJson : Nat → Json
  | 0 => .object [("type", .text "Part")]
  | n + 1 => .object [("type", .text "Part"), ("children", .list [partsJson n])]

theorem nesting_partsJson (n : Nat) : (partsJson n).nesting = 2 * n + 1 := by
  induction n with
  | zero => rfl
  | succ n ih =>
    simp only [partsJson, Json.nesting, Json.nestingMembers, Json.nestingItems, ih]
    omega

theorem readable_partsJson (n : Nat) : Json.Readable true (partsJson n) := by
  have hkey (s : String) : (s : Text).Unpaired := Text.unpaired_of_encodable (Utf8.encodable_ofString s)
  induction n with
  | zero => simp [partsJson, Json.Readable, Json.ReadableMembers, hkey]
  | succ n ih =>
    have hkeys : (("type" : Text)) ≠ "children" := by decide
    simp [partsJson, Json.Readable, Json.ReadableMembers, Json.ReadableItems, hkey, ih, hkeys]

theorem ofJson_partsJson (n : Nat) : Element.ofJson (partsJson n) = .ok (parts n) := by
  induction n with
  | zero => rfl
  | succ n ih =>
    have hchildren : Element.childrenIn [("type", .text "Part"), ("children", .list [partsJson n])] =
        .ok [parts n] := by
      show (do
        let e ← Element.ofJson (partsJson n)
        let es ← Element.elementsOf []
        return e :: es) = _
      rw [ih]
      rfl
    show (do
      let children ← Element.childrenIn [("type", .text "Part"), ("children", .list [partsJson n])]
      return (⟨"Part", false, [], children⟩ : Element)) = _
    rw [hchildren]
    rfl

/-- A workplace with parts in parts on one line, where the vocabulary is loaded. -/
def partsPlace (n : Nat) : Workplace where
  files := ⟨[], [(["parts"], .file (Utf8.bytesOf ((partsJson n).write .line)))], 0, none⟩
  desks := seriesPlace.desks

/-- Without a title there are no labels, and the elements stay as they are. -/
theorem changed_parts (classField : Json) (n : Nat) :
    ((subjectStep classField).changed ⟨partsPath, parts n⟩ []).root = parts n := by
  cases n <;> rfl

theorem load_parts {n : Nat} (h : 2 * n + 1 ≤ Json.maxDepth) :
    Document.load (partsPlace n).files partsPath = .ok ⟨partsPath, parts n⟩ := by
  have hencode : Utf8.encode ((partsJson n).write .line) = .ok (Utf8.bytesOf ((partsJson n).write .line)) :=
    Utf8.encode_eq_ok_iff.mpr ⟨Json.write_encodable rfl (readable_partsJson n), rfl⟩
  have hread : (partsPlace n).files.readBytes partsPath =
      .ok (Utf8.bytesOf ((partsJson n).write .line)) := rfl
  exact Document.load_of_readJson (Files.readJson_of_write hread hencode (readable_partsJson n)
    (nesting_partsJson n ▸ h)) (ofJson_partsJson n)

/-- A step on parts in parts finds no title and so no labels, and writes them if they can be read. -/
theorem run_parts {n : Nat} (h : 2 * n + 1 ≤ Json.maxDepth) (classField : Json) :
    (((subjectStep classField).run partsPath false).run (partsPlace n)).result =
      .ok ⟨partsPath, [], [], 0, true⟩ := by
  obtain ⟨log, hd⟩ := Document.read_run_ok (load_parts h)
  obtain ⟨hresult, ⟨more, hfiles⟩, -⟩ := @classified_run (LogKeeper.keep log (partsPlace n)) _ subjects
    (.text "subjects") (.text "Title") _ rfl rfl find_subjects
    (Policy.new (.text "terms") (.text "class") 1) classField ⟨partsPath, parts n⟩
  have hsubject : (Document.mk partsPath (parts n)).logical.subject (.text "Title") = [] := by
    cases n <;> rfl
  have hcount : (Document.mk partsPath (parts n)).logical.countOf classField = 0 := by
    cases n <;> rfl
  rw [hsubject] at hresult
  have hc : ((subjectStep classField).classified ⟨partsPath, parts n⟩
      (LogKeeper.keep log (partsPlace n))).result = .ok [] := hresult
  -- No log is open, so the files are as they were.
  have hsame : ((subjectStep classField).classified ⟨partsPath, parts n⟩
      (LogKeeper.keep log (partsPlace n))).state.files = (partsPlace n).files := hfiles
  obtain ⟨bytes, he⟩ := (Element.encodable_iff (Element.encodable_parts n).textTypes).mp
    (Element.encodable_parts n)
  have hencode : Utf8.encode ((subjectStep classField).changed ⟨partsPath, parts n⟩ []).root.render =
      .ok bytes := by
    rw [changed_parts]
    exact he
  obtain ⟨t, made, hcreate⟩ := Document.createTemporary_parts
    (Utf8.bytesOf ((partsJson n).write .line))
  have hw : ((subjectStep classField).written ⟨partsPath, parts n⟩ [] ((subjectStep classField).classified
      ⟨partsPath, parts n⟩ (LogKeeper.keep log (partsPlace n))).state).result = .ok () := by
    rw [written_result, hsame]
    exact Document.write_of_temporary hcreate rfl hencode
  obtain ⟨-, hr, -⟩ := run_of_written hd rfl hc hw
  rw [hr]
  show Except.ok (StepResult.mk partsPath ((Document.mk partsPath (parts n)).logical.subject
    (.text "Title")) [] ((Document.mk partsPath (parts n)).logical.countOf classField) true) = _
  rw [hsubject, hcount]

/-- What a step has written of parts that are nested as deep as the reader goes cannot be read. -/
theorem run_parts_again {n : Nat} (h : 2 * n + 1 ≤ Json.maxDepth) (hdeep : Json.maxDepth < 2 * n + 2)
    (t : Text) : ∃ f, (((subjectStep (.text t)).run partsPath false).run
      (((subjectStep (.text t)).run partsPath false).run (partsPlace n)).state).result = .error f := by
  obtain ⟨d, log, labels, bytes, hl, -, hr, he, hread⟩ := of_run_written (run_parts h (.text t))
  obtain rfl : d = ⟨partsPath, parts n⟩ := Except.ok.inj (hl.symm.trans (load_parts h))
  obtain rfl : [] = labels := congrArg StepResult.labels hr
  rcases hl' : Document.load (((subjectStep (.text t)).run partsPath false).run
    (partsPlace n)).state.files partsPath with f | d'
  · exact ⟨_, (run_of_unreadable (subjectStep (.text t)) false hl').1⟩
  · obtain ⟨-, hdepth⟩ := (load_written_iff (ofJson_partsJson n) rfl he hread).mp hl'
    rw [changed_parts, Element.nesting_parts] at hdepth
    omega

/-- Steps with a number as the type of class entries do not repeat themselves: what was written is read
as a text, and counted among the other entries. Nor do steps with a text: what was written may be nested
deeper than the reader goes. -/
theorem not_repeats : ¬ Repeats (.int 7) ∧ ¬ Repeats (.text "Class") := by
  have hoffers (fs : Files) : Desk.Offers ⟨⟨⟨[], ["vocabularies"]⟩, some [(.text "subjects", subjects)]⟩,
      .after (fun _ => none) []⟩ fs (.text "subjects") subjects :=
    Desk.offers_of_loaded rfl find_subjects fs
  constructor
  · intro h
    have hparts : (((subjectStep (.int 7)).run seriesPath false).run seriesPlace).result.toOption =
          some ⟨seriesPath, "The sea", ["Nature"], 0, true⟩ ∧
        (((subjectStep (.int 7)).run seriesPath false).run
          (((subjectStep (.int 7)).run seriesPath false).run seriesPlace).state).result.toOption =
            some ⟨seriesPath, "The sea", ["Nature"], 0, true⟩ := by
      unfold seriesPlace
      simp only [Text.ofString_append]
      repeat rw [Text.ofString_ofList]
      decide +kernel
    obtain ⟨hrun, hagain⟩ := hparts
    obtain ⟨hr, -⟩ := h (by decide) rfl rfl (hoffers _) (Except.eq_ok_of_toOption hrun)
    have hremoved := congrArg StepResult.removed
      (Except.ok.inj ((Except.eq_ok_of_toOption hagain).symm.trans hr))
    cases hremoved
  · intro h
    have hdepth : 2 * 492 + 1 ≤ Json.maxDepth := by decide
    obtain ⟨hr, -⟩ := h (by decide) rfl rfl (hoffers _) (run_parts hdepth (.text "Class"))
    obtain ⟨f, hf⟩ := run_parts_again hdepth (by decide) "Class"
    cases hf.symm.trans hr

end AssignmentStep

end TitleClasses
