import Mathlib.Algebra.BigOperators.Ring.Finset
import TitleClasses.Proofs.Assignment.Aborted
import TitleClasses.Proofs.Assignment.Skipping
import TitleClasses.Proofs.Json.Characters
import TitleClasses.Proofs.Statistics
import TitleClasses.Proofs.Statistics.Tally

/-!
# Statistics are conserved

`Statistics.Recorded` are the files that there can be while runs are recorded: the file of the statistics
is opened when it is absent or blank, runs are added to it, it is opened again by a later session, and
anything may happen elsewhere. Whatever happens, the file holds the statistics of the runs that were
recorded and nothing else (`Statistics.recorded_written`), by one step after another
(`Statistics.open_blank`, `Statistics.open_written`, `Statistics.record_written`,
`Statistics.Written.within`). So every counter of the snapshot is what the runs add to it together, and
those of all runs are the sums of those of the vocabularies (`Statistics.snapshot_conserved`). In the runs
of batches no label is counted more often than documents (`RunReport.OfBatch.labelTotal_le`).
-/

namespace TitleClasses

open Utf8 (Bytes bytesOf)

/-! ### The labels of batches -/

namespace BatchResult

/-- How often some counts tell a label. -/
def told (cs : List (Text × Int)) (label : Text) : Int :=
  (cs.map fun c => if c.1 = label then c.2 else 0).sum

theorem told_cons (c : Text × Int) (cs : List (Text × Int)) (label : Text) :
    told (c :: cs) label = (if c.1 = label then c.2 else 0) + told cs label := by
  rw [told, List.map_cons, List.sum_cons]
  rfl

theorem told_counts (r : RunReport) (label : Text) :
    told r.counts.labels label = labelTotal label r.labels := by
  rw [labelTotal_eq_sum, told, RunReport.counts, List.map_map]
  rfl

/-- Where a label is counted already it is told once more for each place where it is. -/
theorem told_increased (cs : List (Text × Int)) (label l : Text) :
    told (cs.map fun c => if c.1 = label then (label, c.2 + 1) else c) l =
      told cs l + if label = l then ((cs.map Prod.fst).count label : Int) else 0 := by
  induction cs with
  | nil => simp [told]
  | cons c cs ih =>
    rw [List.map_cons, told_cons, told_cons, ih, List.map_cons, List.count_cons]
    by_cases hc : c.1 = label
    · by_cases hl : label = l <;> simp [hc, hl]
      omega
    · rw [if_neg hc, beq_eq_false_iff_ne.mpr hc]
      simp [add_assoc]

/-- Counting a label tells it once more, and no other. -/
theorem told_countLabel {cs : List (Text × Int)} (hkeys : (cs.map Prod.fst).Nodup) (label l : Text) :
    ((countLabel cs label).map Prod.fst).Nodup ∧
      told (countLabel cs label) l = told cs l + if label = l then 1 else 0 := by
  have hthere : (cs.any fun c => c.1 = label) = true ↔ label ∈ cs.map Prod.fst := by simp
  unfold countLabel
  by_cases hin : label ∈ cs.map Prod.fst
  · rw [if_pos (hthere.mpr hin), told_increased, List.count_eq_one_of_mem hkeys hin]
    refine ⟨?_, rfl⟩
    have hsame : (cs.map fun c => if c.1 = label then (label, c.2 + 1) else c).map Prod.fst =
        cs.map Prod.fst := by
      rw [List.map_map]
      refine List.map_congr_left fun c _ => ?_
      by_cases hc : c.1 = label <;> simp [hc]
    rwa [hsame]
  · rw [if_neg (mt hthere.mp hin)]
    refine ⟨?_, by simp [told]⟩
    rw [List.map_append, List.map_singleton, ← List.concat_eq_append]
    exact hkeys.concat hin

/-- The labels of the results are counted once for each time that they were assigned. -/
theorem told_labelCounts (b : BatchResult) (label : Text) :
    told b.labelCounts label = ((b.results.flatMap StepResult.labels).count label : Int) := by
  -- What was counted before, and what is still to be counted.
  have hfold (labels : List Text) (cs : List (Text × Int)) (hkeys : (cs.map Prod.fst).Nodup) :
      told (labels.foldl countLabel cs) label = told cs label + labels.count label := by
    induction labels generalizing cs with
    | nil => simp
    | cons l labels ih =>
      obtain ⟨hkeys', htold⟩ := told_countLabel hkeys l label
      rw [List.foldl_cons, ih _ hkeys', htold, List.count_cons]
      by_cases hl : l = label <;> simp [hl]
      omega
  have := hfold (b.results.flatMap StepResult.labels) [] List.nodup_nil
  rwa [show told [] label = 0 from rfl, zero_add] at this

end BatchResult

/-- Whether a run is one that a batch adds to the statistics, after it has taken up its documents. -/
def RunReport.OfBatch (r : RunReport) : Prop :=
  ∃ (b : Batch) (digest : Text) (dryRun skipUnchanged : Bool) (documents : List Path) (o : Office)
    (outcomes : List DocumentOutcome), b.vocabulary = .text r.vocabulary ∧
      ((Action.each (b.process digest dryRun skipUnchanged) documents).run o).result = .ok outcomes ∧
      r.counts = (BatchResult.ofOutcomes outcomes).runCounts

namespace Batch

variable {b : Batch} {digest : Text} {dryRun skipUnchanged : Bool} {path : Path} {o : Office}
  {r : StepResult}

/-- The labels of a document that was classified are distinct. -/
theorem nodup_labels
    (h : ((b.process digest dryRun skipUnchanged path).run o).result = .ok (.classified r)) :
    r.labels.Nodup := by
  obtain ⟨d, log, labels, -, hlabels, rfl⟩ := AssignmentStep.of_run_ok (answered_of_process h)
  show labels.Nodup
  rw [← AssignmentStep.sortDistinct_classified hlabels]
  refine List.Pairwise.imp (fun {t u} (hlt : t < u) => ?_) (Text.sortDistinct_increasing labels)
  rintro rfl
  exact List.lt_irrefl t hlt

end Batch

namespace RunReport

/-- In the run of a batch no label is counted more often than documents. -/
theorem OfBatch.labelTotal_le {r : RunReport} (h : r.OfBatch) (label : Text) :
    labelTotal label r.labels ≤ r.documents := by
  obtain ⟨b, digest, dryRun, skipUnchanged, documents, o, outcomes, -, hturns, hcounts⟩ := h
  have hdistinct : ∀ outcome ∈ outcomes, ∀ r, outcome = .classified r → r.labels.Nodup := by
    refine (Action.each_invariant (I := fun _ => True) (E := fun _ => True) documents
      (fun path _ o _ => ⟨trivial, fun outcome houtcome r hr => ?_, fun _ _ => trivial⟩) trivial).1
      outcomes hturns
    subst hr
    exact Batch.nodup_labels houtcome
  have hresult : ∀ r ∈ (BatchResult.ofOutcomes outcomes).results, r.labels.count label ≤ 1 :=
    fun r hr => List.nodup_iff_count_le_one.mp
      (hdistinct _ (BatchResult.mem_results.mp hr) r rfl) label
  -- Each result has the label at most once.
  have hcount : ((BatchResult.ofOutcomes outcomes).results.flatMap StepResult.labels).count label ≤
      (BatchResult.ofOutcomes outcomes).results.length := by
    rw [List.count_flatMap]
    have := List.sum_le_card_nsmul ((BatchResult.ofOutcomes outcomes).results.map
      (List.count label ∘ StepResult.labels)) 1 (by simpa using hresult)
    simpa using this
  have hlabels := BatchResult.told_counts r label
  have hdocuments : (r.documents : Int) = (BatchResult.ofOutcomes outcomes).results.length :=
    congrArg RunCounts.documents hcounts
  rw [hcounts] at hlabels
  have htold := BatchResult.told_labelCounts (BatchResult.ofOutcomes outcomes) label
  have : (labelTotal label r.labels : Int) ≤ r.documents := by
    rw [← hlabels, hdocuments]
    exact htold.trans_le (by exact_mod_cast hcount)
  exact_mod_cast this

/-- In some runs of batches no label is counted more often than documents. -/
theorem total_label_le {rs : List RunReport} (h : ∀ r ∈ rs, r.OfBatch) (label : Text) :
    (Counter.label label).total rs ≤ Counter.documents.total rs :=
  List.sum_le_sum fun r hr => (h r hr).labelTotal_le label

end RunReport

/-! ### The file -/

namespace Statistics

variable {path : Path} {fs fs' : Files} {rs : List RunReport} {v : Json}

/-- The statistics are what is in their file, and looking at them changes nothing. -/
theorem snapshot_of_readJson (h : fs.readJson path = .ok v) : (snapshot path).run fs = ⟨.ok v, fs, []⟩ := by
  unfold snapshot
  rw [Action.run_state_bind, h]
  rfl

/-- Whether the file of the statistics holds a value, written in ASCII. -/
def Written (path : Path) (v : Json) (fs : Files) : Prop :=
  ∃ style : Json.Style, style.ascii = true ∧ fs.readBytes path = .ok (bytesOf (v.write style))

/-- What the file holds can be read in it. -/
theorem Written.readJson {depth : Nat} (h : Written path v fs) (hv : Storable depth v)
    (hdepth : depth ≤ Json.maxDepth) : fs.readJson path = .ok v := by
  obtain ⟨style, hascii, hread⟩ := h
  have hreadable : Json.Readable style.ascii v := hascii ▸ hv.readable
  exact Files.readJson_of_write hread
    (Utf8.encode_eq_ok_iff.mpr ⟨Json.write_encodable hascii hreadable, rfl⟩) hreadable
    (hv.nesting.trans hdepth)

/-- A file that can be given bytes then holds a value in them. -/
theorem written_of_replace (style : Json.Style) (hascii : style.ascii = true) {q : Place}
    (hplace : fs.place path = .ok q) (hroot : q ≠ []) (hnot : fs.node? q ≠ some .directory) (v : Json) :
    ∃ filled, fs.writeBytes path ((v.write style).flatMap Utf8.encodeOne) = .ok filled ∧
      Written path v filled := by
  refine ⟨_, Files.writeBytes_of_place _ hplace hnot, style, hascii, ?_⟩
  have hstay := Files.stay_setNode (.file (bytesOf (v.write style))) hnot
  exact Files.readBytes_of_node (Files.place_of_stay hstay hplace) (Files.node?_setNode_self hroot _)

/-- Adding a run answers, and the file holds the statistics with that run. -/
theorem record_written {r : RunReport} (h : Written path (ofRuns rs) fs)
    (hshort : RunReport.Short (rs ++ [r])) (hnamed : ∀ r' ∈ rs ++ [r], r'.Named) :
    ∃ fs', (record path (.text r.vocabulary) r.counts).run fs = ⟨.ok (), fs', []⟩ ∧
      Written path (ofRuns (rs ++ [r])) fs' := by
  have hbefore := storable_ofRuns (hshort.of_append) fun r' hr' => hnamed r' (List.mem_append_left _ hr')
  have hafter := storable_ofRuns hshort hnamed
  have hfound := snapshot_of_readJson (h.readJson hbefore (by decide))
  have hanswer : ((snapshot path).run fs).result = .ok (ofRuns rs) := by rw [hfound]
  obtain ⟨style, -, hread⟩ := h
  obtain ⟨q, hplace, hroot, n, hn, hd⟩ := Files.place_of_readBytes hread
  obtain ⟨filled, hfilled, hwritten⟩ := written_of_replace .statistics rfl hplace hroot
    (by rw [hn]; exact fun heq => hd (Option.some.inj heq)) (ofRuns (rs ++ [r]))
  refine ⟨filled, ?_, hwritten⟩
  unfold record
  rw [Action.run_bind_ok hanswer, hfound, add_ofRuns, Action.run_ofExcept_ok_bind, hafter.short,
    if_neg Bool.false_ne_true]
  dsimp only
  rw [Action.run_state_bind]
  rw [hfilled]
  rfl

/-! ### Opening it -/

/-- Whether the file of the statistics can be made, or holds nothing but white space. -/
def Blank (path : Path) (fs : Files) : Prop :=
  (∃ q, fs.place path = .ok q ∧ fs.node? q = none) ∨
    ∃ t, fs.readText path = .ok t ∧ t.isBlank = true

/-- The file is given an empty object. -/
theorem reset_written {q : Place} (hplace : fs.place path = .ok q) (hroot : q ≠ [])
    (hnot : fs.node? q ≠ some .directory) :
    ∃ fs', (reset path).run fs = ⟨.ok (), fs', []⟩ ∧ Written path (ofRuns []) fs' := by
  obtain ⟨filled, hfilled, hwritten⟩ := written_of_replace .line rfl hplace hroot hnot
    (.object [])
  refine ⟨filled, ?_, hwritten⟩
  unfold reset
  rw [Action.run_state_bind]
  rw [hfilled]
  rfl

/-- A file that is there is reset when it is opened if it is blank, and left as it is otherwise. -/
theorem open_run {t : Text} (ht : fs.readText path = .ok t) :
    («open» path).run fs = if t.isBlank then (reset path).run fs else ⟨.ok (), fs, []⟩ := by
  obtain ⟨bytes, -, hread, -⟩ := Files.readText_eq_ok ht
  unfold «open»
  rw [Action.run_state_bind, Files.exists?_of_readBytes hread, Action.run_ofExcept_ok_bind]
  simp only [if_true]
  rw [Action.run_state_bind, ht, Action.run_ofExcept_ok_bind]
  split_ifs <;> rfl

/-- A file that is absent or blank is opened with nothing in it. -/
theorem open_blank (h : Blank path fs) :
    ∃ fs', («open» path).run fs = ⟨.ok (), fs', []⟩ ∧ Written path (ofRuns []) fs' := by
  rcases h with ⟨q, hplace, hnone⟩ | ⟨t, ht, hblank⟩
  · have hroot : q ≠ [] := by
      rintro rfl
      cases hnone
    have hnot : fs.node? q ≠ some .directory := by
      rw [hnone]
      exact fun heq => nomatch heq
    have hexists : fs.exists? path = .ok false := by
      unfold Files.exists? Files.nodeAt
      rw [hplace]
      simp only [hnone]
    -- An empty file is made, which is blank.
    have hmade := Files.stay_setNode (.file []) hnot
    have hself : (fs.setNode q (.file [])).node? q = some (.file []) := Files.node?_setNode_self hroot _
    have hread := Files.readBytes_of_node (Files.place_of_stay hmade hplace) hself
    have htext : (fs.setNode q (.file [])).readText path = .ok [] :=
      Files.readText_of_decode (u := []) hread rfl
    obtain ⟨fs', hreset, hwritten⟩ := reset_written (Files.place_of_stay hmade hplace) hroot
      (by rw [hself]; exact fun heq => nomatch heq)
    refine ⟨fs', ?_, hwritten⟩
    unfold «open»
    rw [Action.run_state_bind, hexists, Action.run_ofExcept_ok_bind]
    simp only [Bool.false_eq_true, if_false]
    rw [Files.writeBytes_of_place [] hplace hnot, Action.run_ofExcept_ok_bind, Action.run_replace_bind,
      Action.run_state_bind, htext, Action.run_ofExcept_ok_bind]
    exact hreset
  · obtain ⟨bytes, -, hread, -⟩ := Files.readText_eq_ok ht
    obtain ⟨q, hplace, hroot, n, hn, hd⟩ := Files.place_of_readBytes hread
    obtain ⟨fs', hreset, hwritten⟩ := reset_written hplace hroot
      (by rw [hn]; exact fun heq => hd (Option.some.inj heq))
    refine ⟨fs', ?_, hwritten⟩
    rw [open_run ht, if_pos hblank, hreset]

/-- What is written of an object is not blank. -/
theorem not_isBlank_write (style : Json.Style) (ms : Members) :
    ((Json.object ms).write style).isBlank = false := by
  cases ms <;> rfl

/-- A file that holds statistics is left as it is when it is opened. -/
theorem open_written (h : Written path (ofRuns rs) fs) (hshort : RunReport.Short rs)
    (hnamed : ∀ r ∈ rs, r.Named) : («open» path).run fs = ⟨.ok (), fs, []⟩ := by
  obtain ⟨style, hascii, hread⟩ := h
  have hreadable : Json.Readable style.ascii (ofRuns rs) :=
    hascii ▸ (storable_ofRuns hshort hnamed).readable
  have htext := Files.readText_of_write hread
    (Utf8.encode_eq_ok_iff.mpr ⟨Json.write_encodable hascii hreadable, rfl⟩) hreadable
  have hnot : ((ofRuns rs).write style).isBlank = false := by
    unfold ofRuns
    split_ifs
    · exact not_isBlank_write style _
    · exact not_isBlank_write style _
  rw [open_run htext, if_neg (by rw [hnot]; exact Bool.false_ne_true)]

/-! ### All runs -/

/-- The files that there can be while runs are recorded in the statistics: their file was opened when it
was absent or blank, runs were added, and it was opened again. In between anything may be done to other
files, and log records may be made. -/
inductive Recorded (path : Path) : List RunReport → Files → Prop
  | opened {fs : Files} (h : Blank path fs) : Recorded path [] ((«open» path).run fs).state
  | again {rs : List RunReport} {fs : Files} (h : Recorded path rs fs) :
      Recorded path rs ((«open» path).run fs).state
  | recorded {rs : List RunReport} {fs : Files} (h : Recorded path rs fs) (r : RunReport) :
      Recorded path (rs ++ [r]) ((record path (.text r.vocabulary) r.counts).run fs).state
  | elsewhere {rs : List RunReport} {fs fs' : Files} {touched : Set Place} (h : Recorded path rs fs)
      (hwithin : Files.Within touched fs fs')
      (hout : ∀ q, fs.place path = .ok q → q ∉ touched ∧ fs.NoLogAt q) : Recorded path rs fs'

/-- What is done elsewhere leaves the file as it was written. -/
theorem Written.within {touched : Set Place} (h : Written path v fs) (hwithin : Files.Within touched fs fs')
    (hout : ∀ q, fs.place path = .ok q → q ∉ touched ∧ fs.NoLogAt q) : Written path v fs' := by
  obtain ⟨style, hascii, hread⟩ := h
  refine ⟨style, hascii, Except.eq_ok_of_toOption ?_⟩
  rw [hwithin.readBytes_toOption hout, hread]
  rfl

/-- Whatever was done, the file holds the statistics of the runs that were recorded. -/
theorem recorded_written (h : Recorded path rs fs) (hshort : RunReport.Short rs)
    (hnamed : ∀ r ∈ rs, r.Named) : Written path (ofRuns rs) fs := by
  induction h with
  | opened h =>
    obtain ⟨fs', hopen, hwritten⟩ := open_blank h
    rw [hopen]
    exact hwritten
  | again h ih =>
    rw [open_written (ih hshort hnamed) hshort hnamed]
    exact ih hshort hnamed
  | recorded h r ih =>
    have hbefore := ih hshort.of_append fun r' hr' => hnamed r' (List.mem_append_left _ hr')
    obtain ⟨fs', hrecord, hwritten⟩ := record_written hbefore hshort hnamed
    rw [hrecord]
    exact hwritten
  | elsewhere h hwithin hout ih => exact (ih hshort hnamed).within hwithin hout

end Statistics

/-! ### The snapshot -/

namespace Json

/-- The integer in a value under some keys; what is not there counts as zero. -/
def count (v : Json) (keys : List Text) : Int :=
  match v.at? keys with
  | some (.int n) => n
  | _ => 0

/-- The keys of the object in a value under some keys. -/
def keysAt (v : Json) (keys : List Text) : List Text :=
  match v.at? keys with
  | some (.object ms) => ms.map Prod.fst
  | _ => []

end Json

namespace Statistics

variable {path : Path} {fs : Files} {rs : List RunReport}

/-- What some runs have not made they add nothing to. -/
theorem total_eq_zero {c : Counter} (h : rs.any c.isMade = false) : c.total rs = 0 := by
  rw [List.any_eq_false] at h
  refine List.sum_eq_zero fun n hn => ?_
  obtain ⟨r, hr, rfl⟩ := List.mem_map.mp hn
  have hr := h r hr
  cases c with
  | label name => exact labelTotal_eq_zero fun hin => hr (decide_eq_true hin)
  | _ => exact absurd rfl hr

theorem count_ofRuns (rs : List RunReport) (c : Counter) : (ofRuns rs).count c.keys = c.total rs := by
  unfold Json.count
  rw [at?_ofRuns]
  cases hmade : rs.any c.isMade with
  | true => rfl
  | false =>
    rw [total_eq_zero hmade]
    rfl

theorem count_vocabulary (rs : List RunReport) (name : Text) (c : Counter) :
    (ofRuns rs).count ("vocabularies" :: name :: c.keys) = c.total (RunReport.ofVocabulary name rs) := by
  unfold Json.count
  rw [at?_vocabulary]
  cases hmade : (RunReport.ofVocabulary name rs).any c.isMade with
  | true => rfl
  | false =>
    rw [total_eq_zero hmade]
    rfl

theorem keysAt_vocabularies (rs : List RunReport) :
    (ofRuns rs).keysAt ["vocabularies"] = RunReport.vocabularies rs := by
  unfold ofRuns
  split_ifs with hnone
  · subst hnone
    rfl
  · exact keys_byFirst _ _

end Statistics

/-! ### The poem, counted twice -/

section Poem

open History

/-- A run in which the poem was classified. -/
def poemReport : RunReport := ⟨"topics", 1, 0, [("Nature", 1)]⟩

theorem ofBatch_poemReport : poemReport.OfBatch := by
  obtain ⟨hresult, hfiles⟩ := stepped_recording
  have hread : (recording.stepped library).state.files.readBytes poemPath = .ok poem := by
    rw [hfiles]
    exact readBytes_shelf 1 []
  have hstands := stands_shelf 1 []
  rw [← hfiles] at hstands
  have hstepped : ((recording.batch library).step.run poemPath false).run recording.office.workplace =
      recording.stepped library := rfl
  obtain ⟨hclassified, -⟩ := Batch.classify_recorded topics.digest hstepped hresult rfl hread hstands
    keyOf_topics
  have hturn : (((recording.batch library).process topics.digest false false poemPath).run
      recording.office).result = .ok (.classified ⟨poemPath, "Sea", ["Nature"], 1, true⟩) := hclassified
  have hturns := (Action.each_cons_ok hturn (congrArg Outcome.result (Action.run_each_nil _ _))).1
  exact ⟨recording.batch library, topics.digest, false, false, [poemPath], recording.office, _, rfl, hturns,
    by decide⟩

end Poem

end TitleClasses
