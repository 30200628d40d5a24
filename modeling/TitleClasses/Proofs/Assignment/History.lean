import TitleClasses.Command.Program
import TitleClasses.Proofs.Assignment.Batch

/-!
# Histories

Batches are run under the profiles of one configuration, in any order and by any number of sessions, and
between any two documents files may change in any way, as long as nobody else makes rows in tables. A
`History` is such a course of events, turn by turn: the turns that were taken, and the files they have
led to. `History.batch` is what makes it one: a batch that is run at the end of a history, on any
documents, takes the history on by one turn for each document that it comes to.

Every row that a history leaves was made by one of its turns (`History.origin`), which has left a
document of the row's fingerprint.
-/

namespace TitleClasses

open Utf8 (Bytes)

/-! ### Desks -/

/-- What all sessions have in common: the settings, and which rules do not compile. -/
structure Configuration where
  settings : Settings
  refusal : Option Text → Option CompileError

namespace Desk

/-- The desks that sessions come to have. A session takes up a new one; its vocabularies may be loaded
from the files as they are at some time, and calls be made to its engine. -/
inductive Arises (c : Configuration) : Desk → Prop
  | taken : Arises c ⟨⟨c.settings.vocabularyFile, none⟩, .new c.refusal⟩
  | loaded {d : Desk} (fs : Files) (h : Arises c d) :
    Arises c { d with vocabulary := ((VocabularyFile.reload fs).run d.vocabulary).state }
  | called {d : Desk} (calls : List Engine.Call) (h : Arises c d) :
    Arises c { d with engine := calls.foldl Engine.Call.effect d.engine }

/-- What holds of all desks that sessions come to have. -/
structure Sound (c : Configuration) (d : Desk) : Prop where
  vocabulary : d.vocabulary.WellFormed
  engine : d.engine.Sound
  refusal : d.engine.refusal = c.refusal

theorem Arises.sound {c : Configuration} {d : Desk} (h : d.Arises c) : d.Sound c := by
  induction h with
  | taken =>
    have hnothing : VocabularyFile.WellFormed ⟨c.settings.vocabularyFile, none⟩ := by
      intro v hv
      cases hv
    exact ⟨hnothing, Engine.new_sound c.refusal, rfl⟩
  | loaded fs _ ih => exact ⟨VocabularyFile.reload_wellFormed ih.vocabulary fs, ih.engine, ih.refusal⟩
  | called calls _ ih =>
    obtain ⟨hsound, hrefusal⟩ := Engine.foldl_sound ih.engine calls
    exact ⟨ih.vocabulary, hsound, hrefusal.trans ih.refusal⟩

/-- A desk that was asked for a digest is as it was, or has loaded its vocabularies. -/
theorem Arises.digest {c : Configuration} {d : Desk} (h : d.Arises c) (fs : Files) (name : Json) :
    Arises c { d with vocabulary := ((VocabularyFile.digest fs name).run d.vocabulary).state } := by
  obtain ⟨hstate | hstate, -⟩ := d.vocabulary.digest_state fs name
  · rw [hstate]
    exact h
  · rw [hstate]
    exact h.loaded fs

end Desk

/-! ### Turns and histories -/

/-- The turn of a document in a batch: the profile and the vocabulary under which it is taken up, how
the batch is run, the path of the document, and the office when its turn comes. -/
structure Turn where
  profile : Profile
  vocabulary : Vocabulary
  dryRun : Bool
  skipUnchanged : Bool
  path : Path
  office : Office

namespace Turn

variable (c : Configuration) (t : Turn)

/-- The batch of a turn. -/
def batch : Batch := Program.batchOf c.settings t.profile

/-- What becomes of the document, and what its turn leaves behind. -/
def outcome : Outcome Office DocumentOutcome :=
  ((t.batch c).process t.vocabulary.digest t.dryRun t.skipUnchanged t.path).run t.office

/-- What the step does with the document, unless it is passed over. -/
def stepped : Outcome Workplace StepResult :=
  (t.batch c).stepped t.vocabulary.digest t.dryRun t.skipUnchanged t.path t.office

/-- Whether a turn may come up: its profile is one of the settings, there is one desk, and the
vocabulary of the profile is loaded there. -/
structure Possible : Prop where
  profile : ∃ name, c.settings.profile name = .ok t.profile
  desk : ∃ d catalogue, t.office.workplace.desks = [d] ∧ d.Arises c ∧
    d.vocabulary.loaded = some catalogue ∧ catalogue.find t.profile.vocabulary = .ok t.vocabulary

/-- Whether a row is one that a turn makes: the run is not dry, the document is not passed over, the
step answers, and the row is the document's, with the fingerprint of what the step leaves and the labels
it answers. -/
def Makes (row : ProcessedRow) : Prop :=
  t.dryRun = false ∧ (t.outcome c).result ≠ .ok .skipped ∧ ∃ r bytes, (t.stepped c).result = .ok r ∧
    (t.stepped c).state.files.readBytes t.path = .ok bytes ∧
    ∃ k now, Processed.keyOf t.profile.vocabulary = .ok (some k) ∧
      row = Processed.rowOf k (Batch.keyOf (t.stepped c).state.files t.path)
        (fingerprint bytes t.vocabulary.digest) r.labels now

end Turn

/-- The turns that were taken, and the files that they have led to. Between two turns files may change
in any way, but rows of tables are made in turns only. -/
inductive History (c : Configuration) : List Turn → Files → Prop
  | start {fs : Files} (h : fs.rows = []) : History c [] fs
  | edit {ts : List Turn} {fs : Files} (fs' : Files) (h : History c ts fs) (hrows : fs'.rows ⊆ fs.rows) :
    History c ts fs'
  | turn {ts : List Turn} (t : Turn) (h : History c ts t.office.files) (ht : t.Possible c) :
    History c (ts ++ [t]) (t.outcome c).state.files

namespace Turn

variable {c : Configuration} {t : Turn}

/-- The strategy of a batch changes no files but the log, and only the engine of its desk. -/
theorem keeps_batch {d : Desk} {catalogue : Catalogue} {p : Profile} {v : Vocabulary}
    (hc : d.vocabulary.loaded = some catalogue) (hv : catalogue.find p.vocabulary = .ok v) :
    (Program.batchOf c.settings p).step.Keeps [d] fun ds => ∃ calls : List Engine.Call,
      ds = [{ d with engine := calls.foldl Engine.Call.effect d.engine }] where
  files e _ hw := (AssignmentStep.classified_run hw hc hv _ p.classMetadata e).2.1
  desks e _ hw := (AssignmentStep.classified_run hw hc hv _ p.classMetadata e).2.2

/-- What the strategy of a turn finds, in any workplace that has the desk of the turn. -/
theorem classified_batch {d : Desk} {catalogue : Catalogue} {w : Workplace} (hw : w.desks = [d])
    (hc : d.vocabulary.loaded = some catalogue)
    (hv : catalogue.find t.profile.vocabulary = .ok t.vocabulary) (document : Document) :
    ((t.batch c).step.classified document w).result = ((Policy.new t.profile.termsField
      t.profile.classField c.settings.workers).findings t.vocabulary d.engine
        (document.logical.subject t.profile.titleField)).map
          fun found => Classifier.clean (found.map some) :=
  (AssignmentStep.classified_run hw hc hv _ t.profile.classMetadata document).1

/-- A turn that is not dry and does not ask the table puts a row into it, if the step answers and the
table stands with nothing beside it. -/
theorem row_of_stepped {bytes : Bytes} {p : Place} {rows : List ProcessedRow} {k : Text} {r : StepResult}
    (hdry : t.dryRun = false) (hskip : t.skipUnchanged = false) (hr : (t.stepped c).result = .ok r)
    (hread : (t.stepped c).state.files.readBytes t.path = .ok bytes)
    (hstands : Processed.Stands (t.stepped c).state.files c.settings.tableFile p rows)
    (hk : Processed.keyOf t.profile.vocabulary = .ok (some k)) :
    Processed.rowOf k (Batch.keyOf (t.stepped c).state.files t.path)
      (fingerprint bytes t.vocabulary.digest) r.labels t.office.clock.instant ∈
        (t.outcome c).state.files.rows := by
  obtain ⟨profile, vocabulary, dryRun, skipUnchanged, path, office⟩ := t
  subst hdry hskip
  exact Batch.process_records hr hread hstands hk

end Turn

/-! ### Where rows come from -/

namespace History

variable {c : Configuration} {ts : List Turn} {fs : Files}

/-- Every row that a history leaves was made by one of its turns. -/
theorem origin (h : History c ts fs) {row : ProcessedRow} (hrow : row ∈ fs.rows) :
    ∃ t ∈ ts, t.Possible c ∧ t.Makes c row := by
  induction h with
  | start h =>
    rw [h] at hrow
    cases hrow
  | edit fs' _ hrows ih => exact ih (hrows hrow)
  | turn t _ ht ih =>
    obtain ⟨d, catalogue, hdesks, -, hc, hv⟩ := ht.desk
    have hkeeps := Turn.keeps_batch (c := c) hc hv
    rw [← hdesks] at hkeeps
    -- The row was there before this turn, or this turn has made it.
    rcases Batch.process_rows hkeeps hrow with hold | hnew
    · obtain ⟨t', hin, hmakes⟩ := ih hold
      exact ⟨t', List.mem_append_left _ hin, hmakes⟩
    · exact ⟨t, List.mem_append_right _ (List.mem_singleton_self t), ht, hnew⟩

/-! ### Batches -/

section Batch

variable {p : Profile} {dryRun skipUnchanged : Bool} {f : VocabularyFile} {o : Office}

/-- Whether a batch has come to an office after the turns of a history: it has taken some turns since,
and its desk has the vocabulary file as it is given. -/
def Reached (c : Configuration) (ts : List Turn) (p : Profile) (dryRun skipUnchanged : Bool)
    (f : VocabularyFile) (o : Office) : Prop :=
  ∃ us d, History c (ts ++ us) o.files ∧
    (∀ u ∈ us, u.profile = p ∧ u.dryRun = dryRun ∧ u.skipUnchanged = skipUnchanged) ∧
    o.workplace.desks = [d] ∧ d.Arises c ∧ d.vocabulary = f

/-- A document that a batch comes to is a turn. -/
theorem Reached.process (h : Reached c ts p dryRun skipUnchanged f o)
    (hp : ∃ name, c.settings.profile name = .ok p) {catalogue : Catalogue} {v : Vocabulary}
    (hf : f.loaded = some catalogue) (hv : catalogue.find p.vocabulary = .ok v) (path : Path) :
    Reached c ts p dryRun skipUnchanged f
      (((Program.batchOf c.settings p).process v.digest dryRun skipUnchanged path).run o).state := by
  obtain ⟨us, d, hhistory, hus, hdesks, hd, rfl⟩ := h
  -- The turn is under the profile of the batch, and with the vocabulary that the batch has found.
  let t : Turn := ⟨p, v, dryRun, skipUnchanged, path, o⟩
  have hturn := hhistory.turn t ⟨hp, d, catalogue, hdesks, hd, hf, hv⟩
  have hkeeps := Turn.keeps_batch (c := c) hf hv
  rw [← hdesks] at hkeeps
  obtain ⟨calls, hdesks'⟩ := Batch.process_desks hkeeps v.digest dryRun skipUnchanged path ⟨[], hdesks⟩
  refine ⟨us ++ [t], _, ?_, ?_, hdesks', hd.called calls, rfl⟩
  · rw [← List.append_assoc]
    exact hturn
  · intro u hu
    rcases List.mem_append.mp hu with hu | hu
    · exact hus u hu
    · obtain rfl := List.mem_singleton.mp hu
      exact ⟨rfl, rfl, rfl⟩

/-- So are all of them. -/
theorem Reached.each (h : Reached c ts p dryRun skipUnchanged f o)
    (hp : ∃ name, c.settings.profile name = .ok p) {catalogue : Catalogue} {v : Vocabulary}
    (hf : f.loaded = some catalogue) (hv : catalogue.find p.vocabulary = .ok v) (documents : List Path) :
    Reached c ts p dryRun skipUnchanged f ((Action.each ((Program.batchOf c.settings p).process v.digest
      dryRun skipUnchanged) documents).run o).state := by
  -- Each document is taken up in the office that those before it have left.
  induction documents generalizing o with
  | nil => exact h
  | cons path documents ih =>
    rw [Action.each_cons]
    refine Action.state_bind (Reached c ts p dryRun skipUnchanged f) (h.process hp hf hv path)
      fun _ _ => ?_
    exact Action.state_bind (Reached c ts p dryRun skipUnchanged f) (ih (h.process hp hf hv path))
      fun _ _ => ih (h.process hp hf hv path)

/-- Files may change between turns. -/
theorem Reached.edit (h : Reached c ts p dryRun skipUnchanged f o) {fs' : Files}
    (hrows : fs'.rows ⊆ o.files.rows) :
    Reached c ts p dryRun skipUnchanged f { o with workplace := { o.workplace with files := fs' } } := by
  obtain ⟨us, d, hhistory, hus, hdesks, hd, hf⟩ := h
  exact ⟨us, d, hhistory.edit fs' hrows, hus, hdesks, hd, hf⟩

/-- Before its first document a batch may load the vocabulary file. -/
theorem Reached.digest (h : Reached c ts p dryRun skipUnchanged f o) :
    let asked := (Program.batchOf c.settings p).digest.run o
    ∃ f', Reached c ts p dryRun skipUnchanged f' asked.state ∧
      ∀ t, asked.result = .ok t → ∃ catalogue v, f'.loaded = some catalogue ∧
        catalogue.find p.vocabulary = .ok v ∧ t = v.digest := by
  obtain ⟨us, d, hhistory, hus, hdesks, hd, rfl⟩ := h
  obtain ⟨-, hresult⟩ := d.vocabulary.digest_state o.files p.vocabulary
  rw [Batch.digest_run _ hdesks]
  refine ⟨_, ⟨us, _, hhistory.edit _ ?_, hus, rfl, hd.digest o.files p.vocabulary, rfl⟩, hresult⟩
  exact List.Subset.refl _

/-- A batch that is run after a history takes the history on, by turns of its own. -/
theorem batch {d : Desk} (h : History c ts o.files) (hp : ∃ name, c.settings.profile name = .ok p)
    (hdesks : o.workplace.desks = [d]) (hd : d.Arises c) (documents : List Path)
    (dryRun skipUnchanged : Bool) :
    ∃ f, Reached c ts p dryRun skipUnchanged f
      (((Program.batchOf c.settings p).run documents dryRun skipUnchanged).run o).state := by
  have hbegin : Reached c ts p dryRun skipUnchanged d.vocabulary o := by
    refine ⟨[], d, ?_, List.forall_mem_nil _, hdesks, hd, rfl⟩
    rw [List.append_nil]
    exact h
  -- From its digest on the batch keeps the vocabulary file that it has then.
  obtain ⟨f, hasked, hdigest⟩ := hbegin.digest
  refine ⟨f, ?_⟩
  unfold Batch.run
  refine Action.state_bind (Reached c ts p dryRun skipUnchanged f) hasked fun digest hresult => ?_
  obtain ⟨catalogue, v, hf, hv, rfl⟩ := hdigest digest hresult
  have heach := hasked.each hp hf hv documents
  refine Action.state_bind (Reached c ts p dryRun skipUnchanged f) heach fun outcomes _ => ?_
  dsimp only
  split
  · exact heach
  · refine Action.state_bind (Reached c ts p dryRun skipUnchanged f) ?_ fun _ _ => ?_
    · exact heach.edit (Statistics.record_rows _ _ _ _)
    · exact heach.edit (Statistics.record_rows _ _ _ _)

end Batch

end History

end TitleClasses
