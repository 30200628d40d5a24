import TitleClasses.Proofs.Assignment.Found
import TitleClasses.Proofs.Processed.Entry

/-!
# What becomes of a document

In a batch that classifies by a loaded vocabulary, what becomes of a document in its turn (`Batch.fate`)
depends on what the turn sees of it (`Batch.sight`) and on nothing else: its bytes, whether a temporary
file can be made beside it, and its entry in the table. `Batch.process_turned` says so, and that the turn
reaches no further than the document, the temporary files beside it and its entry.
-/

namespace TitleClasses.Batch

open Utf8 (Bytes)

/-- What a turn sees of a document: its bytes, whether a temporary file can be made beside it, and its
entry in the table. -/
structure Sight where
  bytes : Option Bytes
  beside : Bool
  entry : Option (Text × Text)

/-- What becomes of a document: its outcome, and the bytes and the entry that it has then. -/
structure Fate where
  outcome : DocumentOutcome
  bytes : Option Bytes
  entry : Option (Text × Text)

/-- What is seen of a document in some files. -/
def sight (b : Batch) (fs : Files) (path : Path) : Sight where
  bytes := (fs.readBytes path).toOption
  beside := fs.hasTemporary path
  entry := Processed.entry? fs b.table b.vocabulary (keyOf fs path)

/-- Whether the entry of a document tells the fingerprint that it has. -/
def Sight.isUnchanged (s : Sight) (digest : Text) : Bool :=
  match s.bytes, s.entry with
  | some bytes, some (mark, _) => mark = fingerprint bytes digest
  | _, _ => false

/-- Whether a turn passes over a document, if it is asked to pass over unchanged ones: the table is asked
about a document that has bytes, and may refuse the vocabulary. -/
def Sight.passed (s : Sight) (vocabulary : Json) (digest : Text) (skipUnchanged : Bool) :
    Except Fault Bool :=
  if skipUnchanged && s.bytes.isSome then
    (Processed.keyOf vocabulary).map fun _ => s.isUnchanged digest
  else .ok false

/-- The fate of a document that stays as it is seen. -/
def Sight.stays (s : Sight) (outcome : DocumentOutcome) : Fate := ⟨outcome, s.bytes, s.entry⟩

/-- What becomes of a document that is seen, when its title gets some labels. -/
def fate (b : Batch) (labels : Text → List Text) (digest : Text) (dryRun skipUnchanged : Bool)
    (path : Path) (s : Sight) : Fate :=
  if skipUnchanged && s.isUnchanged digest then s.stays .skipped
  else
    match s.bytes.bind Element.ofBytes? with
    | none => s.stays .failed
    | some root =>
      let d : Document := ⟨path, root⟩
      let found := labels (d.logical.subject b.step.titleField)
      if dryRun then s.stays (.classified (b.step.answerOf d found false))
      else
        match s.beside, Utf8.encode (b.step.changed d found).root.render with
        | true, .ok bytes => ⟨.classified (b.step.answerOf d found true), some bytes,
            some (fingerprint bytes digest,
              (Json.list ((Text.sorted found).map Json.text)).write .line)⟩
        | _, _ => s.stays .failed

/-- What holds where a turn has ended in which a document met its fate: nothing was reached but the
document, temporary files beside it, of which at most an empty one was left, and the table, which stands,
and in which only the entry of the document has changed. -/
structure Turned (b : Batch) (t : Place) (path : Path) (fs : Files) (f : Fate)
    (ended : Outcome Office DocumentOutcome) : Prop where
  result : ended.result = .ok f.outcome
  grown : Files.Grown (insert t (fs.reach path)) fs ended.state.files
  fresh : Files.Fresh fs ended.state.files
  stands : ∃ rows, Processed.Stands ended.state.files b.table t rows
  bytes : (ended.state.files.readBytes path).toOption = f.bytes
  entry : Processed.entry? ended.state.files b.table b.vocabulary (keyOf fs path) = f.entry
  others : ∀ document, document ≠ keyOf fs path →
    Processed.entry? ended.state.files b.table b.vocabulary document =
      Processed.entry? fs b.table b.vocabulary document

variable {b : Batch} {digest : Text} {dryRun skipUnchanged : Bool} {path : Path} {o : Office} {t : Place}
  {rows : List ProcessedRow} {k : Text} {own : Set Place}

/-- A document has the same name in files that are changed. -/
theorem keyOf_congr {touched : Set Place} {fs fs' : Files} (hwithin : Files.Within touched fs fs')
    (path : Path) : keyOf fs' path = keyOf fs path := by
  unfold keyOf
  rw [hwithin.resolve]

/-! ### One document -/

/-- A turn passes over a document or classifies it, or it fails as the table does. -/
theorem process_asked (hstands : Processed.Stands o.files b.table t rows) :
    (b.process digest dryRun skipUnchanged path).run o =
      match (b.sight o.files path).passed b.vocabulary digest skipUnchanged with
      | .error f => ⟨.error f, o, []⟩
      | .ok true => ⟨.ok .skipped, o, []⟩
      | .ok false => (b.classify digest dryRun path).run o := by
  have hasked : (b.isUnchanged digest path).run o =
      ⟨(b.sight o.files path).passed b.vocabulary digest true, o, []⟩ := by
    unfold sight Sight.passed Sight.isUnchanged
    rcases hread : o.files.readBytes path with f | bytes
    · rw [isUnchanged_run_error b digest hread]
      rfl
    · rw [isUnchanged_run_ok b digest hread]
      dsimp only
      rw [hstands.isCurrent_answer]
      cases Processed.entry? o.files b.table b.vocabulary (keyOf o.files path) <;>
        simp [withFiles, Office.files, Except.toOption]
  unfold process
  cases skipUnchanged with
  | false => rfl
  | true =>
    have hanswer := congrArg Outcome.result hasked
    rw [if_pos rfl]
    rcases hpassed : (b.sight o.files path).passed b.vocabulary digest true with f | passed
    · rw [hpassed] at hanswer hasked
      rw [Action.run_bind_error hanswer, hasked]
    · rw [hpassed] at hanswer hasked
      rw [Action.run_bind_ok hanswer, hasked]
      cases passed <;> rfl

/-- Where the vocabulary has a key, it passes over a document that is seen to be unchanged, if it is asked
to, and classifies any other. -/
theorem process_run (hstands : Processed.Stands o.files b.table t rows)
    (hk : Processed.keyOf b.vocabulary = .ok (some k)) :
    (b.process digest dryRun skipUnchanged path).run o =
      if skipUnchanged && (b.sight o.files path).isUnchanged digest then ⟨.ok .skipped, o, []⟩
      else (b.classify digest dryRun path).run o := by
  have hpassed : (b.sight o.files path).passed b.vocabulary digest skipUnchanged =
      .ok (skipUnchanged && (b.sight o.files path).isUnchanged digest) := by
    unfold Sight.passed Sight.isUnchanged
    rw [hk]
    cases skipUnchanged <;> cases (b.sight o.files path).bytes <;> rfl
  rw [process_asked hstands, hpassed]
  cases skipUnchanged && (b.sight o.files path).isUnchanged digest <;> rfl

/-! ### The fate of a document -/

/-- Whether documents can be taken up at an office: a catalogue is loaded at the only desk, and the table
stands where the log does not go. -/
structure Ready (b : Batch) (refusal : Option Text → Option CompileError) (file : Path) (c : Catalogue)
    (t : Place) (o : Office) : Prop where
  home : o.files.ProperHome
  loaded : Loaded refusal file c o.workplace.desks
  stands : ∃ rows, Processed.Stands o.files b.table t rows
  quiet : o.files.NoLogAt t

/-- Writing a document leaves the table as it stands. -/
theorem stands_of_grown {fs fs' : Files} (hhome : fs.ProperHome)
    (hstands : Processed.Stands fs b.table t rows) (hforeign : fs.Foreign own path) (ht : t ∈ own)
    (hquiet : fs.NoLogAt t) (hgrown : Files.Grown (fs.reach path) fs fs') :
    Processed.Stands fs' b.table t rows := by
  have htable : t ∉ fs.reach path := by
    refine hforeign.not_mem_reach ht ?_
    rw [hstands.table]
    exact fun heq => nomatch heq
  -- There is nothing beside the table, and no temporary file takes a place there.
  have hbeside {ending : Text} (hnone : fs.node? (Processed.companion t ending) = none)
      (hending : ending = Processed.journalEnding ∨ ending = Processed.aheadEnding) :
      Processed.companion t ending ∉ fs.reach path := by
    rintro (⟨-, hnode⟩ | ⟨hq, -⟩)
    · exact hnode hnone
    · exact Files.companion_not_mem hhome hforeign.plain t hending hq
  exact hstands.within hgrown.toWithin hquiet htable (hbeside hstands.journal (Or.inl rfl))
    (hbeside hstands.ahead (Or.inr rfl))

variable {refusal : Option Text → Option CompileError} {file : Path} {c : Catalogue} {v : Vocabulary}
  {termsField labelField : Json} {workers : Int} {titleField classField : Json}

section Turn

variable (hready : b.Ready refusal file c t o) (hk : Processed.keyOf b.vocabulary = .ok (some k))
  (hforeign : o.files.Foreign own path) (ht : t ∈ own)
include hready hforeign ht

/-- A document stays as it is seen in a turn that writes nothing at its path and nothing to the table. -/
theorem turned_of_grown {ended : Outcome Office DocumentOutcome} {outcome : DocumentOutcome}
    (hresult : ended.result = .ok outcome)
    (hgrown : Files.Grown (o.files.reach path) o.files ended.state.files)
    (hfresh : Files.Fresh o.files ended.state.files)
    (hbytes : (ended.state.files.readBytes path).toOption = (o.files.readBytes path).toOption) :
    b.Turned t path o.files ((b.sight o.files path).stays outcome) ended := by
  obtain ⟨rows, hstands⟩ := hready.stands
  have hafter := stands_of_grown hready.home hstands hforeign ht hready.quiet hgrown
  have hentry := hstands.entry?_congr hafter b.vocabulary
  exact {
    result := hresult
    grown := hgrown.mono (Set.subset_insert t _)
    fresh := hfresh
    stands := ⟨rows, hafter⟩
    bytes := hbytes
    entry := hentry (keyOf o.files path)
    others := fun document _ => hentry document }

/-- A document stays as it is seen in a turn that makes log records and nothing else. -/
theorem turned_of_logged {ended : Outcome Office DocumentOutcome} {outcome : DocumentOutcome}
    (hresult : ended.result = .ok outcome) (hlogged : Files.Logged o.files ended.state.files) :
    b.Turned t path o.files ((b.sight o.files path).stays outcome) ended := by
  obtain ⟨log, hs⟩ := hlogged
  refine turned_of_grown hready hforeign ht hresult ?_ ?_ ?_
  · rw [hs]
    exact .keep _ log o.files
  · rw [hs]
    exact (Files.Within.keep ∅ log o.files).fresh fun q hq => absurd hq (Set.notMem_empty q)
  · rw [hs, Files.readBytes_keep log fun q hq => (hforeign.place q hq).2]

include hk in
/-- A document that was written, and recorded as it is then, has its bytes and its entry from that. -/
theorem turned_of_recorded {ended : Outcome Office DocumentOutcome} {outcome : DocumentOutcome}
    {fs : Files} {bytes : Bytes} {labels : List Text} {now : Instant}
    (hresult : ended.result = .ok outcome) (hgrown : Files.Grown (o.files.reach path) o.files fs)
    (hfresh : Files.Fresh o.files fs) (hread : fs.readBytes path = .ok bytes)
    (hended : ended.state.files = ((Processed.record b.table b.vocabulary (keyOf fs path)
      (fingerprint bytes digest) labels now).run fs).state) :
    b.Turned t path o.files ⟨outcome, some bytes, some (fingerprint bytes digest,
      (Json.list ((Text.sorted labels).map Json.text)).write .line)⟩ ended := by
  obtain ⟨rows, hstands⟩ := hready.stands
  have hwritten := stands_of_grown hready.home hstands hforeign ht hready.quiet hgrown
  rw [keyOf_congr hgrown.toWithin] at hended
  obtain ⟨-, hrecord, hafter⟩ := hwritten.record_stands hk
    (keyOf o.files path) (fingerprint bytes digest) labels now
  rw [← hended] at hrecord hafter
  -- The document is not the table, so that it is read as it was written.
  have hplace (q : Place) (hq : fs.place path = .ok q) : q ∉ ({t} : Set Place) ∧ fs.NoLogAt q := by
    obtain ⟨hout, hlog⟩ := (hforeign.within hgrown.toWithin).place q hq
    refine ⟨?_, hlog⟩
    rw [Set.mem_singleton_iff]
    rintro rfl
    exact hout ht
  have hall : Files.Grown (insert t (o.files.reach path)) o.files ended.state.files :=
    (hgrown.mono (Set.subset_insert t _)).trans
      (hrecord.mono (Set.singleton_subset_iff.mpr (Set.mem_insert t _)))
  exact {
    result := hresult
    grown := hall
    fresh := hfresh.within hgrown.toWithin hrecord.toWithin fun q hq => by
      rw [Set.mem_singleton_iff.mp hq, hstands.table]
      exact fun heq => nomatch heq
    stands := ⟨_, hafter⟩
    bytes := by
      rw [hrecord.readBytes_toOption hplace, hread]
      rfl
    entry := by
      rw [hafter.entry?_eq hk]
      exact congrArg _ (Processed.find?_insert_self rows
        (Processed.rowOf k (keyOf o.files path) (fingerprint bytes digest) labels now))
    others := fun document hne => by
      rw [hafter.entry?_eq hk, hstands.entry?_eq hk, Processed.find?_insert_of_ne rows hne] }

/-- A document that cannot be read fails, and stays as it is seen. -/
theorem turned_unseen (digest : Text) (dryRun : Bool) (hdeep : o.files.NotTooDeep path)
    (hseen : (b.sight o.files path).bytes.bind Element.ofBytes? = none) :
    b.Turned t path o.files ((b.sight o.files path).stays .failed)
      ((b.classify digest dryRun path).run o) := by
  obtain ⟨⟨stage, cause, hr⟩, hs⟩ := b.step.run_unseen dryRun hdeep hseen
  obtain ⟨hresult, hlogged⟩ := classify_failed digest rfl hr
  rw [hs] at hlogged
  exact turned_of_logged hready hforeign ht hresult hlogged

section Found

variable {root : Element} {labels : List Text}
  (hload : Document.load o.files path = .ok ⟨path, root⟩)
  (hlabels : ∀ log, (b.step.classified ⟨path, root⟩ (LogKeeper.keep log o.workplace)).result = .ok labels)
  (hlogged : ∀ d (w : Workplace), Files.Logged w.files (b.step.classified d w).state.files)
include hload hlabels hlogged

/-- In a dry run a document is classified by the labels that are found, and stays as it is seen. -/
theorem turned_dry (digest : Text) : b.Turned t path o.files
    ((b.sight o.files path).stays (.classified (b.step.answerOf ⟨path, root⟩ labels false)))
    ((b.classify digest true path).run o) := by
  obtain ⟨hr, hdry⟩ := AssignmentStep.run_found_dry hload hlabels hlogged
  obtain ⟨hresult, hfiles⟩ := classify_dry digest rfl hr rfl
  rw [← hfiles] at hdry
  exact turned_of_logged hready hforeign ht hresult hdry

/-- A document that cannot be written fails, and stays as it is seen. -/
theorem turned_unwritten (digest : Text) (hcannot : o.files.hasTemporary path = false ∨
      ∃ run, Utf8.encode (b.step.changed ⟨path, root⟩ labels).root.render = .error run) :
    b.Turned t path o.files ((b.sight o.files path).stays .failed)
      ((b.classify digest false path).run o) := by
  have hgrown := AssignmentStep.run_found_grown hload hlabels hlogged
  obtain ⟨stage, cause, hr⟩ := (AssignmentStep.run_found_result hload hlabels hlogged).2 hcannot
  obtain ⟨hresult, log, hfiles⟩ := classify_failed digest rfl hr
  have hquiet (q : Place) (hq : o.files.place path = .ok q) : o.files.NoLogAt q :=
    (hforeign.place q hq).2
  -- A temporary file may be left behind, but not at the path of the document.
  have hleaves := AssignmentStep.run_leaves_document hlogged hquiet (Or.inr ⟨_, hr⟩)
  have hfresh := AssignmentStep.run_found_fresh hload hlabels hlogged
  refine turned_of_grown hready hforeign ht hresult ?_ ?_ ?_
  · rw [hfiles]
    exact hgrown.trans (.keep _ log _)
  · rw [hfiles]
    exact hfresh.within hgrown.toWithin (.keep ∅ log _) fun q hq => absurd hq (Set.notMem_empty q)
  · have hafter (q : Place) (hq : Files.place _ path = .ok q) :=
      hgrown.log q (hquiet q (hgrown.place_iff.mp hq))
    rw [hfiles, Files.readBytes_keep log hafter]
    show (Files.readBytes _ path).toOption = _
    unfold Files.readBytes
    rw [hleaves]
    rfl

include hk in
/-- A document that can be written is classified by the labels that are found, and recorded as it is
written. -/
theorem turned_written (digest : Text) {bytes : Bytes} (hbeside : o.files.hasTemporary path = true)
    (he : Utf8.encode (b.step.changed ⟨path, root⟩ labels).root.render = .ok bytes) :
    b.Turned t path o.files ⟨.classified (b.step.answerOf ⟨path, root⟩ labels true), some bytes,
      some (fingerprint bytes digest, (Json.list ((Text.sorted labels).map Json.text)).write .line)⟩
      ((b.classify digest false path).run o) := by
  have hgrown := AssignmentStep.run_found_grown hload hlabels hlogged
  obtain ⟨hr, hread⟩ := (AssignmentStep.run_found_result hload hlabels hlogged).1 hbeside bytes he
  obtain ⟨rows, hstands⟩ := hready.stands
  have hafter := stands_of_grown hready.home hstands hforeign ht hready.quiet hgrown
  obtain ⟨hresult, hfiles⟩ := classify_recorded digest rfl hr rfl hread hafter hk
  have hfresh := AssignmentStep.run_found_fresh hload hlabels hlogged
  exact turned_of_recorded hready hk hforeign ht hresult hgrown hfresh hread hfiles

end Found

include hk in
/-- In its turn a document meets its fate. -/
theorem process_turned (hv : c.find b.vocabulary = .ok v)
    (hstep : b.step = .byVocabulary termsField labelField workers b.vocabulary titleField classField)
    (hterms : termsField.IsKey) (hlabel : labelField.IsKey) (digest : Text)
    (dryRun skipUnchanged : Bool) (hdeep : o.files.NotTooDeep path) :
    b.Turned t path o.files (b.fate ((Policy.new termsField labelField workers).labelling v refusal)
      digest dryRun skipUnchanged path (b.sight o.files path))
      ((b.process digest dryRun skipUnchanged path).run o) := by
  obtain ⟨rows, hstands⟩ := hready.stands
  rw [process_run hstands hk]
  unfold fate
  by_cases hunchanged : (skipUnchanged && (b.sight o.files path).isUnchanged digest) = true
  · rw [if_pos hunchanged, if_pos hunchanged]
    exact turned_of_logged hready hforeign ht rfl (Files.Logged.refl o.files)
  rw [if_neg hunchanged, if_neg hunchanged]
  rcases hseen : (b.sight o.files path).bytes.bind Element.ofBytes? with _ | root
  · exact turned_unseen hready hforeign ht digest dryRun hdeep hseen
  have hload := Document.load_of_seen hseen
  have hlogged := step_logged hstep
  -- What the step finds are the labels of the title, after any log records.
  have hlabels (log : Log) : (b.step.classified ⟨path, root⟩ (LogKeeper.keep log o.workplace)).result =
      .ok ((Policy.new termsField labelField workers).labelling v refusal
        (Document.logical ⟨path, root⟩ |>.subject b.step.titleField)) := by
    obtain ⟨calls, hdesks⟩ := hready.loaded.keep log
    rw [hstep]
    exact AssignmentStep.classified_labelling hdesks hv hterms hlabel
  dsimp only
  generalize (Policy.new termsField labelField workers).labelling v refusal
    (Document.logical ⟨path, root⟩ |>.subject b.step.titleField) = labels at hlabels ⊢
  cases dryRun with
  | true => exact turned_dry hready hforeign ht hload hlabels hlogged digest
  | false =>
    rw [if_neg Bool.false_ne_true]
    cases hbeside : (b.sight o.files path).beside with
    | false => exact turned_unwritten hready hforeign ht hload hlabels hlogged digest (Or.inl hbeside)
    | true =>
      cases he : Utf8.encode (b.step.changed ⟨path, root⟩ labels).root.render with
      | error run =>
        exact turned_unwritten hready hforeign ht hload hlabels hlogged digest (Or.inr ⟨run, he⟩)
      | ok written => exact turned_written hready hk hforeign ht hload hlabels hlogged digest hbeside he

end Turn

end TitleClasses.Batch
