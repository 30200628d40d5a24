import TitleClasses.Command.Program
import TitleClasses.Proofs.Assignment.Aborted
import TitleClasses.Proofs.Assignment.Skipping

/-!
# One run of a schedule

A run of a schedule loads the vocabularies first. If that succeeds, the batch is run at a desk with what
was loaded (`Schedule.Carried`); if it fails in a way that leaves out a run, nothing has happened but
that this was logged (`Schedule.LeftOut`). For a vocabulary file of the right shape there is nothing
else, neither for a run of the schedule nor for a step that is the first to ask for the vocabulary
(`Schedule.vocabulary_faults_contained`). A vocabulary file that holds a list ends both.
-/

namespace TitleClasses

namespace Session

variable {s : Session} {d : Desk}

/-- A session with another workplace. -/
def withWork (s : Session) (w : Workplace) : Session :=
  { s with office := { s.office with workplace := w } }

/-- An action on the vocabulary file of the only desk. -/
theorem onVocabulary_run {α : Type} (hdesks : s.office.workplace.desks = [d])
    (a : Files → Action VocabularyFile α) :
    let asked := (a s.files).run d.vocabulary
    (onVocabulary a).run s = ⟨asked.result, s.withWork
      ⟨LogKeeper.keep asked.log s.files, [{ d with vocabulary := asked.state }]⟩, asked.log⟩ := by
  have hdesk := Workplace.atDesk_run hdesks fun fs =>
    (a fs).within Desk.vocabulary fun v d => { d with vocabulary := v }
  unfold onVocabulary inOffice Office.atWork Workplace.onVocabulary
  rw [Action.run_within, Action.run_within, hdesk]
  rfl

end Session

namespace Schedule

variable {s : Schedule} {session : Session} {file : Path} {loaded : Option Catalogue} {engine : Engine}

/-! ### Loading -/

/-- Loads the vocabularies and asks for one of them. -/
def loading (name : Json) : Action Session Vocabulary := do
  Session.onVocabulary VocabularyFile.reload
  Session.onVocabulary fun fs => VocabularyFile.find fs name

section Loading

variable (hdesks : session.office.workplace.desks = [⟨⟨file, loaded⟩, engine⟩])
  (hfile : VocabularyFile.Loadable session.files file)
include hdesks hfile

/-- Loading changes nothing but what is loaded and the log. It gives the vocabulary that was loaded then,
or fails in a way that leaves out a run. -/
theorem loading_cases {name : Json} (hname : name.IsKey) :
    let reloaded := (VocabularyFile.reload session.files).run ⟨file, loaded⟩
    let o := (loading name).run session
    (∃ log, o.state = session.withWork
      ⟨LogKeeper.keep log session.files, [⟨reloaded.state, engine⟩]⟩) ∧
    ((∃ f, o.result = .error f ∧ leavesOut f.family = true) ∨
      ∃ c v, reloaded.state = ⟨file, some c⟩ ∧ c.find name = .ok v ∧ o.result = .ok v) := by
  intro reloaded o
  have hreload : (Session.onVocabulary VocabularyFile.reload).run session =
      ⟨reloaded.result, session.withWork
        ⟨LogKeeper.keep reloaded.log session.files, [⟨reloaded.state, engine⟩]⟩, reloaded.log⟩ :=
    Session.onVocabulary_run hdesks VocabularyFile.reload
  rcases VocabularyFile.reload_cases hfile loaded with ⟨f, hf, hfamily, -⟩ | ⟨c, hc, hstate, hnames⟩
  · have hfails : ((Session.onVocabulary VocabularyFile.reload).run session).result = .error f := by
      rw [hreload]
      exact hf
    have ho : o = ⟨.error f, _, _⟩ := Action.run_bind_error hfails _
    rw [ho, hreload]
    refine ⟨⟨_, rfl⟩, Or.inl ⟨f, rfl, ?_⟩⟩
    rcases List.mem_cons.mp hfamily with hos | hvalue
    · rw [hos]
      rfl
    · rw [List.mem_singleton.mp hvalue]
      rfl
  · have hanswers : ((Session.onVocabulary VocabularyFile.reload).run session).result = .ok () := by
      rw [hreload]
      exact hc
    have ho : o = ⟨_, _, _⟩ := Action.run_bind_ok hanswers _
    -- The vocabulary is then asked of what was loaded.
    have hasked : (Session.onVocabulary fun fs => VocabularyFile.find fs name).run
        ((Session.onVocabulary VocabularyFile.reload).run session).state =
          ⟨c.find name, session.withWork ⟨LogKeeper.keep [] (LogKeeper.keep reloaded.log session.files),
            [⟨reloaded.state, engine⟩]⟩, []⟩ := by
      have hloaded : reloaded.state.loaded = some c := by rw [hstate]
      rw [hreload, Session.onVocabulary_run (d := ⟨reloaded.state, engine⟩) rfl,
        VocabularyFile.find_run hloaded]
      rfl
    rw [ho, hasked]
    refine ⟨⟨reloaded.log ++ [], by rw [← Files.keep_keep]⟩, ?_⟩
    rcases hfind : c.find name with f | v
    · have hkey := Catalogue.failsOnly_find hnames hname f hfind
      refine Or.inl ⟨f, rfl, ?_⟩
      rw [List.mem_singleton.mp hkey]
      rfl
    · exact Or.inr ⟨c, v, hstate, hfind, rfl⟩

/-- Loading is told whether it has succeeded, and a fault is logged. -/
theorem load_cases (s : Schedule) (hname : s.setup.profile.vocabulary.IsKey) :
    let reloaded := (VocabularyFile.reload session.files).run ⟨file, loaded⟩
    let o := s.load.run session
    (∃ log, o.state = session.withWork
      ⟨LogKeeper.keep log session.files, [⟨reloaded.state, engine⟩]⟩) ∧
    ((o.result = .ok false ∧ ∃ message, ⟨.error, .program, message⟩ ∈ o.log) ∨
      ∃ c v, reloaded.state = ⟨file, some c⟩ ∧ c.find s.setup.profile.vocabulary = .ok v ∧
        o.result = .ok true) := by
  intro reloaded o
  obtain ⟨⟨log, hstate⟩, h⟩ := loading_cases hdesks hfile hname
  rcases h with ⟨f, hf, hfamily⟩ | ⟨c, v, hcatalogue, hv, hr⟩
  · have ho : o = ⟨_, _, _⟩ := Action.run_attempt_bind hf _
    simp only [if_pos hfamily, hstate, Action.run_note_bind] at ho
    rw [ho]
    let note : LogRecord :=
      ⟨.error, .program, Text.concat ["Cannot load vocabularies, skipping this run: ", f.message]⟩
    refine ⟨⟨log ++ [note], ?_⟩, Or.inl ⟨rfl, _, List.mem_append_right _ List.mem_cons_self⟩⟩
    rw [← Files.keep_keep]
    rfl
  · have ho : o = ⟨_, _, _⟩ := Action.run_attempt_bind hr _
    rw [hstate] at ho
    rw [ho]
    exact ⟨⟨log, rfl⟩, Or.inr ⟨c, v, hcatalogue, hv, rfl⟩⟩

end Loading

/-! ### One run -/

/-- Whether a run was left out: it has answered, this was logged as an error, and nothing of the files
has changed but the log. -/
structure LeftOut (session : Session) (o : Outcome Session Unit) : Prop where
  answered : o.result = .ok ()
  told : ∃ message, ⟨.error, .program, message⟩ ∈ o.log
  files : Files.Logged session.files o.state.files
  printed : o.state.printed = session.printed

/-- Whether a run was carried out in an office: it does what the batch does there with the documents of
the directory, and prints a summary if that has answered. -/
structure Carried (s : Schedule) (session : Session) (ready : Office) (o : Outcome Session Unit) :
    Prop where
  answered : o.result =
    ((s.setup.batch.run (s.documents ready.files) s.dryRun true).run ready).result.map fun _ => ()
  office : o.state.office =
    ((s.setup.batch.run (s.documents ready.files) s.dryRun true).run ready).state
  printed : ∀ b, ((s.setup.batch.run (s.documents ready.files) s.dryRun true).run ready).result = .ok b →
    o.state.printed = session.printed ++ [.line (s.summary b)]

/-- Runs the batch on the documents of the directory, and prints a summary. -/
def assigning (s : Schedule) : Action Session Unit := do
  let documents := s.documents (← Action.state).files
  let b ← Session.inOffice (s.setup.batch.run documents s.dryRun true)
  Session.say (s.summary b)

theorem assigning_carried (s : Schedule) (session : Session) :
    s.Carried session session.office (s.assigning.run session) := by
  have hrun : s.assigning.run session = ((Session.inOffice
    (s.setup.batch.run (s.documents session.files) s.dryRun true)) >>= fun b =>
      Session.say (s.summary b)).run session := rfl
  rcases hran : ((s.setup.batch.run (s.documents session.files) s.dryRun true).run
    session.office).result with f | b
  · have hfails : ((Session.inOffice (s.setup.batch.run (s.documents session.files) s.dryRun true)).run
        session).result = .error f := hran
    rw [hrun, Action.run_bind_error hfails]
    exact ⟨congrArg (Except.map fun _ => ()) hran.symm, rfl, fun b hb => nomatch hran.symm.trans hb⟩
  · have hanswers : ((Session.inOffice (s.setup.batch.run (s.documents session.files) s.dryRun true)).run
        session).result = .ok b := hran
    rw [hrun, Action.run_bind_ok hanswers]
    refine ⟨congrArg (Except.map fun _ => ()) hran.symm, rfl, fun b' hb' => ?_⟩
    obtain rfl := Except.ok.inj (hran.symm.trans hb')
    rfl

/-- With a vocabulary file of the right shape, a run is left out or it is carried out at a desk where what
the file holds now is loaded. -/
theorem runOnce_cases (hdesks : session.office.workplace.desks = [⟨⟨file, loaded⟩, engine⟩])
    (hfile : VocabularyFile.Loadable session.files file) (s : Schedule)
    (hname : s.setup.profile.vocabulary.IsKey) :
    LeftOut session (s.runOnce.run session) ∨
      ∃ c v ready, ((VocabularyFile.reload session.files).run ⟨file, loaded⟩).state = ⟨file, some c⟩ ∧
        c.find s.setup.profile.vocabulary = .ok v ∧
        ready.workplace.desks = [⟨⟨file, some c⟩, engine⟩] ∧
        Files.Logged session.files ready.files ∧ s.Carried session ready (s.runOnce.run session) := by
  obtain ⟨⟨log, hstate⟩, h⟩ := load_cases hdesks hfile s hname
  rcases h with ⟨hr, message, htold⟩ | ⟨c, v, hcatalogue, hv, hr⟩
  · have hrun : s.runOnce.run session = ⟨_, _, _⟩ := Action.run_bind_ok hr _
    rw [hstate] at hrun
    refine Or.inl ?_
    rw [hrun]
    exact ⟨rfl, ⟨message, List.mem_append_left _ htold⟩, ⟨log, rfl⟩, rfl⟩
  · have hrun : s.runOnce.run session = ⟨_, _, _⟩ := Action.run_bind_ok hr _
    rw [hstate, hcatalogue] at hrun
    let ready : Office :=
      { session.office with workplace := ⟨LogKeeper.keep log session.files, [⟨⟨file, some c⟩, engine⟩]⟩ }
    have hcarried := s.assigning_carried { session with office := ready }
    refine Or.inr ⟨c, v, ready, hcatalogue, hv, rfl, ⟨log, rfl⟩, ?_⟩
    rw [hrun]
    exact ⟨hcarried.answered, hcarried.office, hcarried.printed⟩

open History (library byTerms poem poemPath)

/-- The poem, and a vocabulary file with a text. -/
def poemFiles (vocabularies : String) : Files :=
  ⟨[], [(["vocabularies"], .file (Utf8.bytesOf vocabularies)), (["poem"], .file poem)], 0, none⟩

/-- A session with these files, where no vocabulary is loaded yet. -/
def poemSession (vocabularies : String) : Session :=
  ⟨⟨⟨poemFiles vocabularies, [⟨⟨library.settings.vocabularyFile, none⟩, .after library.refusal []⟩]⟩,
    ⟨0, 1⟩⟩, [], none⟩

/-- A schedule for the documents of the working directory. -/
def poemSchedule : Schedule :=
  ⟨⟨library.settings, byTerms, Program.batchOf library.settings byTerms⟩, ⟨[], []⟩, 15, false⟩

theorem loadable_poemFiles :
    VocabularyFile.Loadable (poemFiles "]") library.settings.vocabularyFile := by
  have hfamily : familyIn ((poemFiles "]").readJson library.settings.vocabularyFile) =
      some Family.value := by decide +kernel
  constructor
  · intro deep hdeep
    rw [hdeep] at hfamily
    cases hfamily
  · intro data hdata
    rw [hdata] at hfamily
    cases hfamily

end Schedule

end TitleClasses
