import TitleClasses.Assignment.Step
import TitleClasses.Proofs.Assignment.Classifier
import TitleClasses.Proofs.Assignment.Policy
import TitleClasses.Proofs.Assignment.Step
import TitleClasses.Proofs.Vocabulary.Catalogue

/-!
# Classifying at a desk

The strategy of a desk asks its vocabulary for records and evaluates their rules with its engine.
Classifying changes nothing of the files but the log, and nothing of the desk but its engine, which some
calls were made to, and what it has loaded of its vocabulary (`classified_of_records`). Once a catalogue
is loaded it stays as it is (`classified_run`). What is found depends on the subject and on the pairs of
rule and label alone.
-/

namespace TitleClasses

/-! ### Log records -/

namespace Files

/-- Whether files are those of another file system after some log records. -/
def Logged (fs fs' : Files) : Prop := ∃ log, fs' = LogKeeper.keep log fs

theorem keep_nil (fs : Files) : LogKeeper.keep [] fs = fs := by
  obtain ⟨home, nodes, temporaries, log⟩ := fs
  show Files.mk home nodes temporaries (log.map fun l => l.take []) = _
  cases log with
  | none => rfl
  | some l => simp [OpenLog.take]

theorem keep_keep (l l' : Log) (fs : Files) :
    LogKeeper.keep l' (LogKeeper.keep l fs) = LogKeeper.keep (l ++ l') fs := by
  obtain ⟨home, nodes, temporaries, log⟩ := fs
  show Files.mk home nodes temporaries ((log.map fun o => o.take l).map fun o => o.take l') =
    Files.mk home nodes temporaries (log.map fun o => o.take (l ++ l'))
  cases log with
  | none => rfl
  | some o => simp [OpenLog.take]

theorem Logged.refl (fs : Files) : Logged fs fs := ⟨[], (keep_nil fs).symm⟩

theorem Logged.trans {fs fs' fs'' : Files} (h : Logged fs fs') (h' : Logged fs' fs'') :
    Logged fs fs'' := by
  obtain ⟨l, rfl⟩ := h
  obtain ⟨l', rfl⟩ := h'
  exact ⟨l ++ l', keep_keep l l' fs⟩

/-- Log records bring rows into no table and take none away. -/
theorem Logged.rows {fs fs' : Files} (h : Logged fs fs') : fs'.rows = fs.rows := by
  obtain ⟨l, rfl⟩ := h
  rfl

theorem Logged.keep {fs fs' : Files} (h : Logged fs fs') (log : Log) :
    Logged fs (LogKeeper.keep log fs') := by
  obtain ⟨l, rfl⟩ := h
  exact ⟨l ++ log, keep_keep l log fs⟩

end Files

/-! ### Asking a vocabulary file -/

theorem Catalogue.find_nil (name : Json) (v : Vocabulary) : Catalogue.find [] name ≠ .ok v := by
  intro h
  unfold find at h
  rcases hkey : name.asKey with e | key
  · simp [hkey, bind, Except.bind] at h
  · simp only [hkey, Keyed.get?, bind, Except.bind] at h
    split at h <;> cases h

namespace VocabularyFile

variable {f : VocabularyFile} {c : Catalogue}

theorem catalogue_loaded (hf : f.loaded = some c) (fs : Files) :
    (catalogue fs).run f = ⟨.ok c, f, []⟩ := by
  unfold catalogue
  rw [Action.run_state_bind]
  simp [hf]

theorem catalogue_unloaded (fs : Files) (file : Path) : (catalogue fs).run ⟨file, none⟩ =
    (reload fs >>= fun _ => do pure ((← Action.state).loaded.getD [])).run ⟨file, none⟩ := rfl

theorem find_run (hf : f.loaded = some c) (fs : Files) (name : Json) :
    (find fs name).run f = ⟨c.find name, f, []⟩ := by
  have hok : ((catalogue fs).run f).result = .ok c := by rw [catalogue_loaded hf]
  unfold find
  rw [Action.run_bind_ok hok, catalogue_loaded hf, Action.run_ofExcept]
  rfl

theorem records_run (hf : f.loaded = some c) (fs : Files) {name : Json} {v : Vocabulary}
    (hv : c.find name = .ok v) : (records fs name).run f = ⟨.ok v.records, f, []⟩ := by
  have hok : ((find fs name).run f).result = .ok v := by rw [find_run hf, hv]
  unfold records
  rw [Action.run_bind_ok hok, find_run hf]
  rfl

theorem digest_run (hf : f.loaded = some c) (fs : Files) {name : Json} {v : Vocabulary}
    (hv : c.find name = .ok v) : (digest fs name).run f = ⟨.ok v.digest, f, []⟩ := by
  have hok : ((find fs name).run f).result = .ok v := by rw [find_run hf, hv]
  unfold digest
  rw [Action.run_bind_ok hok, find_run hf]
  rfl

/-- Whether it was loaded or not, a vocabulary file stays as it is or becomes what loading makes of it.
-/
theorem catalogue_state (f : VocabularyFile) (fs : Files) :
    let o := (catalogue fs).run f
    (o.state = f ∨ o.state = ((reload fs).run f).state) ∧
      ∀ c, o.result = .ok c → c = o.state.loaded.getD [] := by
  obtain ⟨file, _ | c⟩ := f
  · rw [catalogue_unloaded]
    rcases h : ((reload fs).run ⟨file, none⟩).result with e | u
    · rw [Action.run_bind_error h]
      exact ⟨.inr rfl, fun c hc => by cases hc⟩
    · rw [Action.run_bind_ok h]
      exact ⟨.inr rfl, fun c hc => (Except.ok.inj hc).symm⟩
  · rw [catalogue_loaded rfl]
    exact ⟨.inl rfl, fun c hc => (Except.ok.inj hc).symm⟩

/-- What is found is found in what is loaded then. -/
theorem find_state (f : VocabularyFile) (fs : Files) (name : Json) :
    let o := (find fs name).run f
    (o.state = f ∨ o.state = ((reload fs).run f).state) ∧
      ∀ v, o.result = .ok v → ∃ c, o.state.loaded = some c ∧ c.find name = .ok v := by
  obtain ⟨hstate, hresult⟩ := catalogue_state f fs
  unfold find
  rcases hc : ((catalogue fs).run f).result with e | c
  · rw [Action.run_bind_error hc]
    exact ⟨hstate, fun v hv => by cases hv⟩
  have hloaded := hresult c hc
  rw [Action.run_bind_ok hc, Action.run_ofExcept]
  refine ⟨hstate, fun v hv => ?_⟩
  change c.find name = .ok v at hv
  show ∃ c, ((catalogue fs).run f).state.loaded = some c ∧ c.find name = .ok v
  -- Nothing is found where nothing is loaded.
  rcases hs : ((catalogue fs).run f).state.loaded with _ | c'
  · rw [hloaded, hs] at hv
    exact absurd hv (Catalogue.find_nil name v)
  · rw [hloaded, hs] at hv
    exact ⟨c', rfl, hv⟩

/-- The digest of a vocabulary is that of the one which is found. -/
theorem digest_state (f : VocabularyFile) (fs : Files) (name : Json) :
    let o := (digest fs name).run f
    (o.state = f ∨ o.state = ((reload fs).run f).state) ∧ ∀ t, o.result = .ok t →
      ∃ c v, o.state.loaded = some c ∧ c.find name = .ok v ∧ t = v.digest := by
  obtain ⟨hstate, hresult⟩ := find_state f fs name
  unfold digest
  rcases hv : ((find fs name).run f).result with e | v
  · rw [Action.run_bind_error hv]
    exact ⟨hstate, fun t ht => by cases ht⟩
  obtain ⟨c, hloaded, hfind⟩ := hresult v hv
  rw [Action.run_bind_ok hv]
  refine ⟨hstate, fun t ht => ⟨c, v, hloaded, hfind, ?_⟩⟩
  exact (Except.ok.inj ht).symm

end VocabularyFile

/-! ### The strategy of a desk -/

/-- What a policy finds for a subject in a vocabulary: nothing if there is no subject. -/
def Policy.findings (p : Policy) (v : Vocabulary) (e : Engine) (subject : Text) :
    Except Fault (List Text) :=
  if subject.isEmpty then .ok [] else ((p.assignRecords v.records (some subject)).run e).result

/-- What is found is the same with any sound engine. -/
theorem Policy.findings_agree (p : Policy) (v : Vocabulary) {e e' : Engine} (he : e.Sound)
    (he' : e'.Sound) (hr : e.refusal = e'.refusal) (subject : Text) :
    p.findings v e subject = p.findings v e' subject := by
  unfold findings
  rw [(p.steady_assignRecords v.records (some subject)).agrees he he' hr]

/-- What is found is the same with any sound engine and in any vocabulary with the same digest source.
-/
theorem Policy.findings_congr {p : Policy} {v v' : Vocabulary} {e e' : Engine}
    (hv : ∀ r ∈ v.records, r.WellFormed) (hv' : ∀ r ∈ v'.records, r.WellFormed)
    (hsource : v.digestSource = v'.digestSource) (he : e.Sound) (he' : e'.Sound)
    (hr : e.refusal = e'.refusal) (subject : Text) :
    p.findings v e subject = p.findings v' e' subject := by
  have hrecords := p.assignRecords_congr (Vocabulary.pairs_of_digestSource hv hv' hsource p)
    (some subject)
  rw [← p.findings_agree v' he he' hr]
  unfold findings
  rw [hrecords]

namespace Workplace

theorem keep_nil (w : Workplace) : LogKeeper.keep [] w = w := by
  show { w with files := LogKeeper.keep [] w.files } = w
  rw [Files.keep_nil]

theorem keep_keep (l l' : Log) (w : Workplace) :
    LogKeeper.keep l' (LogKeeper.keep l w) = LogKeeper.keep (l ++ l') w := by
  show { w with files := LogKeeper.keep l' (LogKeeper.keep l w.files) } =
    { w with files := LogKeeper.keep (l ++ l') w.files }
  rw [Files.keep_keep]

/-- An action at the only desk. -/
theorem atDesk_run {α : Type} {w : Workplace} {d : Desk} (hw : w.desks = [d])
    (a : Files → Action Desk α) :
    (atDesk 0 a).run w = ⟨((a w.files).run d).result,
      ⟨LogKeeper.keep ((a w.files).run d).log w.files, [((a w.files).run d).state]⟩,
      ((a w.files).run d).log⟩ := by
  unfold Action.run atDesk
  simp only [hw, List.getElem?_cons_zero, List.set_cons_zero]

/-- An action at a desk leaves the files as they are but for log records. -/
theorem atDesk_logged {α : Type} (i : Nat) (a : Files → Action Desk α) (w : Workplace) :
    Files.Logged w.files ((atDesk i a).run w).state.files := by
  unfold Action.run atDesk
  cases w.desks[i]? with
  | none => exact Files.Logged.refl w.files
  | some d => exact ⟨_, rfl⟩

end Workplace

/-- The strategy of a desk leaves the files as they are but for log records. -/
theorem Strategy.ofDesk_logged (i : Nat) (policy : Policy) (vocabulary titleField : Json) (e : Element)
    (w : Workplace) : Files.Logged w.files
      (((Strategy.ofDesk i policy vocabulary titleField).labels e).run w).state.files := by
  unfold ofDesk ofVocabulary
  dsimp only
  split
  · rw [Action.run_note_bind]
    exact (Files.Logged.refl w.files).keep _
  · -- The vocabulary is asked and then the engine, at the same desk.
    refine Action.state_bind (fun w' : Workplace => Files.Logged w.files w'.files)
      (Workplace.atDesk_logged i _ w) ?_
    intro records _
    rw [Action.run_map]
    exact (Workplace.atDesk_logged i _ w).trans (Workplace.atDesk_logged i _ _)

/-- What the strategy of the only desk does when its file has the records of a vocabulary, which it is
asked for if there is a title. It answers with what the policy finds in them, and leaves the desk what
asking for the records leaves of its file, and its engine after some calls. -/
theorem Strategy.ofDesk_run {w : Workplace} {d : Desk} {v : Vocabulary} {vocabulary : Json}
    {titleField : Json} {e : Element} (hw : w.desks = [d])
    (hv : e.subject titleField ≠ [] →
      ((VocabularyFile.records w.files vocabulary).run d.vocabulary).result = .ok v.records)
    (policy : Policy) :
    let o := ((Strategy.ofDesk 0 policy vocabulary titleField).labels e).run w
    o.result = (policy.findings v d.engine (e.subject titleField)).map (·.map some) ∧
      ∃ calls : List Engine.Call, o.state.desks =
        [⟨if (e.subject titleField).isEmpty then d.vocabulary
            else ((VocabularyFile.records w.files vocabulary).run d.vocabulary).state,
          calls.foldl Engine.Call.effect d.engine⟩] := by
  unfold ofDesk ofVocabulary Policy.findings
  dsimp only
  split_ifs with hempty
  · -- Without a title neither the vocabulary nor the engine is asked.
    rw [Action.run_note_bind]
    exact ⟨rfl, [], hw⟩
  · replace hv := hv (by simpa using hempty)
    have hrecords := Workplace.atDesk_run hw fun fs =>
      (VocabularyFile.records fs vocabulary).within Desk.vocabulary fun f d => { d with vocabulary := f }
    rw [Action.run_within] at hrecords
    dsimp only at hrecords
    rw [hv] at hrecords
    have hok : ((Workplace.onVocabulary 0 fun fs => VocabularyFile.records fs vocabulary).run
        w).result = .ok v.records := by
      unfold Workplace.onVocabulary
      rw [hrecords]
    rw [Action.run_bind_ok hok]
    unfold Workplace.onVocabulary
    rw [hrecords]
    -- The policy does with the engine what some calls do.
    have hsteady := policy.steady_assignRecords v.records (some (e.subject titleField))
    obtain ⟨calls, hcalls⟩ := hsteady.calls d.engine
    dsimp only
    rw [Action.run_map]
    unfold Workplace.onEngine
    rw [Workplace.atDesk_run rfl, Action.run_within, hcalls]
    exact ⟨rfl, calls, rfl⟩

/-! ### Classifying -/

namespace Classifier

variable {w : Workplace}

/-- Asking a strategy adds log records to what the strategy does. -/
theorem ask_run (e : Element) (s : Strategy Workplace) :
    ((ask e s).run w).result = ((s.labels e).run w).result ∧
      ∃ log, ((ask e s).run w).state = LogKeeper.keep log ((s.labels e).run w).state := by
  refine ⟨ask_result s, ?_⟩
  unfold ask
  rcases h : ((s.labels e).run w).result with f | found
  · rw [Action.run_bind_error h]
    exact ⟨[], (Workplace.keep_nil _).symm⟩
  · rw [Action.run_bind_ok h]
    exact ⟨_, rfl⟩

/-- With one strategy, classifying cleans what it finds and adds log records. -/
theorem classify_run (e : Element) (s : Strategy Workplace) :
    ((classify [s] e).run w).result = ((s.labels e).run w).result.map clean ∧
      ∃ log, ((classify [s] e).run w).state = LogKeeper.keep log ((s.labels e).run w).state := by
  -- The one strategy is the first and the last that is asked.
  obtain ⟨hresult, log, hstate⟩ := ask_run (w := w) e s
  unfold classify
  rcases h : ((s.labels e).run w).result with f | found
  · have heach : ((Action.each (ask e) [s]).run w).result = .error f := by
      rw [Action.each_cons, Action.run_bind_error (hresult.trans h)]
    rw [Action.run_bind_error heach, Action.each_cons, Action.run_bind_error (hresult.trans h)]
    exact ⟨rfl, log, hstate⟩
  · have heach : ((Action.each (ask e) [s]).run w).result = .ok [found] := by
      rw [Action.each_cons, Action.run_bind_ok (hresult.trans h)]
      rfl
    rw [Action.run_bind_ok heach, Action.each_cons, Action.run_bind_ok (hresult.trans h)]
    refine ⟨?_, ?_⟩
    · show Except.ok (clean [found].flatten) = Except.ok (clean found)
      rw [List.flatten_cons, List.flatten_nil, List.append_nil]
    · show ∃ more, LogKeeper.keep _ ((ask e s).run w).state = LogKeeper.keep more _
      rw [hstate]
      exact ⟨_, Workplace.keep_keep log _ _⟩

end Classifier

namespace AssignmentStep

variable {w : Workplace} {d : Desk} {v : Vocabulary} {vocabulary titleField : Json}

/-- A step with the strategy of a desk leaves the files as they are but for log records when it
classifies. -/
theorem classified_logged (policy : Policy) (vocabulary titleField classField : Json)
    (document : Document) (w : Workplace) : Files.Logged w.files (AssignmentStep.classified
      ⟨[.ofDesk 0 policy vocabulary titleField], titleField, classField⟩ document w).state.files := by
  obtain ⟨-, log, hstate⟩ := Classifier.classify_run (w := w) document.logical
    (.ofDesk 0 policy vocabulary titleField)
  unfold classified
  dsimp only
  rw [hstate]
  exact (Strategy.ofDesk_logged 0 policy vocabulary titleField document.logical w).keep log

/-- What a step with the strategy of the only desk finds for a document when the file of the desk has the
records of a vocabulary, which it is asked for if there is a title, and what it leaves behind. -/
theorem classified_of_records {document : Document} (hw : w.desks = [d])
    (hv : document.logical.subject titleField ≠ [] →
      ((VocabularyFile.records w.files vocabulary).run d.vocabulary).result = .ok v.records)
    (policy : Policy) (classField : Json) :
    let o := AssignmentStep.classified
      ⟨[.ofDesk 0 policy vocabulary titleField], titleField, classField⟩ document w
    o.result = (policy.findings v d.engine (document.logical.subject titleField)).map
        (fun found => Classifier.clean (found.map some)) ∧
      ∃ calls : List Engine.Call, o.state.desks =
        [⟨if (document.logical.subject titleField).isEmpty then d.vocabulary
            else ((VocabularyFile.records w.files vocabulary).run d.vocabulary).state,
          calls.foldl Engine.Call.effect d.engine⟩] := by
  obtain ⟨hr, calls, hdesks⟩ := Strategy.ofDesk_run hw hv policy
  obtain ⟨hresult, log, hstate⟩ := Classifier.classify_run (w := w) document.logical
    (.ofDesk 0 policy vocabulary titleField)
  unfold classified
  dsimp only
  rw [hresult, hr, hstate]
  refine ⟨?_, calls, hdesks⟩
  cases policy.findings v d.engine (document.logical.subject titleField) <;> rfl

/-- What a step with the strategy of the only desk finds for a document where the vocabulary is loaded,
and what it leaves behind. -/
theorem classified_run {c : Catalogue} (hw : w.desks = [d]) (hc : d.vocabulary.loaded = some c)
    (hv : c.find vocabulary = .ok v) (policy : Policy) (classField : Json) (document : Document) :
    let o := AssignmentStep.classified
      ⟨[.ofDesk 0 policy vocabulary titleField], titleField, classField⟩ document w
    o.result = (policy.findings v d.engine (document.logical.subject titleField)).map
        (fun found => Classifier.clean (found.map some)) ∧
      Files.Logged w.files o.state.files ∧ ∃ calls : List Engine.Call,
        o.state.desks = [{ d with engine := calls.foldl Engine.Call.effect d.engine }] := by
  have hrecords := VocabularyFile.records_run hc w.files hv
  have hasked (_ : document.logical.subject titleField ≠ []) :=
    congrArg Outcome.result hrecords
  obtain ⟨hresult, calls, hdesks⟩ := classified_of_records hw hasked policy classField
  refine ⟨hresult, classified_logged policy vocabulary titleField classField document w, calls, ?_⟩
  rw [hdesks, hrecords, ite_self]

end AssignmentStep

end TitleClasses
