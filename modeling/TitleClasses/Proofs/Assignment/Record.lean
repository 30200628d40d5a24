import TitleClasses.Proofs.Assignment.Isolation

/-!
# Documents that are on record

A document is on record if its entry in the table tells the fingerprint that it has (`Batch.OnRecord`). A
turn that answers leaves its document on record, or fails and leaves it as it was (`Batch.Answers`), and it
carries every document (`Batch.Answers.carries`): what was on record stays so, in the turns of others and in
its own, also in those of another path to the same file.

Whether a turn answers depends on the bytes of its document (`Batch.Bearable`). A document is settled if it
is on record or a turn can bear it: then a turn that passes over what is on record answers
(`Batch.process_settled`); and it is settled wherever a turn has answered (`Batch.process_answers`).
-/

namespace TitleClasses

open Utf8 (Bytes)

/-- What is read at a path depends on the place that it leads to. -/
theorem Files.readBytes_of_place {fs : Files} {p p' : Path} {q : Place} (h : fs.place p = .ok q)
    (h' : fs.place p' = .ok q) : (fs.readBytes p).toOption = (fs.readBytes p').toOption := by
  unfold readBytes nodeAt
  rw [h, h']
  dsimp only
  cases fs.node? q with
  | none => rfl
  | some n => cases n <;> rfl

/-- A fault of the family of steps is a fault of a step. -/
theorem Fault.eq_step {f : Fault} (h : f.family = .step) : ∃ path stage cause, f = .step path stage cause := by
  cases f with
  | step path stage cause => exact ⟨path, stage, cause, rfl⟩
  | shape s => cases s <;> cases h
  | unreadable e => cases e <;> cases h
  | store s => cases s <;> cases h
  | _ => cases h

/-- What is recorded is recorded under a key. -/
theorem Processed.key_of_record {path : Path} {vocabulary : Json} {document mark : Text}
    {labels : List Text} {now : Instant} {fs : Files}
    (h : ((record path vocabulary document mark labels now).run fs).result = .ok ()) :
    ∃ k, keyOf vocabulary = .ok (some k) := by
  unfold record at h
  obtain ⟨rows, -, h⟩ := Action.result_bind_eq_ok.mp h
  obtain ⟨key, hkey, h⟩ := Action.result_bind_eq_ok.mp h
  rw [Action.run_ofExcept] at hkey
  cases key with
  | none => cases h
  | some k => exact ⟨k, hkey⟩

namespace Batch

variable {b : Batch} {fs fs' : Files} {own : Set Place} {t : Place} {p path : Path} {digest : Text}
  {bytes : Bytes}

/-- Whether the entry of a document tells the fingerprint that the document has. -/
def OnRecord (b : Batch) (digest : Text) (fs : Files) (path : Path) : Prop :=
  ∃ bytes labels, fs.readBytes path = .ok bytes ∧
    Processed.entry? fs b.table b.vocabulary (keyOf fs path) = some (fingerprint bytes digest, labels)

/-- Whether a document whose fate is known is on record then. -/
def Fate.OnRecord (digest : Text) (f : Fate) : Prop :=
  ∃ bytes labels, f.bytes = some bytes ∧ f.entry = some (fingerprint bytes digest, labels)

theorem isUnchanged_sight : (b.sight fs path).isUnchanged digest = true ↔ b.OnRecord digest fs path := by
  unfold OnRecord sight Sight.isUnchanged
  cases fs.readBytes path with
  | error f => simp [Except.toOption]
  | ok bytes =>
    cases Processed.entry? fs b.table b.vocabulary (keyOf fs path) with
    | none => simp [Except.toOption]
    | some entry =>
      obtain ⟨mark, labels⟩ := entry
      simp [Except.toOption]

theorem OnRecord.key (h : b.OnRecord digest fs path) :
    ∃ k, Processed.keyOf b.vocabulary = .ok (some k) := by
  obtain ⟨bytes, labels, -, hentry⟩ := h
  unfold Processed.entry? at hentry
  split at hentry
  next rs k _ hk => exact ⟨k, hk⟩
  · cases hentry

/-! ### What a turn can bear -/

/-- Whether a turn answers for what stands at a path, where it is known what is found for a title: it is
not nested too deeply, and if nothing can be found for its title that is a fault of the step. -/
structure Bearable (b : Batch) (found : Text → Except Fault (List Text)) (fs : Files) (path : Path) :
    Prop where
  deep : fs.NotTooDeep path
  told : ∀ d, Document.load fs path = .ok d →
    ∀ f, found (d.logical.subject b.step.titleField) = .error f → (Stage.classify.told path f).family = .step

variable {found : Text → Except Fault (List Text)}

/-- What a turn can bear is told by the bytes at the path. -/
theorem Bearable.congr (h : b.Bearable found fs path)
    (hsame : (fs'.readBytes path).toOption = (fs.readBytes path).toOption) :
    b.Bearable found fs' path where
  deep := h.deep.congr hsame
  told d hload f hf := by
    obtain ⟨bytes, hread, hroot⟩ := Document.bytes_of_load hload
    obtain ⟨rfl, -⟩ := Document.load_ok hload
    rw [hread] at hsame
    exact h.told d (Document.load_of_seen (hsame ▸ hroot)) f hf

/-- A turn bears an empty file. -/
theorem bearable_of_empty (hread : fs.readBytes path = .ok []) : b.Bearable found fs path := by
  have hnone : Element.ofBytes? [] = none := by decide
  have hjson : ∃ complaint place, fs.readJson path = .error (.unreadable (.malformed complaint place)) := by
    rw [Files.readJson_of_readText (Files.readText_of_decode (u := []) hread rfl)]
    exact ⟨_, _, rfl⟩
  obtain ⟨complaint, place, hjson⟩ := hjson
  refine ⟨fun deep hdeep => (nomatch hjson.symm.trans hdeep), fun d hload => ?_⟩
  obtain ⟨bytes, hread', hroot⟩ := Document.bytes_of_load hload
  obtain rfl := Except.ok.inj (hread.symm.trans hread')
  cases hnone.symm.trans hroot

/-- Whether a document is on record or a turn can bear it, so that a turn which passes over what is on
record answers. -/
def Settled (b : Batch) (digest : Text) (found : Text → Except Fault (List Text)) (fs : Files)
    (path : Path) : Prop :=
  b.OnRecord digest fs path ∨ b.Bearable found fs path

/-- What holds where a turn that answers has ended: its document has failed and is as it was, or it is on
record. -/
def Answers (b : Batch) (digest : Text) (t : Place) (path : Path) (fs : Files)
    (ended : Outcome Office DocumentOutcome) : Prop :=
  ∃ f, b.Turned t path fs f ended ∧ (f = (b.sight fs path).stays .failed ∨ f.OnRecord digest)

/-- A fault that is none of the step is not contained. -/
theorem classify_error {o : Office} {dryRun : Bool} {f : Fault}
    (hr : ((b.step.run path dryRun).run o.workplace).result = .error f) (hf : f.family ≠ .step) :
    ((b.classify digest dryRun path).run o).result = .error f := by
  unfold classify
  rw [attempt_atWork_bind hr]
  cases f with
  | step p stage cause => exact absurd rfl hf
  | _ => rfl

section Turn

variable {o : Office} {refusal : Option Text → Option CompileError} {file : Path} {c : Catalogue}
  {v : Vocabulary} {termsField labelField : Json} {workers : Int} {titleField classField : Json} {k : Text}
  {d : Document}

/-- What the step finds for a document is what is found for its title, after any log records. -/
theorem classified_ready (hready : b.Ready refusal file c t o) (hv : c.find b.vocabulary = .ok v)
    (hstep : b.step = .byVocabulary termsField labelField workers b.vocabulary titleField classField)
    (d : Document) (log : Log) :
    (b.step.classified d (LogKeeper.keep log o.workplace)).result =
      ((Policy.new termsField labelField workers).findings v (.new refusal)
        (d.logical.subject b.step.titleField)).map fun found => Classifier.clean (found.map some) := by
  obtain ⟨calls, hdesks⟩ := hready.loaded.keep log
  rw [hstep]
  exact AssignmentStep.classified_findings hdesks hv d

variable (hready : b.Ready refusal file c t o) (hv : c.find b.vocabulary = .ok v)
  (hstep : b.step = .byVocabulary termsField labelField workers b.vocabulary titleField classField)
include hready hv hstep

/-- A turn does not answer for a document that it does not bear. -/
theorem classify_unborne (digest : Text)
    (hnot : ¬ b.Bearable ((Policy.new termsField labelField workers).findings v (.new refusal)) o.files
      path) : ∃ f, ((b.classify digest false path).run o).result = .error f := by
  by_cases hdeep : o.files.NotTooDeep path
  · have hfound : ∃ d, Document.load o.files path = .ok d ∧ ∃ f,
        (Policy.new termsField labelField workers).findings v (.new refusal)
          (d.logical.subject b.step.titleField) = .error f ∧
        (Stage.classify.told path f).family ≠ .step := by
      by_contra hall
      push Not at hall
      exact hnot ⟨hdeep, hall⟩
    obtain ⟨d, hload, f, hf, hfamily⟩ := hfound
    obtain ⟨log, hread⟩ := Document.read_run_ok hload
    have hc : (b.step.classified d (LogKeeper.keep log o.workplace)).result = .error f := by
      rw [classified_ready hready hv hstep, hf]
      rfl
    obtain ⟨hr, -⟩ := AssignmentStep.run_of_unclassified hread false hc
    exact ⟨_, classify_error hr hfamily⟩
  · simp only [Files.NotTooDeep, ne_eq, not_forall, not_not] at hdeep
    obtain ⟨holder, hread⟩ := hdeep
    obtain ⟨hr, -⟩ := b.step.run_of_unreadable false (Document.load_of_tooDeep hread)
    refine ⟨_, classify_error hr ?_⟩
    rintro ⟨⟩

variable (hk : Processed.keyOf b.vocabulary = .ok (some k)) (hforeign : o.files.Foreign own path)
  (ht : t ∈ own)
include hk hforeign ht

/-- A turn answers for a document that it bears. -/
theorem classify_answers (digest : Text)
    (hbear : b.Bearable ((Policy.new termsField labelField workers).findings v (.new refusal)) o.files
      path) : b.Answers digest t path o.files ((b.classify digest false path).run o) := by
  rcases hseen : (o.files.readBytes path).toOption.bind Element.ofBytes? with _ | root
  · exact ⟨_, turned_unseen hready hforeign ht digest false hbear.deep hseen, Or.inl rfl⟩
  have hload := Document.load_of_seen hseen
  have hlogged := step_logged hstep
  have hclassified := classified_ready hready hv hstep ⟨path, root⟩
  rcases hfound : (Policy.new termsField labelField workers).findings v (.new refusal)
    (Document.logical ⟨path, root⟩ |>.subject b.step.titleField) with f | labels
  · -- Nothing can be found, which is told as a fault of the step.
    obtain ⟨log, hread⟩ := Document.read_run_ok hload
    have hc : (b.step.classified ⟨path, root⟩ (LogKeeper.keep log o.workplace)).result = .error f := by
      rw [hclassified, hfound]
      rfl
    obtain ⟨hr, hs⟩ := AssignmentStep.run_of_unclassified hread false hc
    obtain ⟨p, stage, cause, htold⟩ := Fault.eq_step (hbear.told _ hload f hfound)
    rw [htold] at hr
    obtain ⟨hresult, hmore⟩ := classify_failed digest rfl hr
    rw [hs] at hmore
    have hall := Files.Logged.trans (Files.Logged.trans ⟨log, rfl⟩
      (hlogged ⟨path, root⟩ (LogKeeper.keep log o.workplace))) hmore
    exact ⟨_, turned_of_logged hready hforeign ht hresult hall, Or.inl rfl⟩
  · have hlabels (log : Log) : (b.step.classified ⟨path, root⟩ (LogKeeper.keep log o.workplace)).result =
        .ok (Classifier.clean (labels.map some)) := by
      rw [hclassified, hfound]
      rfl
    generalize Classifier.clean (labels.map some) = labels at hlabels
    cases hbeside : o.files.hasTemporary path with
    | false =>
      exact ⟨_, turned_unwritten hready hforeign ht hload hlabels hlogged digest (Or.inl hbeside),
        Or.inl rfl⟩
    | true =>
      cases he : Utf8.encode (b.step.changed ⟨path, root⟩ labels).root.render with
      | error run =>
        exact ⟨_, turned_unwritten hready hforeign ht hload hlabels hlogged digest
          (Or.inr ⟨run, he⟩), Or.inl rfl⟩
      | ok written =>
        exact ⟨_, turned_written hready hk hforeign ht hload hlabels hlogged digest hbeside he,
          Or.inr ⟨written, _, rfl, rfl⟩⟩

/-- A turn that answers has found its document settled. -/
theorem process_answers {digest : Text} {skipUnchanged : Bool} {outcome : DocumentOutcome}
    (hresult : ((b.process digest false skipUnchanged path).run o).result = .ok outcome) :
    b.Settled digest ((Policy.new termsField labelField workers).findings v (.new refusal)) o.files path ∧
      b.Answers digest t path o.files ((b.process digest false skipUnchanged path).run o) := by
  obtain ⟨rows, hstands⟩ := hready.stands
  rw [process_run hstands hk] at hresult ⊢
  split at hresult
  next hskip =>
    rw [if_pos hskip]
    obtain ⟨bytes, labels, hread, hentry⟩ := isUnchanged_sight.mp (Bool.and_eq_true_iff.mp hskip).2
    refine ⟨Or.inl ⟨bytes, labels, hread, hentry⟩, _, turned_of_logged hready hforeign ht rfl
      (Files.Logged.refl o.files), Or.inr ⟨bytes, labels, ?_, hentry⟩⟩
    exact congrArg Except.toOption hread
  next hskip =>
    rw [if_neg hskip]
    have hbear : b.Bearable ((Policy.new termsField labelField workers).findings v (.new refusal))
        o.files path := by
      by_contra hnot
      obtain ⟨f, hf⟩ := classify_unborne hready hv hstep digest hnot
      cases hresult.symm.trans hf
    exact ⟨Or.inr hbear, classify_answers hready hv hstep hk hforeign ht digest hbear⟩

/-- A turn that passes over what is on record answers for a document that is settled, and passes it over
if it is on record. -/
theorem process_settled {digest : Text} (hsettled : b.Settled digest
      ((Policy.new termsField labelField workers).findings v (.new refusal)) o.files path) :
    ∃ outcome, ((b.process digest false true path).run o).result = .ok outcome ∧
      (b.OnRecord digest o.files path → outcome = .skipped) := by
  obtain ⟨rows, hstands⟩ := hready.stands
  rw [process_run hstands hk, Bool.true_and]
  split
  · exact ⟨_, rfl, fun _ => rfl⟩
  next hchanged =>
    rw [isUnchanged_sight] at hchanged
    obtain ⟨f, hturned, -⟩ := classify_answers hready hv hstep hk hforeign ht digest
      (hsettled.resolve_left hchanged)
    exact ⟨_, hturned.result, fun h => absurd h hchanged⟩

end Turn

/-- Where all documents are on record, turns that pass over them do nothing. -/
theorem each_recorded {o : Office} {order : List Path} {rows : List ProcessedRow}
    (hstands : Processed.Stands o.files b.table t rows)
    (hall : ∀ p ∈ order, b.OnRecord digest o.files p) :
    (Action.each (b.process digest false true) order).run o =
      ⟨.ok (.replicate order.length .skipped), o, []⟩ := by
  induction order with
  | nil => rfl
  | cons p order ih =>
    obtain ⟨hrecord, hall⟩ := List.forall_mem_cons.mp hall
    obtain ⟨k, hk⟩ := hrecord.key
    have hfirst : (b.process digest false true p).run o = ⟨.ok .skipped, o, []⟩ := by
      rw [process_run hstands hk, isUnchanged_sight.mpr hrecord]
      rfl
    have hfirst' := congrArg Outcome.result hfirst
    have hrest := congrArg Outcome.result (ih hall)
    rw [Action.each_cons, Action.run_bind_ok hfirst', hfirst, Action.run_bind_ok hrest, ih hall]
    rfl

/-! ### What an answer tells -/

section Answered

variable {o : Office} {skipUnchanged : Bool} {outcome : DocumentOutcome} {r : StepResult}

/-- A document that is classified has the result of its own path. -/
theorem path_of_process {dryRun : Bool}
    (h : ((b.process digest dryRun skipUnchanged path).run o).result = .ok (.classified r)) :
    r.path = path := by
  obtain ⟨d, log, labels, hload, -, rfl⟩ := AssignmentStep.of_run_ok (answered_of_process h)
  exact (Document.load_ok hload).1

/-- A document that was classified was recorded, so that the vocabulary has a key. -/
theorem key_of_classify
    (h : ((b.classify digest false path).run o).result = .ok (.classified r)) :
    ∃ k, Processed.keyOf b.vocabulary = .ok (some k) := by
  have hr := result_of_classify h
  obtain ⟨d, log, labels, bytes, -, -, -, -, hread⟩ := AssignmentStep.of_run_written hr
  -- The document was recorded in the office that the step has left.
  let office : Office := { o with workplace := ((b.step.run path false).run o.workplace).state }
  unfold classify at h
  rw [attempt_atWork_bind hr] at h
  dsimp only at h
  rw [if_neg Bool.false_ne_true, Action.run_map] at h
  rcases hrecord : ((b.recordDocument digest path r.labels).run office).result with f | u
  · rw [hrecord] at h
    cases h
  · have hread' : office.files.readBytes path = .ok bytes := hread
    unfold recordDocument fingerprint? at hrecord
    rw [Action.run_state_bind] at hrecord
    simp only [hread'] at hrecord
    exact Processed.key_of_record hrecord

/-- A turn that is not dry fails its document, or the vocabulary has a key. -/
theorem key_of_process
    (h : ((b.process digest false skipUnchanged path).run o).result = .ok outcome)
    (hne : outcome ≠ .failed) : ∃ k, Processed.keyOf b.vocabulary = .ok (some k) := by
  cases outcome with
  | failed => exact absurd rfl hne
  | skipped =>
    obtain ⟨bytes, -, row, -, hk, -⟩ := row_of_skipped h
    exact ⟨row.vocabulary, hk⟩
  | classified r =>
    exact key_of_classify ((b.process_classifies digest false skipUnchanged path o).1 r h)

end Answered

/-! ### What a turn leaves of other documents -/

/-- Whether a document that is on record in some files is so in others, and one that is settled is
settled. -/
structure Carries (b : Batch) (digest : Text) (found : Text → Except Fault (List Text)) (fs fs' : Files)
    (path : Path) : Prop where
  onRecord : b.OnRecord digest fs path → b.OnRecord digest fs' path
  settled : b.Settled digest found fs path → b.Settled digest found fs' path

namespace Carries

theorem refl (fs : Files) (path : Path) : b.Carries digest found fs fs path := ⟨id, id⟩

theorem trans {fs'' : Files} (h : b.Carries digest found fs fs' path)
    (h' : b.Carries digest found fs' fs'' path) : b.Carries digest found fs fs'' path :=
  ⟨fun hrecord => h'.onRecord (h.onRecord hrecord), fun hsettled => h'.settled (h.settled hsettled)⟩

/-- A document that is on record in the end was carried. -/
theorem of_onRecord (h : b.OnRecord digest fs' path) : b.Carries digest found fs fs' path :=
  ⟨fun _ => h, fun _ => Or.inl h⟩

/-- A document that has kept its bytes and its entry was carried. -/
theorem of_same (hhome : fs'.home = fs.home)
    (hbytes : (fs'.readBytes path).toOption = (fs.readBytes path).toOption)
    (hentry : Processed.entry? fs' b.table b.vocabulary (keyOf fs path) =
      Processed.entry? fs b.table b.vocabulary (keyOf fs path)) : b.Carries digest found fs fs' path := by
  have hkey : keyOf fs' path = keyOf fs path := by
    unfold keyOf Files.resolve Files.absolute
    rw [hhome]
  have hrecord (h : b.OnRecord digest fs path) : b.OnRecord digest fs' path := by
    obtain ⟨bytes, labels, hread, hmark⟩ := h
    rw [hread] at hbytes
    exact ⟨bytes, labels, Except.eq_ok_of_toOption hbytes, by rw [hkey, hentry, hmark]⟩
  exact ⟨hrecord, fun h => h.imp hrecord fun hbear => hbear.congr hbytes⟩

end Carries

/-- What could not be read is borne after a turn if it was before: at most an empty file has come. -/
theorem Turned.bearable_of_unread {f : Fate} {ended : Outcome Office DocumentOutcome} {e : Fault}
    (hturned : b.Turned t path fs f ended) (hforeign : fs.Foreign own p) (hread : fs.readBytes p = .error e)
    (hbear : b.Bearable found fs p) : b.Bearable found ended.state.files p := by
  rcases hread' : ended.state.files.readBytes p with e' | bytes
  · exact hbear.congr (by rw [hread, hread']; rfl)
  obtain ⟨q, hplace', hroot, n, hn, hd⟩ := Files.place_of_readBytes hread'
  have hplace := hturned.grown.place_iff.mp hplace'
  have hnone : fs.node? q = none := by
    rcases hold : fs.node? q with _ | m
    · rfl
    -- Directories stay, and anything else could have been read.
    cases m with
    | directory =>
      have hstays := (hturned.grown.directory q).mpr hold
      exact absurd (Option.some.inj (hn.symm.trans hstays)) hd
    | file old => cases hread.symm.trans (Files.readBytes_of_node hplace hold)
    | table rows =>
      unfold Files.readBytes Files.nodeAt at hread
      rw [hplace] at hread
      dsimp only at hread
      rw [hold] at hread
      cases hread
  rcases hturned.fresh q (hforeign.place q hplace).2 hnone with hgone | hempty
  · cases hn.symm.trans hgone
  · exact bearable_of_empty (Files.readBytes_of_node hplace' hempty)

/-- A turn that answers carries every document, its own or another one, or the same one by another
path. -/
theorem Answers.carries {ended : Outcome Office DocumentOutcome} (h : b.Answers digest t path fs ended)
    (hhome : fs.ProperHome) (hslashes : Path.Unslashed fs.home) (hforeign : fs.Foreign own p)
    (hforeign' : fs.Foreign own path) (hnames : Path.Unslashed p.names)
    (hnames' : Path.Unslashed path.names) (ht : t ∈ own) :
    b.Carries digest found fs ended.state.files p := by
  obtain ⟨f, hturned, hf⟩ := h
  rcases hread : fs.readBytes p with e | bytes
  · -- What cannot be read is not on record.
    have hnot : ¬ b.OnRecord digest fs p := by
      rintro ⟨bytes, labels, hbytes, -⟩
      cases hread.symm.trans hbytes
    exact ⟨fun h => absurd h hnot, fun h =>
      Or.inr (hturned.bearable_of_unread hforeign hread (h.resolve_left hnot))⟩
  obtain ⟨q, hplace, hroot, n, hn, hd⟩ := Files.place_of_readBytes hread
  have hq := Files.place_eq_resolve hhome hforeign.plain hplace
  by_cases hsame : fs.place path = .ok q
  · -- The file of the turn, maybe by another path.
    have hkeys : keyOf fs path = keyOf fs p := by
      have hq' := Files.place_eq_resolve hhome hforeign'.plain hsame
      exact congrArg (fun names => (Files.pathOf names).toText) (hq'.symm.trans hq)
    have hbytes := (Files.readBytes_of_place (hturned.grown.place_iff.mpr hplace)
      (hturned.grown.place_iff.mpr hsame)).trans hturned.bytes
    have hentry := hturned.entry
    rw [hkeys] at hentry
    rcases hf with rfl | ⟨new, labels, hnew, hmark⟩
    · refine .of_same hturned.grown.home ?_ ?_
      · exact hbytes.trans (Files.readBytes_of_place hsame hplace)
      · exact hentry.trans (by rw [← hkeys]; rfl)
    · refine .of_onRecord ⟨new, labels, Except.eq_ok_of_toOption (hbytes.trans hnew), ?_⟩
      rw [keyOf_congr hturned.grown.toWithin, hentry, hmark]
  · have hout : q ∉ insert t (fs.reach path) := by
      rintro (rfl | ⟨hreach, -⟩ | ⟨-, hnone⟩)
      · exact (hforeign.place _ hplace).1 ht
      · exact hsame hreach
      · cases hn.symm.trans hnone
    refine .of_same hturned.grown.home ?_ ?_
    · refine hturned.grown.readBytes_toOption fun q' hq' => ?_
      obtain rfl := Except.ok.inj (hplace.symm.trans hq')
      exact ⟨hout, (hforeign.place _ hplace).2⟩
    · by_cases hkeys : keyOf fs p = keyOf fs path
      · rw [hkeys, hturned.entry]
        rcases hf with rfl | ⟨new, labels, hnew, -⟩
        · rfl
        · -- Two paths of one name that lead anywhere lead to one place.
          obtain ⟨q', hplace', -⟩ := Files.place_of_readBytes
            (Except.eq_ok_of_toOption (hturned.bytes.trans hnew))
          rw [hturned.grown.place_iff] at hplace'
          have hresolve := Files.resolve_of_toText hhome hslashes hforeign.plain hforeign'.plain hnames
            hnames' hkeys
          have hq' := Files.place_eq_resolve hhome hforeign'.plain hplace'
          rw [← hresolve, ← hq] at hq'
          exact absurd (hq' ▸ hplace') hsame
      · exact hturned.others _ hkeys

end Batch

end TitleClasses
