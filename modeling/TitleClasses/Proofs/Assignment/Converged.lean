import TitleClasses.Proofs.Assignment.Record

/-!
# Batches converge

Once a batch has classified documents, a batch that passes over what is on record passes over them, as long
as they and the vocabulary do not change; and where the first one had no failures the second does nothing
(`Batch.converges`).

A turn that answers leaves the documents at hand and carries them (`AtHand.turn`). So after all turns what
was classified is on record and every document is settled (`AtHand.turns`), and where all are settled turns
that pass over what is on record answer (`AtHand.turns_settled`). What comes before and after the turns of
a run carries documents, too, so that the same holds of runs at an office that is in order
(`InOrder.run_settles`, `InOrder.run_passes`, `InOrder.run_recorded`), which a run leaves in order.
-/

namespace TitleClasses

open Utf8 (Bytes)

/-- An office where a desk was taken up in place of any others. -/
def Office.withDesk (o : Office) (d : Desk) : Office :=
  { o with workplace := { o.workplace with desks := [d] } }

namespace Desk.Arises

variable {c : Configuration} {d : Desk}

/-- The engine of a desk is a new one after some calls. -/
theorem engine (h : d.Arises c) : ∃ calls, d.engine = Engine.after c.refusal calls := by
  induction h with
  | taken => exact ⟨[], rfl⟩
  | loaded fs _ ih => exact ih
  | called calls _ ih =>
    obtain ⟨before, hbefore⟩ := ih
    refine ⟨before ++ calls, ?_⟩
    show calls.foldl Engine.Call.effect _ = _
    rw [hbefore, Engine.after, Engine.after, List.foldl_append]

/-- The calls could have been any others. -/
theorem recalled (h : d.Arises c) (calls : List Engine.Call) :
    Desk.Arises c ⟨d.vocabulary, Engine.after c.refusal calls⟩ := by
  induction h with
  | taken => exact taken.called calls
  | loaded fs _ ih => exact ih.loaded fs
  | called _ _ ih => exact ih

end Desk.Arises

namespace VocabularyFile

variable {f : VocabularyFile} {fs : Files} {name : Json} {v : Vocabulary}
  (hv : ((find fs name).run f).result = .ok v)
include hv

/-- The digest is that of the vocabulary which is found, and which is loaded then. -/
theorem digest_of_find :
    let asked := (digest fs name).run f
    asked.result = .ok v.digest ∧ ∃ c, asked.state.loaded = some c ∧ c.find name = .ok v := by
  obtain ⟨-, hresult⟩ := find_state f fs name
  unfold digest
  rw [Action.run_bind_ok hv]
  exact ⟨rfl, hresult v hv⟩

end VocabularyFile

/-- The records of a vocabulary that is found at a desk are well-formed. -/
theorem Desk.Arises.wellFormed {c : Configuration} {d : Desk} (h : d.Arises c) {fs : Files} {name : Json}
    {v : Vocabulary} (hv : ((VocabularyFile.find fs name).run d.vocabulary).result = .ok v) :
    ∀ r ∈ v.records, r.WellFormed := by
  obtain ⟨-, catalogue, hloaded, hfind⟩ := VocabularyFile.digest_of_find hv
  exact (h.digest fs name).sound.vocabulary.records hloaded hfind

namespace Batch

variable {b : Batch} {fs fs' fs'' : Files} {own : Set Place} {t : Place} {p path : Path} {digest : Text}
  {found : Text → Except Fault (List Text)} {documents order : List Path} {o : Office}
  {refusal : Option Text → Option CompileError} {file : Path} {c : Catalogue} {v : Vocabulary}
  {termsField labelField : Json} {workers : Int} {titleField classField : Json} {k : Text}
  {skipUnchanged : Bool} {outcome : DocumentOutcome} {outcomes : List DocumentOutcome} {r : StepResult}

/-! ### One turn -/

/-- Whether documents can be taken up at an office: it is ready, and they are none of the files of some
places and no log. -/
structure AtHand (b : Batch) (refusal : Option Text → Option CompileError) (file : Path) (c : Catalogue)
    (own : Set Place) (t : Place) (documents : List Path) (o : Office) : Prop
    extends b.Ready refusal file c t o where
  slashes : Path.Unslashed o.files.home
  names : ∀ p ∈ documents, Path.Unslashed p.names
  foreign : ∀ p ∈ documents, o.files.Foreign own p

/-- Documents stay at hand through changes that leave the desk and the table. -/
theorem AtHand.within {o' : Office} {touched : Set Place} (h : b.AtHand refusal file c own t documents o)
    (hwithin : Files.Within touched o.files o'.files) (hloaded : Loaded refusal file c o'.workplace.desks)
    (hstands : ∃ rows, Processed.Stands o'.files b.table t rows) :
    b.AtHand refusal file c own t documents o' where
  home := by
    unfold Files.ProperHome
    rw [hwithin.home]
    exact h.home
  loaded := hloaded
  stands := hstands
  quiet := hwithin.log t h.quiet
  slashes := by
    rw [hwithin.home]
    exact h.slashes
  names := h.names
  foreign p hp := (h.foreign p hp).within hwithin

/-- What holds of files after some turns: nothing of some places was touched but the table, and what was
not there; and all documents were carried. -/
structure Passes (b : Batch) (digest : Text) (found : Text → Except Fault (List Text)) (own : Set Place)
    (t : Place) (documents : List Path) (fs fs' : Files) : Prop where
  grown : Files.Grown {q | q ∈ own → q = t ∨ fs.node? q = none} fs fs'
  carries : ∀ p ∈ documents, b.Carries digest found fs fs' p

namespace Passes

theorem refl (fs : Files) : b.Passes digest found own t documents fs fs :=
  ⟨.refl _ fs, fun p _ => .refl fs p⟩

theorem trans (h : b.Passes digest found own t documents fs fs')
    (h' : b.Passes digest found own t documents fs' fs'') :
    b.Passes digest found own t documents fs fs'' where
  grown := h.grown.trans <| h'.grown.mono fun q hq hown =>
    (hq hown).imp_right fun hnone => by_contra fun hsome => h.grown.there q hsome hnone
  carries p hp := (h.carries p hp).trans (h'.carries p hp)

end Passes

section Turns

variable (hv : c.find b.vocabulary = .ok v)
  (hstep : b.step = .byVocabulary termsField labelField workers b.vocabulary titleField classField)
  (hk : Processed.keyOf b.vocabulary = .ok (some k)) (ht : t ∈ own)
include hv hstep hk ht

/-- A turn that answers passes, leaves its document settled, and on record unless it has failed. -/
theorem AtHand.turn (h : b.AtHand refusal file c own t documents o) (hp : p ∈ documents)
    (hresult : ((b.process digest false skipUnchanged p).run o).result = .ok outcome) :
    let found := (Policy.new termsField labelField workers).findings v (.new refusal)
    let ended := (b.process digest false skipUnchanged p).run o
    b.AtHand refusal file c own t documents ended.state ∧
      b.Passes digest found own t documents o.files ended.state.files ∧
      b.Settled digest found ended.state.files p ∧
      (outcome ≠ .failed → b.OnRecord digest ended.state.files p) := by
  intro found ended
  have hforeign := h.foreign p hp
  obtain ⟨hsettled, hanswers⟩ := process_answers h.toReady hv hstep hk hforeign ht hresult
  have hcarries (p' : Path) (hp' : p' ∈ documents) :
      b.Carries digest found o.files ended.state.files p' :=
    hanswers.carries h.home h.slashes (h.foreign p' hp') hforeign (h.names p' hp') (h.names p hp) ht
  obtain ⟨f, hturned, hf⟩ := hanswers
  have hgrown := hturned.grown
  refine ⟨?_, ⟨hgrown.mono ?_, hcarries⟩, (hcarries p hp).settled hsettled, fun hne => ?_⟩
  · exact h.within hgrown.toWithin (hturned.ready h.toReady hv hstep).loaded hturned.stands
  · -- What the document reaches is none of the places unless nothing is there.
    rintro q (rfl | hreach) hown
    · exact Or.inl rfl
    · exact Or.inr (by_contra fun hthere => hforeign.not_mem_reach hown hthere hreach)
  · rcases hf with rfl | ⟨bytes, labels, hbytes, hentry⟩
    · exact absurd (Except.ok.inj (hresult.symm.trans hturned.result)) hne
    · refine ⟨bytes, labels, Except.eq_ok_of_toOption (hturned.bytes.trans hbytes), ?_⟩
      rw [keyOf_congr hgrown.toWithin, hturned.entry, hentry]

/-- So do all of them, one after another; and what was classified is some of the documents. -/
theorem AtHand.turns (h : b.AtHand refusal file c own t documents o) (horder : order ⊆ documents)
    (hresult : ((Action.each (b.process digest false skipUnchanged) order).run o).result = .ok outcomes) :
    let found := (Policy.new termsField labelField workers).findings v (.new refusal)
    let ended := (Action.each (b.process digest false skipUnchanged) order).run o
    b.AtHand refusal file c own t documents ended.state ∧
      b.Passes digest found own t documents o.files ended.state.files ∧
      (∀ p ∈ order, b.Settled digest found ended.state.files p) ∧
      (∀ r, .classified r ∈ outcomes → r.path ∈ order ∧ b.OnRecord digest ended.state.files r.path) ∧
      (.failed ∉ outcomes → ∀ p ∈ order, b.OnRecord digest ended.state.files p) := by
  intro found ended
  induction order generalizing o outcomes with
  | nil =>
    obtain rfl := Except.ok.inj hresult
    refine ⟨h, .refl o.files, fun p hp => ?_, fun r hr => ?_, fun _ p hp => ?_⟩
    · exact absurd hp List.not_mem_nil
    · exact absurd hr List.not_mem_nil
    · exact absurd hp List.not_mem_nil
  | cons p order ih =>
    obtain ⟨hp, horder⟩ := List.cons_subset.mp horder
    -- The first document has an outcome, and then the others.
    obtain ⟨outcome, rest, hfirst, hrest, rfl⟩ : ∃ outcome rest,
        ((b.process digest false skipUnchanged p).run o).result = .ok outcome ∧
        ((Action.each (b.process digest false skipUnchanged) order).run
          ((b.process digest false skipUnchanged p).run o).state).result = .ok rest ∧
        outcomes = outcome :: rest := by
      rw [Action.each_cons] at hresult
      obtain ⟨outcome, hfirst, hresult⟩ := Action.result_bind_eq_ok.mp hresult
      obtain ⟨rest, hrest, hresult⟩ := Action.result_bind_eq_ok.mp hresult
      exact ⟨outcome, rest, hfirst, hrest, (Except.ok.inj hresult).symm⟩
    obtain ⟨hnext, hpasses, hsettled, hrecord⟩ := h.turn hv hstep hk ht hp hfirst
    obtain ⟨hended, hpasses', hsettled', hclassified, hall⟩ := ih hnext horder hrest
    have hstate : ended.state = _ := (Action.each_cons_ok hfirst hrest).2
    have hcarries := hpasses'.carries p hp
    rw [hstate]
    refine ⟨hended, hpasses.trans hpasses', ?_, fun r hr => ?_, fun hfailed => ?_⟩
    · exact List.forall_mem_cons.mpr ⟨hcarries.settled hsettled, hsettled'⟩
    · rcases List.mem_cons.mp hr with rfl | hr
      · obtain rfl := path_of_process hfirst
        exact ⟨List.mem_cons_self, hcarries.onRecord (hrecord fun heq => nomatch heq)⟩
      · obtain ⟨hmem, hrecord'⟩ := hclassified r hr
        exact ⟨List.mem_cons_of_mem p hmem, hrecord'⟩
    · obtain ⟨hne, hfailed⟩ := not_or.mp (mt List.mem_cons.mpr hfailed)
      exact List.forall_mem_cons.mpr
        ⟨hcarries.onRecord (hrecord (Ne.symm hne)), hall hfailed⟩

/-- Where all documents are settled, turns that pass over what is on record answer, and pass over those
that are known to be on record at first. -/
theorem AtHand.turns_settled {recorded : Path → Prop} (h : b.AtHand refusal file c own t documents o)
    (horder : order ⊆ documents) (hsettled : ∀ p ∈ order, b.Settled digest
      ((Policy.new termsField labelField workers).findings v (.new refusal)) o.files p)
    (hrecorded : ∀ p ∈ order, recorded p → b.OnRecord digest o.files p) : ∃ outcomes,
      ((Action.each (b.process digest false true) order).run o).result = .ok outcomes ∧
        List.Forall₂ (fun p outcome => recorded p → outcome = .skipped) order outcomes := by
  induction order generalizing o with
  | nil => exact ⟨[], rfl, .nil⟩
  | cons p order ih =>
    obtain ⟨hp, horder⟩ := List.cons_subset.mp horder
    obtain ⟨hsettled, hsettled'⟩ := List.forall_mem_cons.mp hsettled
    obtain ⟨hrecorded, hrecorded'⟩ := List.forall_mem_cons.mp hrecorded
    obtain ⟨outcome, hfirst, hskipped⟩ := process_settled h.toReady hv hstep hk (h.foreign p hp) ht
      hsettled
    obtain ⟨hnext, hpasses, -, -⟩ := h.turn hv hstep hk ht hp hfirst
    -- What the first turn carries is settled for the others, and on record.
    obtain ⟨outcomes, hrest, hall⟩ := ih hnext horder
      (fun p' hp' => (hpasses.carries p' (horder hp')).settled (hsettled' p' hp'))
      fun p' hp' hrecord => (hpasses.carries p' (horder hp')).onRecord (hrecorded' p' hp' hrecord)
    exact ⟨outcome :: outcomes, (Action.each_cons_ok hfirst hrest).1,
      .cons (fun hrecord => hskipped (hrecorded hrecord)) hall⟩

end Turns

/-! ### Documents that are all on record -/

theorem ofOutcomes_replicate (n : Nat) : BatchResult.ofOutcomes (.replicate n .skipped) = ⟨[], 0, n⟩ := by
  induction n with
  | zero => rfl
  | succ n ih => rw [List.replicate_succ, BatchResult.ofOutcomes_skipped, ih]

theorem key_of_turns
    (h : ((Action.each (b.process digest false skipUnchanged) order).run o).result = .ok outcomes)
    (hmem : outcome ∈ outcomes) (hne : outcome ≠ .failed) :
    ∃ k, Processed.keyOf b.vocabulary = .ok (some k) := by
  obtain ⟨hanswers, -⟩ := Action.each_invariant (f := b.process digest false skipUnchanged)
    (I := fun _ => True) (E := fun _ => True)
    (R := fun y => y ≠ .failed → ∃ k, Processed.keyOf b.vocabulary = .ok (some k)) order
    (fun path _ o _ => ⟨trivial, fun y hy => key_of_process hy, fun _ _ => trivial⟩) trivial
  exact hanswers outcomes h outcome hmem hne

/-! ### Before and after the turns -/

section Around

variable {rows : List ProcessedRow} (hstands : Processed.Stands fs b.table t rows)
  (hquiet : fs.NoLogAt t) (hk : Processed.keyOf b.vocabulary = .ok (some k))
include hstands hquiet hk

/-- Log records carry all documents. -/
theorem carries_of_logged (hforeign : fs.Foreign own path) (hlogged : Files.Logged fs fs') :
    b.Carries digest found fs fs' path := by
  obtain ⟨log, rfl⟩ := hlogged
  have hkept : Files.Grown ∅ fs (LogKeeper.keep log fs) := .keep ∅ log fs
  have hafter := hstands.within hkept.toWithin hquiet (Set.notMem_empty t) (Set.notMem_empty _)
    (Set.notMem_empty _)
  refine .of_same hkept.home ?_ ?_
  · exact hkept.readBytes_toOption fun q hq => ⟨Set.notMem_empty q, (hforeign.place q hq).2⟩
  · rw [hafter.entry?_eq hk, hstands.entry?_eq hk]

end Around

/-- Adding a run to the statistics carries them, too, and leaves them at hand. -/
theorem AtHand.counted (h : b.AtHand refusal file c own t documents o)
    (hk : Processed.keyOf b.vocabulary = .ok (some k)) (counts : RunCounts)
    (hstatistics : ∀ q, o.files.place b.statistics = .ok q → q ∈ own ∧ q ≠ t) :
    let ended := ((Office.onFiles (Statistics.record b.statistics b.vocabulary counts)).run o).state
    b.AtHand refusal file c own t documents ended ∧
      Files.Within Set.univ o.files ended.files ∧
      ∀ p ∈ documents, b.Carries digest found o.files ended.files p := by
  intro ended
  obtain ⟨rows, hstands⟩ := h.stands
  have hgrown : Files.Grown _ o.files ended.files :=
    Statistics.record_grown b.statistics b.vocabulary counts o.files
  refine ⟨h.within hgrown.toWithin h.loaded ⟨rows, stands_of_counted counts hstands h.quiet
    fun q hq => (hstatistics q hq).2⟩, hgrown.toWithin.mono (Set.subset_univ _), fun p hp => ?_⟩
  obtain ⟨hbytes, hentry⟩ := counted_keeps counts hstands h.quiet hk (h.foreign p hp) hstatistics
  exact .of_same hgrown.home hbytes (hentry (keyOf o.files p))

/-! ### Offices in order -/

/-- The turns of a batch: the digest is asked for, and one document is taken up after another. -/
def turns (b : Batch) (documents : List Path) (dryRun skipUnchanged : Bool) :
    Action Office (List DocumentOutcome) := do
  Action.each (b.process (← b.digest) dryRun skipUnchanged) documents

/-- A run that answers has had all its turns, and gives their sum; nothing was done after them but that a
run was added to the statistics. -/
theorem turns_of_run {dryRun : Bool} {r : BatchResult} (hdigest : (b.digest.run o).result = .ok digest)
    (h : ((b.run documents dryRun skipUnchanged).run o).result = .ok r) :
    let turns := (Action.each (b.process digest dryRun skipUnchanged) documents).run (b.digest.run o).state
    let ended := ((b.run documents dryRun skipUnchanged).run o).state
    ∃ outcomes, turns.result = .ok outcomes ∧ r = .ofOutcomes outcomes ∧
      (ended = turns.state ∨ ∃ counts, ended =
        ((Office.onFiles (Statistics.record b.statistics b.vocabulary counts)).run turns.state).state) := by
  intro turns ended
  rcases b.run_cases documents dryRun skipUnchanged hdigest with ⟨f, -, hr, -⟩ |
    ⟨outcomes, houtcomes, ⟨-, hr, hs⟩ | ⟨-, hr, hs⟩⟩
  · cases h.symm.trans hr
  · exact ⟨outcomes, houtcomes, Except.ok.inj (h.symm.trans hr), Or.inl hs⟩
  · refine ⟨outcomes, houtcomes, ?_, Or.inr ⟨_, hs⟩⟩
    rw [h] at hr
    rcases hcounted : ((Office.onFiles (Statistics.record b.statistics b.vocabulary
        (BatchResult.ofOutcomes outcomes).runCounts)).run turns.state).result with f | u
    · rw [hcounted] at hr
      cases hr
    · rw [hcounted] at hr
      exact Except.ok.inj hr

/-- The places of the table and of the statistics. -/
def ledgers (b : Batch) (fs : Files) : Set Place :=
  {q | fs.place b.table = .ok q ∨ fs.place b.statistics = .ok q}

/-- Whether an office is in order for batches under a profile on some documents: the working directory is
one that can be; at the only desk, which sessions may come to have, the vocabulary of the profile is
found; the table stands; and the documents, the table and the statistics are different files, none of
which the log is open on. -/
structure InOrder (c : Configuration) (profile : Profile) (documents : List Path) (v : Vocabulary)
    (o : Office) : Prop where
  home : o.files.ProperHome
  slashes : Path.Unslashed o.files.home
  desk : ∃ d, o.workplace.desks = [d] ∧ d.Arises c ∧
    ((VocabularyFile.find o.files profile.vocabulary).run d.vocabulary).result = .ok v
  table : ∃ t rows, Processed.Stands o.files c.settings.tableFile t rows ∧ o.files.NoLogAt t
  statistics : ∀ q, o.files.place c.settings.statisticsFile = .ok q →
    o.files.place c.settings.tableFile ≠ .ok q ∧ o.files.NoLogAt q
  named : ∀ path ∈ documents, ∃ name, path = .ofText name
  foreign : ∀ path ∈ documents, ∀ q, o.files.place path = .ok q →
    q ∉ (Program.batchOf c.settings profile).ledgers o.files ∧ o.files.NoLogAt q

/-- What holds of an office that is in order once the digest was asked for. -/
structure Asked (c : Configuration) (profile : Profile) (documents : List Path) (v : Vocabulary)
    (t : Place) (fs : Files) (asked : Outcome Office Text) : Prop where
  result : asked.result = .ok v.digest
  logged : Files.Logged fs asked.state.files
  loaded : ∃ file catalogue, catalogue.find profile.vocabulary = .ok v ∧
    (∀ calls, Desk.Arises c ⟨⟨file, some catalogue⟩, Engine.after c.refusal calls⟩) ∧
    (Program.batchOf c.settings profile).AtHand c.refusal file catalogue
      ((Program.batchOf c.settings profile).ledgers fs) t documents asked.state

namespace InOrder

variable {c : Configuration} {profile : Profile} {rows : List ProcessedRow} {catalogue : Catalogue}

/-- Every document is foreign to the table and the statistics. -/
theorem isForeign (h : InOrder c profile documents v o) (hp : p ∈ documents) :
    o.files.Foreign ((Program.batchOf c.settings profile).ledgers o.files) p := by
  obtain ⟨name, hname⟩ := h.named p hp
  exact ⟨hname ▸ Path.plain_ofText name, h.foreign p hp⟩

/-- Whoever asks for the digest at an office that is in order has it, and the documents at hand. -/
theorem asks (h : InOrder c profile documents v o) : ∃ t rows,
    Processed.Stands o.files c.settings.tableFile t rows ∧ o.files.NoLogAt t ∧
      Asked c profile documents v t o.files ((Program.batchOf c.settings profile).digest.run o) := by
  obtain ⟨d, hdesks, hd, hfind⟩ := h.desk
  obtain ⟨t, rows, hstands, hquiet⟩ := h.table
  obtain ⟨hresult, catalogue, hloaded, hv⟩ := VocabularyFile.digest_of_find hfind
  obtain ⟨calls, hengine⟩ := hd.engine
  have hrun := digest_run (Program.batchOf c.settings profile) hdesks
  have hlogged : Files.Logged o.files
      ((Program.batchOf c.settings profile).digest.run o).state.files := by
    rw [hrun]
    exact ⟨_, rfl⟩
  obtain ⟨log, hfiles⟩ := hlogged
  have hkept : Files.Within ∅ o.files ((Program.batchOf c.settings profile).digest.run o).state.files :=
    hfiles ▸ .keep ∅ log o.files
  refine ⟨t, rows, hstands, hquiet, ?_, ⟨log, hfiles⟩,
    ((VocabularyFile.digest o.files profile.vocabulary).run d.vocabulary).state.path, catalogue, hv,
    fun calls => ?_, ?_⟩
  · rw [hrun]
    exact hresult
  · rw [← hloaded]
    exact (hd.digest o.files profile.vocabulary).recalled calls
  · exact {
      home := by
        unfold Files.ProperHome
        rw [hkept.home]
        exact h.home
      loaded := by
        refine ⟨calls, ?_⟩
        rw [hrun, ← hengine, ← hloaded]
        rfl
      stands := ⟨rows, hstands.within hkept hquiet (Set.notMem_empty t) (Set.notMem_empty _)
        (Set.notMem_empty _)⟩
      quiet := hkept.log t hquiet
      slashes := by
        rw [hkept.home]
        exact h.slashes
      names := fun path hpath => by
        obtain ⟨name, rfl⟩ := h.named path hpath
        exact Path.unslashed_ofText name
      foreign := fun path hpath => (h.isForeign hpath).within hkept }

/-- Neither the turns nor what comes before them changes where the statistics are, which is not where the
table is. -/
theorem statistics_of_within {touched : Set Place} (h : InOrder c profile documents v o)
    (hstands : Processed.Stands o.files c.settings.tableFile t rows)
    (hwithin : Files.Within touched o.files fs) {q : Place}
    (hq : fs.place c.settings.statisticsFile = .ok q) :
    q ∈ (Program.batchOf c.settings profile).ledgers o.files ∧ q ≠ t := by
  rw [hwithin.place_iff] at hq
  refine ⟨Or.inr hq, ?_⟩
  rintro rfl
  exact (h.statistics _ hq).1 hstands.place

/-- An office stays in order when a desk is taken up at which the vocabulary of the profile is found. -/
theorem withDesk {d : Desk} {v' : Vocabulary} (h : InOrder c profile documents v o) (hd : d.Arises c)
    (hfind : ((VocabularyFile.find o.files profile.vocabulary).run d.vocabulary).result = .ok v') :
    InOrder c profile documents v' (o.withDesk d) :=
  { h with desk := ⟨d, rfl, hd, hfind⟩ }

/-- An office stays in order through changes that leave the documents at hand, and directories where they
were. -/
theorem within {o' : Office} {touched : Set Place} (h : InOrder c profile documents v o)
    (hwithin : Files.Within touched o.files o'.files) (hv : catalogue.find profile.vocabulary = .ok v)
    (harises : ∀ calls, Desk.Arises c ⟨⟨file, some catalogue⟩, Engine.after c.refusal calls⟩)
    (hhand : (Program.batchOf c.settings profile).AtHand c.refusal file catalogue own t documents o') :
    InOrder c profile documents v o' where
  home := hhand.home
  slashes := hhand.slashes
  desk := by
    obtain ⟨calls, hdesks⟩ := hhand.loaded
    refine ⟨_, hdesks, harises calls, ?_⟩
    rw [VocabularyFile.find_run rfl, hv]
  table := by
    obtain ⟨rows, hstands⟩ := hhand.stands
    exact ⟨t, rows, hstands, hhand.quiet⟩
  statistics q hq := by
    rw [hwithin.place_iff] at hq
    obtain ⟨hne, hlog⟩ := h.statistics q hq
    exact ⟨fun htable => hne (hwithin.place_iff.mp htable), hwithin.log q hlog⟩
  named := h.named
  foreign p hp q hq := by
    rw [hwithin.place_iff] at hq
    obtain ⟨hout, hlog⟩ := h.foreign p hp q hq
    exact ⟨fun hown => hout (hown.imp hwithin.place_iff.mp hwithin.place_iff.mp), hwithin.log q hlog⟩

variable (hk : Processed.keyOf profile.vocabulary = .ok (some k))
include hk

/-- A run that answers leaves the office in order and all documents settled, and what it has classified on
record; if it has no failures, all of them are on record. -/
theorem run_settles {r : BatchResult} (h : InOrder c profile documents v o)
    (hran : (((Program.batchOf c.settings profile).run documents false skipUnchanged).run o).result =
      .ok r) :
    let b := Program.batchOf c.settings profile
    let found := (Policy.new profile.termsField profile.classField c.settings.workers).findings v
      (.new c.refusal)
    let ended := ((b.run documents false skipUnchanged).run o).state
    InOrder c profile documents v ended ∧ (∀ p ∈ documents, b.Settled v.digest found ended.files p) ∧
      (∀ s ∈ r.results, s.path ∈ documents ∧ b.OnRecord v.digest ended.files s.path) ∧
      (r.failures = 0 → ∀ p ∈ documents, b.OnRecord v.digest ended.files p) := by
  intro b found ended
  obtain ⟨t, rows, hstands, hquiet, hresult, ⟨log, hfiles⟩, file, catalogue, hv, harises, hhand⟩ := h.asks
  have ht : t ∈ b.ledgers o.files := Or.inl hstands.place
  obtain ⟨outcomes, houtcomes, rfl, hended⟩ := turns_of_run hresult hran
  obtain ⟨hhand', hpasses, hsettled, hclassified, hall⟩ := hhand.turns hv rfl hk ht
    (List.Subset.refl documents) houtcomes
  generalize (Action.each (b.process v.digest false skipUnchanged) documents).run (b.digest.run o).state =
    turns at houtcomes hended hhand' hpasses hsettled hclassified hall
  have hkept : Files.Within ∅ o.files (b.digest.run o).state.files := hfiles ▸ .keep ∅ log o.files
  have hwithin := (hkept.mono (Set.empty_subset Set.univ)).trans
    (hpasses.grown.toWithin.mono (Set.subset_univ _))
  -- At last a run may be added to the statistics.
  obtain ⟨hhand'', hwithin', hlast⟩ :
      b.AtHand c.refusal file catalogue (b.ledgers o.files) t documents ended ∧
      Files.Within Set.univ turns.state.files ended.files ∧
      ∀ p ∈ documents, b.Carries v.digest found turns.state.files ended.files p := by
    rcases hended with heq | ⟨counts, heq⟩
    · rw [show ended = turns.state from heq]
      exact ⟨hhand', .refl _ _, fun p _ => .refl _ p⟩
    · rw [show ended = _ from heq]
      exact hhand'.counted hk counts fun q hq => h.statistics_of_within hstands hwithin hq
  refine ⟨h.within (hwithin.trans hwithin') hv harises hhand'',
    fun p hp => (hlast p hp).settled (hsettled p hp), fun s hs => ?_, fun hfailures p hp => ?_⟩
  · obtain ⟨hmem, hrecord⟩ := hclassified s (BatchResult.mem_results.mp hs)
    exact ⟨hmem, (hlast _ hmem).onRecord hrecord⟩
  · exact (hlast p hp).onRecord (hall (List.count_eq_zero.mp hfailures) p hp)

/-- Where all documents are settled, a run that passes over what is on record has all its turns, passes over
those that are known to be on record, and gives the sum if the statistics admit it. -/
theorem run_passes {recorded : Path → Prop} (h : InOrder c profile documents v o)
    (hsettled : ∀ p ∈ documents, (Program.batchOf c.settings profile).Settled v.digest
      ((Policy.new profile.termsField profile.classField c.settings.workers).findings v (.new c.refusal))
      o.files p)
    (hrecorded : ∀ p ∈ documents, recorded p →
      (Program.batchOf c.settings profile).OnRecord v.digest o.files p) :
    let b := Program.batchOf c.settings profile
    ∃ outcomes, ((b.turns documents false true).run o).result = .ok outcomes ∧
      List.Forall₂ (fun p outcome => recorded p → outcome = .skipped) documents outcomes ∧
      (b.Countable o.files false (.ofOutcomes outcomes) →
        ((b.run documents false true).run o).result = .ok (.ofOutcomes outcomes)) := by
  intro b
  obtain ⟨t, rows, hstands, hquiet, hresult, hlogged, file, catalogue, hv, -, hhand⟩ := h.asks
  have ht : t ∈ b.ledgers o.files := Or.inl hstands.place
  have hcarries (p : Path) (hp : p ∈ documents) : b.Carries v.digest
      ((Policy.new profile.termsField profile.classField c.settings.workers).findings v (.new c.refusal))
      o.files (b.digest.run o).state.files p :=
    carries_of_logged hstands hquiet hk (h.isForeign hp) hlogged
  obtain ⟨outcomes, houtcomes, hskipped⟩ := hhand.turns_settled hv rfl hk ht (List.Subset.refl documents)
    (fun p hp => (hcarries p hp).settled (hsettled p hp))
    fun p hp hrecord => (hcarries p hp).onRecord (hrecorded p hp hrecord)
  obtain ⟨-, hpasses, -⟩ := hhand.turns hv rfl hk ht (List.Subset.refl documents) houtcomes
  refine ⟨outcomes, ?_, hskipped, fun hcountable => ?_⟩
  · unfold turns
    rw [Action.run_bind_ok hresult]
    exact houtcomes
  rcases b.run_cases documents false true hresult with ⟨f, hf, -⟩ |
    ⟨outcomes', houtcomes', ⟨-, hr, -⟩ | ⟨hcounted, hr, -⟩⟩
  · cases houtcomes.symm.trans hf
  · obtain rfl := Except.ok.inj (houtcomes.symm.trans houtcomes')
    exact hr
  · obtain rfl := Except.ok.inj (houtcomes.symm.trans houtcomes')
    obtain ⟨log, hfiles⟩ := hlogged
    have hkept : Files.Grown ∅ o.files (b.digest.run o).state.files := hfiles ▸ .keep ∅ log o.files
    have hgrown := (hkept.mono (Set.empty_subset _)).trans hpasses.grown
    have hout (q : Place) (hq : o.files.place b.statistics = .ok q) (hthere : o.files.node? q ≠ none) :
        q ∉ {q | q ∈ b.ledgers o.files → q = t ∨ (b.digest.run o).state.files.node? q = none} := by
      intro hin
      rcases hin (Or.inr hq) with rfl | hnone
      · exact (h.statistics _ hq).1 hstands.place
      · exact hkept.there q hthere hnone
    have hadmitted := counted_ok hgrown.toWithin hout (fun q hq => (h.statistics q hq).2)
      (hcountable.of_counted hcounted)
    exact hr.trans (congrArg (Except.map fun _ => BatchResult.ofOutcomes outcomes) hadmitted)

omit hk in
/-- Where all documents are on record, a run that passes over them does nothing but make log records. -/
theorem run_recorded (h : InOrder c profile documents v o)
    (hall : ∀ p ∈ documents, (Program.batchOf c.settings profile).OnRecord v.digest o.files p) :
    let ran := ((Program.batchOf c.settings profile).run documents false true).run o
    ran.result = .ok ⟨[], 0, documents.length⟩ ∧ Files.Logged o.files ran.state.files := by
  intro ran
  obtain ⟨t, rows, hstands, hquiet, hresult, hlogged, file, catalogue, hv, -, hhand⟩ := h.asks
  obtain ⟨rows', hstands'⟩ := hhand.stands
  have hrecorded (p : Path) (hp : p ∈ documents) : (Program.batchOf c.settings profile).OnRecord v.digest
      ((Program.batchOf c.settings profile).digest.run o).state.files p := by
    obtain ⟨k, hk⟩ := (hall p hp).key
    have hcarries : (Program.batchOf c.settings profile).Carries v.digest (fun _ => .ok []) o.files
        ((Program.batchOf c.settings profile).digest.run o).state.files p :=
      carries_of_logged hstands hquiet hk (h.isForeign hp) hlogged
    exact hcarries.onRecord (hall p hp)
  have hturns := each_recorded hstands' hrecorded
  have hsum := ofOutcomes_replicate documents.length
  rcases (Program.batchOf c.settings profile).run_cases documents false true hresult with ⟨f, hf, -⟩ |
    ⟨outcomes, houtcomes, hcases⟩
  · rw [hturns] at hf
    cases hf
  rw [hturns] at houtcomes
  obtain rfl := Except.ok.inj houtcomes
  rw [hturns] at hcases
  rcases hcases with ⟨-, hr, hs⟩ | ⟨hcounted, -⟩
  · refine ⟨hr.trans (congrArg Except.ok hsum), ?_⟩
    rw [show ran.state = _ from hs]
    exact hlogged
  · rw [hsum] at hcounted
    cases hcounted

end InOrder

/-! ### Two runs -/

/-- Whether some documents, and their entries in the table, are in some files as they were in others. -/
structure Kept (b : Batch) (documents : List Path) (fs fs' : Files) : Prop where
  home : fs'.home = fs.home
  bytes : ∀ p ∈ documents, (fs'.readBytes p).toOption = (fs.readBytes p).toOption
  entry : ∀ p ∈ documents, Processed.entry? fs' b.table b.vocabulary (keyOf fs p) =
    Processed.entry? fs b.table b.vocabulary (keyOf fs p)

/-- Another desk changes no document. -/
theorem Kept.withDesk (o : Office) (d : Desk) : b.Kept documents o.files (o.withDesk d).files :=
  ⟨rfl, fun _ _ => rfl, fun _ _ => rfl⟩

theorem Kept.carries (h : b.Kept documents fs fs') (hp : p ∈ documents) :
    b.Carries digest found fs fs' p :=
  .of_same h.home (h.bytes p hp) (h.entry p hp)

open History (library byTerms topics topicsFile poem poemPath reader)

/-- The names of the poem. -/
def poemNames : List Path := [poemPath, .ofText "/poem"]

/-- An office with the files of the library, statistics of nothing and one desk. -/
def stockedOffice (d : Desk) : Office where
  workplace := ⟨⟨[], [(["vocabularies"], .file (Utf8.bytesOf (topicsFile.write .line))),
    (["table"], .table []), (["statistics"], .file (Utf8.bytesOf "\x7b\x7d")), (["poem"], .file poem)],
    0, none⟩, [d]⟩
  clock := ⟨0, 1⟩

/-- A desk that was just taken up. -/
def newDesk : Desk := ⟨⟨library.settings.vocabularyFile, none⟩, .new library.refusal⟩

theorem noLogAt_stocked (q : Place) : (stockedOffice reader).files.NoLogAt q := by
  intro l hl
  cases hl

theorem inOrder_stocked : InOrder library byTerms poemNames topics (stockedOffice reader) where
  home := by simp [Files.ProperHome, stockedOffice, Office.files]
  slashes := by simp [Path.Unslashed, stockedOffice, Office.files]
  desk := by
    refine ⟨reader, rfl, History.arises_reader, ?_⟩
    rw [VocabularyFile.find_run History.loaded_reader]
    exact History.find_topics
  table := ⟨["table"], [], ⟨Nat.le_of_ble_eq_true rfl, Nat.le_of_ble_eq_true rfl, rfl, rfl, rfl, rfl⟩,
    noLogAt_stocked _⟩
  statistics q hq := by
    have hplace : (stockedOffice reader).files.place library.settings.statisticsFile =
        .ok ["statistics"] := rfl
    obtain rfl := Except.ok.inj (hplace.symm.trans hq)
    refine ⟨fun htable => ?_, noLogAt_stocked _⟩
    cases htable
  named := by
    intro p hp
    rcases List.mem_pair.mp hp with rfl | rfl
    · exact ⟨"poem", rfl⟩
    · exact ⟨"/poem", rfl⟩
  foreign := by
    have hplace : ∀ p ∈ poemNames, (stockedOffice reader).files.place p = .ok ["poem"] := by
      intro p hp
      rcases List.mem_pair.mp hp with rfl | rfl <;> rfl
    intro p hp q hq
    obtain rfl := Except.ok.inj ((hplace p hp).symm.trans hq)
    refine ⟨?_, noLogAt_stocked _⟩
    rintro (hown | hown)
    · cases hown
    · cases hown

end Batch

end TitleClasses
