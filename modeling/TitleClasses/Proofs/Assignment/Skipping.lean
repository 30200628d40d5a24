import TitleClasses.Proofs.Assignment.History
import TitleClasses.Proofs.Assignment.Repeated
import TitleClasses.Proofs.Digest.Fingerprint

/-!
# Which documents may be passed over

When a turn passes a document over, the document is one that an earlier turn has left, under a
vocabulary with the same records (`History.left_before`). Whether the step would leave it as it is then
depends on the profile alone: a row tells the vocabulary of the profile it was made under but none of
its fields. `History.unchanged_of_skipped` is for profiles of one vocabulary that agree in their fields;
without that, passing over may be wrong.
-/

namespace TitleClasses

open Utf8 (Bytes)

/-! ### What is hashed -/

namespace Turn

section Hashed

variable (c : Configuration) (t : Turn)

/-- The documents that a turn takes the hash of: the one it finds, and the one the step leaves unless
the document is passed over. -/
def documents : List Bytes :=
  let left := match (t.outcome c).result with
    | .ok .skipped => []
    | _ => [(t.stepped c).state.files.readBytes t.path]
  (t.office.files.readBytes t.path :: left).filterMap Except.toOption

/-- What a turn takes the hash of for the digest of its vocabulary. -/
def source : Bytes := Utf8.bytesOf t.vocabulary.digestSource

/-- What a turn takes the hash of for the fingerprints of its documents. -/
def fingerprintSources : List Bytes :=
  (t.documents c).map fun bytes => fingerprintSource bytes t.vocabulary.digest

end Hashed

variable {c : Configuration} {t : Turn}

theorem mem_documents {x : Bytes} : x ∈ t.documents c ↔ t.office.files.readBytes t.path = .ok x ∨
    ((t.outcome c).result ≠ .ok .skipped ∧ (t.stepped c).state.files.readBytes t.path = .ok x) := by
  have hok (y : Except Fault Bytes) : y.toOption = some x ↔ y = .ok x := by
    cases y <;> simp [Except.toOption]
  unfold documents
  rw [List.mem_filterMap]
  split
  next h => simp [h, hok]
  next h =>
    have hne : (t.outcome c).result ≠ .ok .skipped := h
    simp [hne, hok, eq_comm]

end Turn

/-- Whether hashes tell apart what the turns take them of: their documents, the sources of the digests
of their vocabularies, and the sources of their fingerprints. -/
structure NoCollisions (c : Configuration) (ts : List Turn) : Prop where
  documents : CollisionFree (ts.flatMap (Turn.documents c))
  sources : CollisionFree (ts.map Turn.source)
  fingerprintSources : CollisionFree (ts.flatMap (Turn.fingerprintSources c))

/-- Whether a turn has to do with the row that another one may leave: their documents have one name,
and the vocabularies of their profiles have one, too. -/
structure Turn.Shares (c : Configuration) (t u : Turn) : Prop where
  vocabulary : Processed.keyOf u.profile.vocabulary = Processed.keyOf t.profile.vocabulary
  document : Batch.keyOf (u.stepped c).state.files u.path = Batch.keyOf t.office.files t.path

/-- Whether two profiles take titles, rules, labels and classes from the same fields. -/
structure Profile.Agrees (p q : Profile) : Prop where
  titleField : p.titleField = q.titleField
  termsField : p.termsField = q.termsField
  classField : p.classField = q.classField
  classMetadata : p.classMetadata = q.classMetadata

/-! ### Passing over -/

namespace History

variable {c : Configuration} {ts : List Turn}

/-- A document that is passed over is as an earlier turn of it has left it, under a profile of the same
vocabulary, when that vocabulary had a digest of the same source. -/
theorem left_before {t : Turn} (h : History c ts t.office.files) (ht : t.Possible c)
    (hfree : NoCollisions c (ts ++ [t]))
    (hskip : (t.outcome c).result = .ok .skipped) :
    ∃ u ∈ ts, u.Possible c ∧ u.dryRun = false ∧ t.Shares c u ∧
      u.vocabulary.digestSource = t.vocabulary.digestSource ∧
      ∃ r bytes, (u.stepped c).result = .ok r ∧ (u.stepped c).state.files.readBytes u.path = .ok bytes ∧
        t.office.files.readBytes t.path = .ok bytes := by
  obtain ⟨found, hfound, row, hrow, hkey, hname, hmark⟩ := Batch.row_of_skipped hskip
  obtain ⟨u, hu, hpossible, hdry, hunskipped, r, left, hr, hleft, k, now, hkey', rfl⟩ := h.origin hrow
  have hu' : u ∈ ts ++ [t] := List.mem_append_left _ hu
  have ht' : t ∈ ts ++ [t] := List.mem_append_right _ (List.mem_singleton_self t)
  have hfound' : found ∈ t.documents c := Turn.mem_documents.mpr (.inl hfound)
  have hleft' : left ∈ u.documents c := Turn.mem_documents.mpr (.inr ⟨hunskipped, hleft⟩)
  -- The fingerprints are one, so the document and the digest are those of the earlier turn.
  obtain ⟨hlines, hdigests⟩ := fingerprintSource_injective (hfree.fingerprintSources _
    (List.mem_flatMap.mpr ⟨u, hu', List.mem_map_of_mem hleft'⟩) _
    (List.mem_flatMap.mpr ⟨t, ht', List.mem_map_of_mem hfound'⟩) hmark)
  obtain rfl : left = found := hfree.documents _ (List.mem_flatMap.mpr ⟨u, hu', hleft'⟩) _
    (List.mem_flatMap.mpr ⟨t, ht', hfound'⟩) hlines
  have hsource : u.source = t.source :=
    hfree.sources _ (List.mem_map_of_mem hu') _ (List.mem_map_of_mem ht') hdigests
  -- The digest is made of the bytes of its source, which is a text that has bytes.
  obtain ⟨d, catalogue, -, hd, hc, hv⟩ := ht.desk
  obtain ⟨d', catalogue', -, hd', hc', hv'⟩ := hpossible.desk
  have hwf := hd.sound.vocabulary.records hc hv
  have hwf' := hd'.sound.vocabulary.records hc' hv'
  have hdigest := Utf8.bytesOf_injective (Vocabulary.encodable_digestSource hwf')
    (Vocabulary.encodable_digestSource hwf) hsource
  have hshares : t.Shares c u := ⟨hkey'.trans hkey.symm, hname⟩
  exact ⟨u, hu, hpossible, hdry, hshares, hdigest, r, left, hr, hleft, hfound⟩

/-- Passing over is right as long as the document was only recorded under profiles that agree with the
present one: the step would leave it as it is, whether dry or not. Hashes must not collide, the classes
of the profile must be metadata of a text type that is not the type of titles, and the log must not be
open on the document. -/
theorem unchanged_of_skipped {t : Turn} (h : History c ts t.office.files) (ht : t.Possible c)
    (hfree : NoCollisions c (ts ++ [t]))
    (hagrees : ∀ u ∈ ts, u.dryRun = false → t.Shares c u → u.profile.Agrees t.profile)
    (hclass : ∃ type, t.profile.classMetadata = .text type)
    (htitle : t.profile.titleField ≠ t.profile.classMetadata)
    (hlog : ∀ q, t.office.files.place t.path = .ok q → t.office.files.NoLogAt q)
    (hskip : (t.outcome c).result = .ok .skipped) (dryRun : Bool) :
    (((t.batch c).step.run t.path dryRun).run t.office.workplace).state.files.readBytes t.path =
      t.office.files.readBytes t.path := by
  obtain ⟨u, hu, hpossible, hdry, hshares, hdigest, r, bytes, hr, hleft, hfound⟩ :=
    h.left_before ht hfree hskip
  obtain ⟨htitles, hterms, hclasses, hmetadata⟩ := hagrees u hu hdry hshares
  obtain ⟨d, catalogue, hdesks, hd, hc, hv⟩ := ht.desk
  obtain ⟨d', catalogue', hdesks', hd', hc', hv'⟩ := hpossible.desk
  obtain ⟨fs, hentered, -⟩ :=
    (u.batch c).entered_state u.vocabulary.digest u.skipUnchanged u.path u.office
  obtain ⟨type, htype⟩ := hclass
  -- The earlier turn was not dry, and began at its desk.
  have hr' : (((u.batch c).step.run u.path false).run (Batch.withFiles u.office fs).workplace).result =
      .ok r := by
    rw [← hentered, ← hdry]
    exact hr
  have hleft' : (((u.batch c).step.run u.path false).run
      (Batch.withFiles u.office fs).workplace).state.files.readBytes u.path = .ok bytes := by
    rw [← hentered, ← hdry]
    exact hleft
  -- The strategies of both turns find the same labels for the same subject.
  have hfindings (subject : Text) :
      (Policy.new u.profile.termsField u.profile.classField c.settings.workers).findings u.vocabulary
          d'.engine subject =
        (Policy.new t.profile.termsField t.profile.classField c.settings.workers).findings t.vocabulary
          d.engine subject := by
    rw [hterms, hclasses]
    exact Policy.findings_congr (hd'.sound.vocabulary.records hc' hv')
      (hd.sound.vocabulary.records hc hv) hdigest hd'.sound.engine hd.sound.engine
      (hd'.sound.refusal.trans hd.sound.refusal.symm) subject
  obtain ⟨e, log, labels, -, hclassified, rfl⟩ := AssignmentStep.of_run_ok hr'
  have hthere : (LogKeeper.keep log (Batch.withFiles u.office fs).workplace : Workplace).desks = [d'] :=
    hdesks'
  rw [Turn.classified_batch hthere hc' hv'] at hclassified
  rw [hfound]
  -- So the step finds again what it has found, on what it has left.
  refine AssignmentStep.run_again hr' hleft' (hmetadata.trans htype) ?_ hmetadata.symm hfound hlog ?_ ?_
    dryRun
  · show u.profile.titleField ≠ u.profile.classMetadata
    rw [htitles, hmetadata]
    exact htitle
  · intro e' log'
    have hlogged : Files.Logged t.office.workplace.files
        (LogKeeper.keep log' t.office.workplace).files := ⟨log', rfl⟩
    exact hlogged.trans ((Turn.keeps_batch hc hv).files e' _ hdesks)
  · intro e' log' labels' hsubject hclassified'
    have hhere : (LogKeeper.keep log' t.office.workplace).desks = [d] := hdesks
    rw [Turn.classified_batch hhere hc hv, ← hfindings, ← htitles] at hclassified'
    have hsame : e'.logical.subject u.profile.titleField = e.logical.subject u.profile.titleField :=
      hsubject
    rw [hsame] at hclassified'
    exact Except.ok.inj (hclassified'.symm.trans hclassified)

/-! A poem that is classified by the terms of a vocabulary and then asked for again, under the same
profile or under one that takes rules from the keywords of the same vocabulary. No keyword is in the
title of the poem, so that the step would take its class away under the other profile. -/

/-- A profile for which terms are rules. -/
def byTerms : Profile :=
  ⟨.text "default", .text "topics", .text "topic", .text "terms", .text "Title", .text "Class"⟩

/-- A profile for which keywords are rules, with the same vocabulary. -/
def byKeywords : Profile := { byTerms with name := .text "keywords", termsField := .text "keywords" }

/-- The configuration with both profiles. -/
def library : Configuration where
  settings :=
    { vocabularyFile := ⟨[], ["vocabularies"]⟩, logDirectory := ⟨[], ["logs"]⟩
      statisticsFile := ⟨[], ["statistics"]⟩, tableFile := ⟨[], ["table"]⟩
      profilesFile := ⟨[], ["profiles"]⟩, logLevel := "INFO", workers := 1
      profiles := [(byTerms.name, byTerms), (byKeywords.name, byKeywords)], default := byTerms }
  refusal _ := none

/-- The vocabulary: what is about the sea, or has to do with storms, is about nature. -/
def topics : Vocabulary :=
  ⟨.text "topics", [⟨"0", [("topic", "Nature"), ("terms", "sea"), ("keywords", "storm")]⟩]⟩

/-- What the vocabulary file holds. -/
def topicsFile : Json :=
  .object [("vocabularies", .list [.object [("name", .text "topics"), ("records", .list [
    .object [("fields", .object [("topic", .text "Nature"), ("terms", .text "sea"),
      ("keywords", .text "storm")])]])]])]

/-- The poem, with its class. -/
def poem : Bytes :=
  Utf8.bytesOf (Json.write .document (.object [("type", .text "Poem"), ("metadata",
    .list [Json.entry (.text "Title") "Sea", Json.entry (.text "Class") "Nature"])]))

/-- The path of the poem. -/
def poemPath : Path := ⟨[], ["poem"]⟩

/-- The files of the library, after some temporary files, with some rows in the table. -/
def shelf (temporaries : Nat) (rows : List ProcessedRow) : Files :=
  ⟨[], [(["vocabularies"], .file (Utf8.bytesOf (topicsFile.write .line))), (["table"], .table rows),
    (["poem"], .file poem)], temporaries, none⟩

/-- A desk at which the vocabulary file is loaded. -/
def reader : Desk where
  vocabulary := ((VocabularyFile.reload (shelf 0 [])).run ⟨library.settings.vocabularyFile, none⟩).state
  engine := .new library.refusal

/-- The turn in which the poem is classified by terms. -/
def recording : Turn := ⟨byTerms, topics, false, false, poemPath, ⟨⟨shelf 0 [], [reader]⟩, ⟨0, 1⟩⟩⟩

/-- The row that is made for the poem. -/
def poemRow : ProcessedRow :=
  Processed.rowOf "topics" "/poem" (fingerprint poem topics.digest) ["Nature"]
    recording.office.clock.instant

/-- A turn in which the poem is asked for again. -/
def asking (p : Profile) : Turn :=
  ⟨p, topics, false, true, poemPath, ⟨⟨shelf 1 [poemRow], [reader]⟩, ⟨1, 1⟩⟩⟩

section Shelf

variable (temporaries : Nat) (rows : List ProcessedRow)

theorem readBytes_shelf : (shelf temporaries rows).readBytes poemPath = .ok poem := rfl

theorem keyOf_shelf : Batch.keyOf (shelf temporaries rows) poemPath = "/poem" := by
  rfl

theorem stands_shelf :
    Processed.Stands (shelf temporaries rows) library.settings.tableFile ["table"] rows where
  pathFits := Nat.le_of_ble_eq_true rfl
  nameFits := Nat.le_of_ble_eq_true rfl
  place := rfl
  table := rfl
  journal := rfl
  ahead := rfl

end Shelf

theorem keyOf_topics : Processed.keyOf (.text "topics") = .ok (some "topics") := rfl

theorem arises_reader : reader.Arises library := by
  have htaken : Desk.Arises library ⟨⟨library.settings.vocabularyFile, none⟩, .new library.refusal⟩ :=
    .taken
  exact htaken.loaded (shelf 0 [])

theorem loaded_reader : reader.vocabulary.loaded = some [(.text "topics", topics)] := by decide +kernel

theorem find_topics : Catalogue.find [(.text "topics", topics)] (.text "topics") = .ok topics := rfl

/-- Any turn under one of the two profiles, at the desk with the vocabulary, is possible. -/
theorem possible_reader {t : Turn} (hp : t.profile = byTerms ∨ t.profile = byKeywords)
    (hv : t.vocabulary = topics) (hdesks : t.office.workplace.desks = [reader]) :
    t.Possible library where
  profile := by
    rcases hp with hp | hp
    · rw [hp]
      exact ⟨none, rfl⟩
    · rw [hp]
      exact ⟨some "keywords", rfl⟩
  desk := by
    have hname : t.profile.vocabulary = .text "topics" := by
      rcases hp with hp | hp <;> rw [hp] <;> rfl
    refine ⟨reader, [(.text "topics", topics)], hdesks, arises_reader, loaded_reader, ?_⟩
    rw [hname, hv]
    exact find_topics

/-- Where there is no log, files are told by the home, the nodes and the number of temporary files. -/
theorem outcome_eq_of_parts {s : Outcome Workplace StepResult} {r : StepResult} {fs : Files}
    (hlog : fs.log = none)
    (h : s.result.toOption = some r ∧ (s.state.files.home, s.state.files.nodes,
      s.state.files.temporaries) = (fs.home, fs.nodes, fs.temporaries) ∧ s.state.files.log.isNone) :
    s.result = .ok r ∧ s.state.files = fs := by
  obtain ⟨hresult, hfiles, hnone⟩ := h
  refine ⟨Except.eq_ok_of_toOption hresult, ?_⟩
  obtain ⟨result, ⟨⟨home, nodes, temporaries, log⟩, desks⟩, records⟩ := s
  obtain ⟨home', nodes', temporaries', log'⟩ := fs
  simp only [Prod.mk.injEq] at hfiles
  obtain ⟨rfl, rfl, rfl⟩ := hfiles
  obtain rfl := Option.isNone_iff_eq_none.mp hnone
  obtain rfl := hlog
  rfl

/-- What the step does with the poem when it is classified by terms: the poem has its class already, so
that nothing changes but the number of temporary files. -/
theorem stepped_recording :
    (recording.stepped library).result = .ok ⟨poemPath, "Sea", ["Nature"], 1, true⟩ ∧
      (recording.stepped library).state.files = shelf 1 [] :=
  outcome_eq_of_parts rfl (by decide +kernel)

/-- The turn leads to the shelf with the row for the poem. -/
theorem history_library : History library [recording] (shelf 1 [poemRow]) := by
  obtain ⟨hresult, hfiles⟩ := stepped_recording
  have hstart : History library [] recording.office.files := .start rfl
  have hturn := hstart.turn recording (possible_reader (.inl rfl) rfl rfl)
  have hread : (shelf 1 []).readBytes recording.path = .ok poem := readBytes_shelf 1 []
  have hpath : Batch.keyOf (shelf 1 []) recording.path = "/poem" := keyOf_shelf 1 []
  have hstands := stands_shelf 1 []
  rw [← hfiles] at hread hstands hpath
  have hrow := Turn.row_of_stepped rfl rfl hresult hread hstands keyOf_topics
  rw [hpath] at hrow
  -- The turn has left at least the row of the poem; the shelf has no other.
  refine hturn.edit (shelf 1 [poemRow]) fun row hin => ?_
  obtain rfl : row = poemRow := by simpa [shelf, Files.rows, Node.rows] using hin
  exact hrow

theorem readBytes_asking (p : Profile) : (asking p).office.files.readBytes (asking p).path = .ok poem :=
  readBytes_shelf 1 [poemRow]

theorem skipped_asking {p : Profile} (hp : p.vocabulary = .text "topics") :
    ((asking p).outcome library).result = .ok .skipped := by
  have hkey : Processed.keyOf p.vocabulary = .ok (some "topics") := by rw [hp, keyOf_topics]
  have hfind : Processed.find? [poemRow] "topics" "/poem" = some poemRow := by
    simp [Processed.find?, poemRow, Processed.rowOf]
  have hmark : poemRow.fingerprint = fingerprint poem topics.digest := by
    dsimp only [poemRow, Processed.rowOf]
  rw [← keyOf_shelf 1 [poemRow]] at hfind
  exact Batch.process_skips (b := (asking p).batch library) (o := (asking p).office) false
    (readBytes_shelf 1 [poemRow]) (stands_shelf 1 [poemRow]) hkey hfind hmark

/-- The turn in which the poem is classified finds and leaves the same document. -/
theorem documents_recording : ∀ x ∈ recording.documents library, x = poem := by
  intro x hx
  rcases Turn.mem_documents.mp hx with hfound | ⟨-, hleft⟩
  · exact Except.ok.inj (hfound.symm.trans (readBytes_shelf 0 []))
  · rw [stepped_recording.2] at hleft
    exact Except.ok.inj (hleft.symm.trans (readBytes_shelf 1 []))

/-- In both turns the same document is hashed, for the same vocabulary. -/
theorem noCollisions_asking {p : Profile} (hp : p.vocabulary = .text "topics") :
    NoCollisions library ([recording] ++ [asking p]) := by
  have hasking : ∀ x ∈ (asking p).documents library, x = poem := by
    intro x hx
    rcases Turn.mem_documents.mp hx with hfound | ⟨hne, -⟩
    · exact Except.ok.inj (hfound.symm.trans (readBytes_asking p))
    · exact absurd (skipped_asking hp) hne
  have hdocuments : ∀ t ∈ [recording] ++ [asking p], ∀ x ∈ t.documents library, x = poem := by
    intro t ht
    rcases List.mem_pair.mp ht with rfl | rfl
    · exact documents_recording
    · exact hasking
  have htopics : ∀ t ∈ [recording] ++ [asking p], t.vocabulary = topics := by
    intro t ht
    rcases List.mem_pair.mp ht with rfl | rfl <;> rfl
  refine ⟨collisionFree_of_forall_eq (x := poem) ?_,
    collisionFree_of_forall_eq (x := Utf8.bytesOf topics.digestSource) ?_,
    collisionFree_of_forall_eq (x := fingerprintSource poem topics.digest) ?_⟩
  · intro x hx
    obtain ⟨t, ht, hin⟩ := List.mem_flatMap.mp hx
    exact hdocuments t ht x hin
  · intro x hx
    obtain ⟨t, ht, rfl⟩ := List.mem_map.mp hx
    rw [Turn.source, htopics t ht]
  · intro x hx
    obtain ⟨t, ht, hin⟩ := List.mem_flatMap.mp hx
    obtain ⟨document, hdocument, rfl⟩ := List.mem_map.mp hin
    rw [hdocuments t ht document hdocument, htopics t ht]

theorem unchanged_of_skipped_poem : ((asking byTerms).outcome library).result = .ok .skipped ∧
    ((((asking byTerms).batch library).step.run (asking byTerms).path false).run
      (asking byTerms).office.workplace).state.files.readBytes (asking byTerms).path = .ok poem := by
  have hskip : ((asking byTerms).outcome library).result = .ok .skipped := skipped_asking rfl
  have hagrees : ∀ u ∈ [recording], u.dryRun = false → (asking byTerms).Shares library u →
      u.profile.Agrees (asking byTerms).profile := by
    intro u hu _ _
    obtain rfl := List.mem_singleton.mp hu
    exact ⟨rfl, rfl, rfl, rfl⟩
  have hlog : ∀ q, (asking byTerms).office.files.place (asking byTerms).path = .ok q →
      (asking byTerms).office.files.NoLogAt q := by
    intro q _ l hl
    cases hl
  have hsame := unchanged_of_skipped history_library (possible_reader (.inl rfl) rfl rfl)
    (noCollisions_asking rfl) hagrees ⟨"Class", rfl⟩ (by decide) hlog hskip false
  exact ⟨hskip, hsame.trans (readBytes_asking byTerms)⟩

/-- Passing over is wrong under a profile that takes rules from another field: the poem, which was
classified by terms, is passed over when keywords are the rules, and the step would take its class away.
-/
theorem not_unchanged_of_skipped : ¬ ∀ (c : Configuration) (ts : List Turn) (t : Turn),
    History c ts t.office.files → t.Possible c → NoCollisions c (ts ++ [t]) →
    (t.outcome c).result = .ok .skipped → ∀ dryRun : Bool,
    (((t.batch c).step.run t.path dryRun).run t.office.workplace).state.files.readBytes t.path =
      t.office.files.readBytes t.path := by
  intro h
  have hsame := h library [recording] (asking byKeywords) history_library
    (possible_reader (.inr rfl) rfl rfl) (noCollisions_asking rfl) (skipped_asking rfl) false
  have hchanged : ((((asking byKeywords).batch library).step.run (asking byKeywords).path false).run
      (asking byKeywords).office.workplace).state.files.readBytes (asking byKeywords).path ≠
        .ok poem := by
    intro hread
    have hpoem := congrArg Except.toOption hread
    revert hpoem
    decide +kernel
  exact hchanged (hsame.trans (readBytes_asking byKeywords))

end History

end TitleClasses
