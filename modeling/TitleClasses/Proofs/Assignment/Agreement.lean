import Mathlib
import TitleClasses.Proofs.Assignment.Skipping
import TitleClasses.Proofs.Processed.Row

/-!
# The table agrees with the files

A row keeps the labels that were assigned to a document, and its fingerprint tells which bytes the
document had then. So as long as a document is current, the labels on record are the classes that stand
in it: they were written together with the bytes, which are still there (`History.labels_of_isCurrent`).
That is so for classes in metadata of a text type. A profile may name a number as the type, which is
written as a number and read back as a text; then the classes that are read are none, and the labels on
record stay what they were (`History.not_labels_of_isCurrent`).
-/

namespace TitleClasses

open Utf8 (Bytes)

/-! ### Labels on record -/

/-- Labels in increasing order are told by a row as they were recorded. -/
theorem Processed.labelsOf_rowOf {labels : List Text} (hsorted : Text.Increasing labels)
    (hunpaired : ∀ l ∈ labels, l.Unpaired) (k document mark : Text) (now : Instant) :
    labelsOf (rowOf k document mark labels now) = .ok labels := by
  rw [labelsOf_rowOf_eq_sorted hunpaired, Text.sorted_of_increasing hsorted]

namespace Turn

variable {c : Configuration} {t : Turn} {row : ProcessedRow} {type : Text}

/-- What a row tells of the document that the turn has left: the bytes are those of a tree, and the
labels are the classes of its logical element. -/
theorem Makes.tells (h : t.Makes c row) (hclass : t.profile.classMetadata = .text type) :
    ∃ (bytes : Bytes) (root : Element), bytes ∈ t.documents c ∧
      row.fingerprint = fingerprint bytes t.vocabulary.digest ∧
      root.TextTypes ∧ Utf8.encode root.render = .ok bytes ∧
      Processed.labelsOf row = .ok (root.logical.valuesOf (.text type)) := by
  obtain ⟨hdry, hunskipped, r, bytes, hr, hleft, k, now, -, rfl⟩ := h
  obtain ⟨fs, hentered, -⟩ :=
    (t.batch c).entered_state t.vocabulary.digest t.skipUnchanged t.path t.office
  have hstepped : t.stepped c =
      ((t.batch c).step.run t.path false).run (Batch.withFiles t.office fs).workplace := by
    rw [← hdry, ← hentered]
    rfl
  have hmem : bytes ∈ t.documents c := mem_documents.mpr (.inr ⟨hunskipped, hleft⟩)
  rw [hstepped] at hr hleft
  obtain ⟨d, log, labels, bytes', hl, hc, rfl, he, hread⟩ := AssignmentStep.of_run_written hr
  obtain rfl : bytes = bytes' := Except.ok.inj (hleft.symm.trans hread)
  have hsorted := AssignmentStep.sortDistinct_classified hc
  have hcf : (t.batch c).step.classField = .text type := hclass
  have htypes : ((t.batch c).step.changed d labels).root.TextTypes :=
    Element.allTypes_updateLogical (Document.textTypes_of_load hl) ⟨type, hcf⟩
  -- The classes of what was written are the labels.
  have hvalues : ((t.batch c).step.changed d labels).root.logical.valuesOf (.text type) = labels := by
    show (d.root.updateLogical fun e => e.replaceValues (t.batch c).step.classField
      labels).logical.valuesOf (.text type) = labels
    rw [hcf, Element.logical_updateLogical, Element.valuesOf_replaceValues_self, hsorted]
  refine ⟨bytes, _, hmem, rfl, htypes, he, ?_⟩
  have hencodable := ((Element.encodable_iff htypes).mpr ⟨bytes, he⟩).logical
  rw [hvalues]
  refine Processed.labelsOf_rowOf (hsorted ▸ Text.sortDistinct_increasing labels) (fun l hl => ?_) ..
  exact Text.unpaired_of_encodable (hencodable.value (hvalues ▸ hl))

end Turn

namespace History

variable {c : Configuration} {ts : List Turn} {fs : Files}

/-- As long as a document is current, under the digest of any vocabulary, the labels on record are the
classes of its logical element, in their order, if all turns were taken under one profile with classes in
metadata of a text type. The document is the text of a tree, and it is loaded as that tree, unless it is
nested deeper than the reader goes. Hashes must not collide. -/
theorem labels_of_isCurrent {p : Profile} {type key : Text} {v : Vocabulary} {path : Path}
    {bytes : Bytes} (h : History c ts fs) (hprofile : ∀ t ∈ ts, t.profile = p)
    (hclass : p.classMetadata = .text type) (hread : fs.readBytes path = .ok bytes)
    (hdocuments : CollisionFree (bytes :: ts.flatMap (Turn.documents c)))
    (hsources : CollisionFree
      (fingerprintSource bytes v.digest :: ts.flatMap (Turn.fingerprintSources c)))
    (hcurrent : ((Processed.isCurrent c.settings.tableFile p.vocabulary key
      (fingerprint bytes v.digest)).run fs).result = .ok true) :
    ∃ k rows row, ∃ root : Element, Processed.keyOf p.vocabulary = .ok (some k) ∧
      ((Processed.rows c.settings.tableFile).run fs).result = .ok rows ∧
      Processed.find? rows k key = some row ∧ Utf8.encode root.render = .ok bytes ∧
      (∀ d, Document.load fs path = .ok d ↔
        d = ⟨path, root⟩ ∧ root.toJson.nesting ≤ Json.maxDepth) ∧
      Processed.labelsOf row = .ok (root.logical.valuesOf p.classMetadata) := by
  obtain ⟨k, rows, row, hk, hrows, hfound, hmark⟩ := Processed.found_of_isCurrent hcurrent
  obtain ⟨hrow, -, -⟩ := Processed.find?_eq_some hfound
  obtain ⟨t, ht, -, hmakes⟩ := h.origin ((Processed.rows_rows _ fs).2 rows hrows hrow)
  have hclass' : t.profile.classMetadata = .text type := by rw [hprofile t ht, hclass]
  obtain ⟨left, root, hleft, hmark', htypes, he, hlabels⟩ := hmakes.tells hclass'
  -- The fingerprints are one, so the document still is what the turn has left.
  have hsource : fingerprintSource left t.vocabulary.digest = fingerprintSource bytes v.digest :=
    hsources _ (List.mem_cons_of_mem _ (List.mem_flatMap.mpr ⟨t, ht, List.mem_map_of_mem hleft⟩)) _
      List.mem_cons_self (hmark'.symm.trans hmark)
  obtain ⟨hlines, -⟩ := fingerprintSource_injective hsource
  obtain rfl : left = bytes := hdocuments _
    (List.mem_cons_of_mem _ (List.mem_flatMap.mpr ⟨t, ht, hleft⟩)) _ List.mem_cons_self hlines
  refine ⟨k, rows, row, root, hk, hrows, hfound, he, fun d => ?_, hclass ▸ hlabels⟩
  exact Document.load_rendered_iff htypes he hread

/-! The poem that was classified by terms is current. -/

theorem isCurrent_poem : ((Processed.isCurrent library.settings.tableFile byTerms.vocabulary "/poem"
    (fingerprint poem topics.digest)).run (shelf 1 [poemRow])).result = .ok true := by
  have hfind : Processed.find? [poemRow] "topics" "/poem" = some poemRow := by
    simp [Processed.find?, poemRow, Processed.rowOf]
  have hmark : poemRow.fingerprint = fingerprint poem topics.digest := by
    dsimp only [poemRow, Processed.rowOf]
  have hkey : Processed.keyOf byTerms.vocabulary = .ok (some "topics") := keyOf_topics
  rw [(stands_shelf 1 [poemRow]).isCurrent_run hkey, hfind, Option.map_some, hmark]
  simp

theorem labels_of_isCurrent_poem :
    ((Processed.isCurrent library.settings.tableFile byTerms.vocabulary "/poem"
      (fingerprint poem topics.digest)).run (shelf 1 [poemRow])).result = .ok true ∧
    ∃ root : Element, Utf8.encode root.render = .ok poem ∧
      Processed.labelsOf poemRow = .ok (root.logical.valuesOf (.text "Class")) := by
  have hprofile : ∀ t ∈ [recording], t.profile = byTerms := by
    intro t ht
    rw [List.mem_singleton.mp ht]
    rfl
  have hvocabulary : recording.vocabulary = topics := rfl
  have hdocuments : ∀ x ∈ poem :: [recording].flatMap (Turn.documents library), x = poem := by
    intro x hx
    rcases List.mem_cons.mp hx with rfl | hx
    · rfl
    · exact documents_recording x (by simpa using hx)
  have hsources : ∀ x ∈ fingerprintSource poem topics.digest ::
      [recording].flatMap (Turn.fingerprintSources library),
        x = fingerprintSource poem topics.digest := by
    intro x hx
    rcases List.mem_cons.mp hx with hx | hx
    · exact hx
    · obtain ⟨document, hdocument, hx⟩ := List.mem_map.mp
        (show x ∈ recording.fingerprintSources library by simpa using hx)
      rw [← hx, documents_recording document hdocument]
      exact congrArg (fingerprintSource poem) (congrArg Vocabulary.digest hvocabulary)
  obtain ⟨k, rows, row, root, -, hrows, hfound, he, -, hlabels⟩ := labels_of_isCurrent history_library
    hprofile rfl (readBytes_shelf 1 [poemRow]) (collisionFree_of_forall_eq hdocuments)
    (collisionFree_of_forall_eq hsources) isCurrent_poem
  -- The table has the one row.
  rw [(stands_shelf 1 [poemRow]).rows_run] at hrows
  obtain rfl := Except.ok.inj hrows
  obtain rfl := List.mem_singleton.mp (Processed.find?_eq_some hfound).1
  exact ⟨isCurrent_poem, root, he, hlabels⟩

/-! The same poem under a profile with a number as the type of classes. -/

/-- A profile with a number as the type of classes. -/
def byNumber : Profile := { byTerms with classMetadata := .int 7 }

/-- The configuration with this profile. -/
def numbered : Configuration :=
  { library with settings := { library.settings with default := byNumber } }

/-- The poem, with a class of that type after the one it had. -/
def numberedPoem : Bytes :=
  Utf8.bytesOf (Json.write .document (.object [("type", .text "Poem"), ("metadata",
    .list [Json.entry (.text "Title") "Sea", Json.entry (.text "Class") "Nature",
      Json.entry (.int 7) "Nature"])]))

/-- The files of the library with this poem, after a temporary file. -/
def numberedShelf (rows : List ProcessedRow) : Files :=
  ⟨[], [(["vocabularies"], .file (Utf8.bytesOf (topicsFile.write .line))), (["table"], .table rows),
    (["poem"], .file numberedPoem)], 1, none⟩

/-- The turn in which the poem gets its class. -/
def numbering : Turn := { recording with profile := byNumber }

/-- The row that is made for it. -/
def numberedRow : ProcessedRow :=
  Processed.rowOf "topics" "/poem" (fingerprint numberedPoem topics.digest) ["Nature"]
    numbering.office.clock.instant

theorem stands_numberedShelf (rows : List ProcessedRow) :
    Processed.Stands (numberedShelf rows) numbered.settings.tableFile ["table"] rows where
  pathFits := Nat.le_of_ble_eq_true rfl
  nameFits := (stands_shelf 1 rows).nameFits
  place := rfl
  table := rfl
  journal := rfl
  ahead := rfl

theorem stepped_numbering :
    (numbering.stepped numbered).result = .ok ⟨poemPath, "Sea", ["Nature"], 0, true⟩ ∧
      (numbering.stepped numbered).state.files = numberedShelf [] :=
  outcome_eq_of_parts rfl (by decide +kernel)

theorem history_numbered : History numbered [numbering] (numberedShelf [numberedRow]) := by
  obtain ⟨hresult, hfiles⟩ := stepped_numbering
  have harises : reader.Arises numbered := by
    have htaken : Desk.Arises numbered ⟨⟨numbered.settings.vocabularyFile, none⟩, .new numbered.refusal⟩ :=
      .taken
    exact htaken.loaded (shelf 0 [])
  have hpossible : numbering.Possible numbered :=
    ⟨⟨none, rfl⟩, reader, [(.text "topics", topics)], rfl, harises, loaded_reader, find_topics⟩
  have hturn := (History.start rfl : History numbered [] numbering.office.files).turn numbering hpossible
  have hread : (numberedShelf []).readBytes numbering.path = .ok numberedPoem := rfl
  have hpath : Batch.keyOf (numberedShelf []) numbering.path = "/poem" := rfl
  have hstands := stands_numberedShelf []
  rw [← hfiles] at hread hstands hpath
  have hrow := Turn.row_of_stepped rfl rfl hresult hread hstands keyOf_topics
  rw [hpath] at hrow
  refine hturn.edit (numberedShelf [numberedRow]) fun row hin => ?_
  obtain rfl : row = numberedRow := by simpa [numberedShelf, Files.rows, Node.rows] using hin
  exact hrow

/-- The source of the digest of the vocabulary. -/
theorem digestSource_topics : topics.digestSource =
    "[[\"0\", \x7b\"keywords\": \"storm\", \"terms\": \"sea\", \"topic\": \"Nature\"\x7d]]" := by
  unfold Vocabulary.digestSource topics
  cbv

/-- The poem as it is found and as it is left have different hashes, and different fingerprints. -/
theorem hashes_numbering : hashText poem ≠ hashText numberedPoem ∧
    fingerprint poem topics.digest ≠ fingerprint numberedPoem topics.digest := by
  have hmarks : fingerprint poem topics.digest ≠ fingerprint numberedPoem topics.digest := by
    unfold Vocabulary.digest
    rw [digestSource_topics]
    decide +kernel
  refine ⟨fun heq => hmarks ?_, hmarks⟩
  unfold fingerprint fingerprintSource
  rw [heq]

theorem documents_numbering : ∀ x ∈ numbering.documents numbered, x = poem ∨ x = numberedPoem := by
  intro x hx
  rcases Turn.mem_documents.mp hx with hfound | ⟨-, hleft⟩
  · exact Or.inl (Except.ok.inj (hfound.symm.trans (readBytes_shelf 0 [])))
  · rw [stepped_numbering.2] at hleft
    exact Or.inr (Except.ok.inj hleft).symm

/-- The labels on record need not be the classes of the document when the type of classes is a number:
the class that was written is read back with a text as its type. -/
theorem not_labels_of_isCurrent : ¬ ∀ (c : Configuration) (ts : List Turn) (fs : Files) (p : Profile)
    (key : Text) (v : Vocabulary) (path : Path) (bytes : Bytes) (d : Document), History c ts fs →
    (∀ t ∈ ts, t.profile = p) → fs.readBytes path = .ok bytes →
    CollisionFree (bytes :: ts.flatMap (Turn.documents c)) →
    CollisionFree (fingerprintSource bytes v.digest :: ts.flatMap (Turn.fingerprintSources c)) →
    ((Processed.isCurrent c.settings.tableFile p.vocabulary key
      (fingerprint bytes v.digest)).run fs).result = .ok true →
    Document.load fs path = .ok d →
    ∃ k rows row, Processed.keyOf p.vocabulary = .ok (some k) ∧
      ((Processed.rows c.settings.tableFile).run fs).result = .ok rows ∧
      Processed.find? rows k key = some row ∧
      Processed.labelsOf row = .ok (d.logical.valuesOf p.classMetadata) := by
  intro h
  have hprofile : ∀ t ∈ [numbering], t.profile = byNumber := by
    intro t ht
    rw [List.mem_singleton.mp ht]
    rfl
  have hread : (numberedShelf [numberedRow]).readBytes poemPath = .ok numberedPoem := rfl
  have hdocuments : ∀ x ∈ numberedPoem :: [numbering].flatMap (Turn.documents numbered),
      x = poem ∨ x = numberedPoem := by
    intro x hx
    rcases List.mem_cons.mp hx with hx | hx
    · exact Or.inr hx
    · exact documents_numbering x (by simpa using hx)
  have hsources : ∀ x ∈ fingerprintSource numberedPoem topics.digest ::
      [numbering].flatMap (Turn.fingerprintSources numbered),
        x = fingerprintSource poem topics.digest ∨ x = fingerprintSource numberedPoem topics.digest := by
    intro x hx
    rcases List.mem_cons.mp hx with hx | hx
    · exact Or.inr hx
    · obtain ⟨document, hdocument, hx⟩ := List.mem_map.mp
        (show x ∈ numbering.fingerprintSources numbered by simpa using hx)
      have hdigest : numbering.vocabulary.digest = topics.digest := congrArg Vocabulary.digest rfl
      rw [hdigest] at hx
      rcases documents_numbering document hdocument with heq | heq
      · exact Or.inl (by rw [← hx, heq])
      · exact Or.inr (by rw [← hx, heq])
  obtain ⟨hhashes, hmarks⟩ := hashes_numbering
  have hstands := stands_numberedShelf [numberedRow]
  have hcurrent : ((Processed.isCurrent numbered.settings.tableFile byNumber.vocabulary "/poem"
      (fingerprint numberedPoem topics.digest)).run (numberedShelf [numberedRow])).result = .ok true := by
    have hfind : Processed.find? [numberedRow] "topics" "/poem" = some numberedRow := by
      simp [Processed.find?, numberedRow, Processed.rowOf]
    have hmark : numberedRow.fingerprint = fingerprint numberedPoem topics.digest := by
      dsimp only [numberedRow, Processed.rowOf]
    have hkey : Processed.keyOf byNumber.vocabulary = .ok (some "topics") := keyOf_topics
    rw [hstands.isCurrent_run hkey, hfind, Option.map_some, hmark]
    simp
  -- The document has no classes, and the row has one label.
  have hvalues : ((Document.load (numberedShelf [numberedRow]) poemPath).toOption.map fun d =>
      d.logical.valuesOf (.int 7)) = some [] := by decide +kernel
  rcases hload : Document.load (numberedShelf [numberedRow]) poemPath with f | d
  · rw [hload] at hvalues
    cases hvalues
  rw [hload] at hvalues
  obtain ⟨k, rows, row, -, hrows, hfound, hlabels⟩ := h numbered [numbering] _ byNumber "/poem" topics
    poemPath numberedPoem d history_numbered hprofile hread
    (collisionFree_of_ne hdocuments hhashes) (collisionFree_of_ne hsources hmarks) hcurrent hload
  rw [hstands.rows_run] at hrows
  obtain rfl := Except.ok.inj hrows
  obtain rfl := List.mem_singleton.mp (Processed.find?_eq_some hfound).1
  have hnone : d.logical.valuesOf byNumber.classMetadata = [] := Option.some.inj hvalues
  rw [hnone] at hlabels
  have hone : Processed.labelsOf numberedRow = .ok ["Nature"] := by
    refine Processed.labelsOf_rowOf (List.pairwise_singleton ..) (fun l hl => ?_) ..
    rw [List.mem_singleton.mp hl]
    exact Text.unpaired_of_encodable (Utf8.encodable_ofString "Nature")
  cases hone.symm.trans hlabels

end History

end TitleClasses
