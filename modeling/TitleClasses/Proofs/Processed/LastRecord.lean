import Mathlib.Data.List.Dedup
import TitleClasses.Proofs.Processed.Entry
import TitleClasses.Proofs.Processed.Row
import TitleClasses.Proofs.Vocabulary.Content

/-!
# The last record counts

A new table to which documents are recorded keeps of each vocabulary and document what was recorded of
them last, and nothing else: records of one never touch another. `Processed.Keeps` is what recording
preserves (`Keeps.record`), and so what holds after any records. From it follows what each question about
the table is answered (`Processed.last_record`).
-/

namespace TitleClasses

open Utf8 (Bytes)

namespace ProcessedDocument

/-- The vocabulary and the document, which are the key of a row. -/
def key (d : ProcessedDocument) : Text × Text := (d.vocabulary, d.document)

end ProcessedDocument

namespace Processed

variable {fs : Files} {path : Path} {p : Place} {rs : List ProcessedRow}
  {calls : List ProcessedDocument}

/-- What was recorded last for a vocabulary and a document. -/
def last? (calls : List ProcessedDocument) (vocabulary document : Text) : Option ProcessedDocument :=
  calls.reverse.find? fun c => c.vocabulary = vocabulary && c.document = document

/-- Records a document with all that is told of it. -/
def recordOf (path : Path) (d : ProcessedDocument) : Action Files Unit :=
  record path (.text d.vocabulary) d.document d.fingerprint d.labels d.classifiedAt

theorem keyOf_text {t : Text} (h : Utf8.Encodable t) : keyOf (.text t) = .ok (some t) := by
  unfold keyOf
  dsimp only
  rw [(Utf8.firstSurrogates_eq_none_iff t).mpr h]

theorem last?_concat (calls : List ProcessedDocument) (d : ProcessedDocument) (vocabulary document : Text) :
    last? (calls ++ [d]) vocabulary document =
      if d.vocabulary = vocabulary ∧ d.document = document then some d
      else last? calls vocabulary document := by
  unfold last?
  rw [List.reverse_append, List.reverse_singleton, List.singleton_append, List.find?_cons]
  by_cases h : d.vocabulary = vocabulary ∧ d.document = document
  · simp [h]
  · have hnot : (decide (d.vocabulary = vocabulary) && decide (d.document = document)) = false := by
      simpa [imp_iff_not_or] using h
    rw [hnot, if_neg h]

/-- What was recorded last was recorded for the key that is asked for. -/
theorem last?_eq_some {d : ProcessedDocument} {vocabulary document : Text}
    (h : last? calls vocabulary document = some d) :
    d ∈ calls ∧ d.vocabulary = vocabulary ∧ d.document = document := by
  have hkey := List.find?_some h
  simp only [Bool.and_eq_true, decide_eq_true_eq] at hkey
  exact ⟨List.mem_reverse.mp (List.mem_of_find?_eq_some h), hkey⟩

/-! ### What recording preserves -/

/-- Whether a table keeps what was recorded last: no key has two rows, and the row of a key is that of
the last record. -/
structure Keeps (calls : List ProcessedDocument) (rs : List ProcessedRow) : Prop where
  keys : (rs.map fun r => (r.vocabulary, r.document)).Nodup
  row : ∀ vocabulary document,
    find? rs vocabulary document = (last? calls vocabulary document).map ProcessedDocument.row

theorem keeps_nil : Keeps [] [] := ⟨List.nodup_nil, fun _ _ => rfl⟩

/-- One record more. -/
theorem Keeps.record (h : Keeps calls rs) (d : ProcessedDocument) :
    Keeps (calls ++ [d]) (insert rs d.row) where
  keys := by
    unfold insert erase
    rw [List.map_append, List.map_singleton, List.nodup_append]
    refine ⟨h.keys.sublist (List.filter_sublist.map _), List.nodup_singleton _, ?_⟩
    intro a ha b hb heq
    obtain ⟨r, hr, rfl⟩ := List.mem_map.mp ha
    rw [List.mem_singleton.mp hb, Prod.mk.injEq] at heq
    have hkept := (List.mem_filter.mp hr).2
    simp [heq.1, heq.2] at hkept
  row vocabulary document := by
    rw [find?_insert, last?_concat, h.row]
    show (if d.vocabulary = vocabulary ∧ d.document = document then _ else _) = _
    split_ifs <;> rfl

/-- A row is the one of its key, where no key has two. -/
theorem find?_of_mem (h : (rs.map fun r => (r.vocabulary, r.document)).Nodup) {r : ProcessedRow}
    (hr : r ∈ rs) : find? rs r.vocabulary r.document = some r := by
  rcases hfound : find? rs r.vocabulary r.document with _ | r'
  · have hnot := List.find?_eq_none.mp hfound r hr
    simp at hnot
  · obtain ⟨hr', hv, hd⟩ := find?_eq_some hfound
    rw [List.inj_on_of_nodup_map h hr' hr (Prod.ext hv hd)]

/-- Every row is that of a document which was recorded last for its key. -/
theorem Keeps.of_mem (h : Keeps calls rs) {r : ProcessedRow} (hr : r ∈ rs) :
    ∃ d, last? calls d.vocabulary d.document = some d ∧ d.row = r := by
  have hfound := find?_of_mem h.keys hr
  rw [h.row] at hfound
  obtain ⟨d, hd, hrow⟩ := Option.map_eq_some_iff.mp hfound
  obtain ⟨-, hv, hdoc⟩ := last?_eq_some hd
  refine ⟨d, ?_, hrow⟩
  rw [hv, hdoc, hd]

/-- There are as many rows as keys that were recorded. -/
theorem Keeps.length (h : Keeps calls rs) :
    rs.length = (calls.map ProcessedDocument.key).dedup.length := by
  have hmem (k : Text × Text) : k ∈ rs.map (fun r => (r.vocabulary, r.document)) ↔
      k ∈ (calls.map ProcessedDocument.key).dedup := by
    rw [List.mem_dedup]
    constructor
    · intro hk
      obtain ⟨r, hr, rfl⟩ := List.mem_map.mp hk
      obtain ⟨d, hd, rfl⟩ := h.of_mem hr
      exact List.mem_map_of_mem (last?_eq_some hd).1
    · intro hk
      obtain ⟨d, hd, rfl⟩ := List.mem_map.mp hk
      have hfound : (last? calls d.vocabulary d.document).isSome := by
        unfold last?
        exact List.find?_isSome.mpr ⟨d, List.mem_reverse.mpr hd, by simp⟩
      obtain ⟨d', hd'⟩ := Option.isSome_iff_exists.mp hfound
      obtain ⟨-, hv, hdoc⟩ := last?_eq_some hd'
      have hrow := h.row d.vocabulary d.document
      rw [hd'] at hrow
      exact List.mem_map.mpr ⟨d'.row, (find?_eq_some hrow).1, Prod.ext hv hdoc⟩
  have hperm := (List.perm_ext_iff_of_nodup h.keys (List.nodup_dedup _)).mpr hmem
  simpa using hperm.length_eq

/-! ### A new table -/

/-- Whether a table can be made at the place of a path, where nothing stands, nor beside it. -/
structure Vacant (fs : Files) (path : Path) (p : Place) : Prop where
  pathFits : Files.byteLength (fs.resolve path).toText ≤ maxTablePath
  nameFits : Files.byteLength (companionName p journalEnding) ≤ Files.maxName
  place : fs.place path = .ok p
  absent : fs.node? p = none
  journal : fs.node? (companion p journalEnding) = none
  ahead : fs.node? (companion p aheadEnding) = none

/-- A table is made where there is none, and has no rows. -/
theorem Vacant.ensure (h : Vacant fs path p) :
    let o := (ensure path).run fs
    o.result = .ok () ∧ Stands o.state path p [] := by
  have hroot : p ≠ [] := by
    rintro rfl
    have habsent := h.absent
    rw [Files.node?_root] at habsent
    cases habsent
  -- Opening the file makes it, and it is empty.
  generalize hmade : fs.setNode p (.file []) = made
  have hwithin : Files.Within {p} fs made := by
    rw [← hmade]
    refine .setNode ?_ (by simp)
    rw [h.absent]
    simp
  have hnode : made.node? p = some (.file []) := by
    rw [← hmade]
    exact Files.node?_setNode_self hroot _
  have hbeside {ending : Text} (hending : ending ≠ [])
      (hnone : fs.node? (companion p ending) = none) : made.node? (companion p ending) = none :=
    (hwithin.absent _ fun hin => companion_ne hroot hending (Set.mem_singleton_iff.mp hin)).mpr hnone
  have hjournal := hbeside (by decide) h.journal
  have hahead := hbeside (by decide) h.ahead
  have hplace : made.place path = .ok p := hwithin.place_iff.mpr h.place
  have hopen : (openFile path).run fs = ⟨.ok (p, .file []), made, []⟩ := by
    have hfits : ¬ maxTablePath < Files.byteLength (fs.resolve path).toText := Nat.not_lt.mpr h.pathFits
    unfold openFile
    rw [Action.run_state_bind, if_neg hfits, h.place]
    simp only [h.absent, Action.run_replace_bind, Action.run_pure, hmade]
  have hcompanion {ending : Text} (hnone : made.node? (companion p ending) = none) :
      companion? made p ending = none := by
    unfold companion?
    rw [hnone]
  have hsettle : (settle p (.file [])).run made = ⟨.ok (), made, []⟩ := by
    unfold settle discard
    simp only [isBlank, if_true, Action.run_state_bind, hcompanion hjournal, hcompanion hahead]
    rfl
  have hrows : (rows path).run fs = ⟨.error (.store .absentTable), made, []⟩ := by
    have hresult : ((openFile path).run fs).result = .ok (p, .file []) := by rw [hopen]
    have hsettled : ((settle p (.file [])).run made).result = .ok () := by rw [hsettle]
    unfold rows
    rw [Action.run_bind_ok hresult, hopen]
    dsimp only
    rw [Action.run_bind_ok hsettled, hsettle]
    rfl
  have hput := putRows_run hplace h.nameFits hjournal (hcompanion hahead) []
  have htable : made.node? p ≠ some .directory := by
    rw [hnode]
    simp
  have hstands := (stands_of_put (by rw [hwithin.resolve]; exact h.pathFits) h.nameFits hplace hroot
    htable hjournal hahead []).2
  unfold Processed.ensure
  rw [Action.run_attempt_bind (by rw [hrows]), hrows]
  dsimp only
  rw [hput]
  exact ⟨rfl, hstands⟩

/-! ### What is told -/

/-- What is told of documents that were recorded: no key twice, of each what was recorded last, and as
many as the limit allows, which is all of them when it is negative. -/
structure Recent (calls : List ProcessedDocument) (limit : Int) (entries : List ProcessedDocument) :
    Prop where
  keys : (entries.map ProcessedDocument.key).Nodup
  last : ∀ e ∈ entries, ∃ d, last? calls e.vocabulary e.document = some d ∧ e = d.told
  all : limit < 0 → ∀ vocabulary document d, last? calls vocabulary document = some d → d.told ∈ entries
  length : 0 ≤ limit →
    entries.length = min limit.toNat (calls.map ProcessedDocument.key).dedup.length

/-- Rows that are those of documents are the rows of a list of them. -/
theorem exists_rows {P : ProcessedDocument → Prop} {rows : List ProcessedRow}
    (h : ∀ r ∈ rows, ∃ d, P d ∧ d.row = r) :
    ∃ ds : List ProcessedDocument, ds.map ProcessedDocument.row = rows ∧ ∀ d ∈ ds, P d := by
  induction rows with
  | nil => exact ⟨[], rfl, List.forall_mem_nil _⟩
  | cons r rows ih =>
    obtain ⟨hr, hrest⟩ := List.forall_mem_cons.mp h
    obtain ⟨d, hd, rfl⟩ := hr
    obtain ⟨ds, rfl, hds⟩ := ih hrest
    exact ⟨d :: ds, rfl, List.forall_mem_cons.mpr ⟨hd, hds⟩⟩

/-- What is taken of the rows by their times are rows, each of them at most once, and all of them when the
limit is negative. -/
theorem newest_subperm (rs : List ProcessedRow) (limit : Int) : (newest rs limit).Subperm rs ∧
    (newest rs limit).length = if limit < 0 then rs.length else min limit.toNat rs.length := by
  have hperm := List.mergeSort_perm rs fun a b => b.classifiedAt.notAfter a.classifiedAt
  unfold newest
  dsimp only
  split_ifs
  · exact ⟨hperm.subperm, hperm.length_eq⟩
  · refine ⟨(List.take_sublist _ _).subperm.trans hperm.subperm, ?_⟩
    rw [List.length_take, hperm.length_eq]

/-- A table that keeps what was recorded last tells of the documents of the rows that are taken. -/
theorem Stands.recent_shown (h : Stands fs path p rs) (hkeeps : Keeps calls rs)
    (htimes : ∀ d ∈ calls, d.classifiedAt.Universal) {limit : Int} (hlimit : isBounded limit = true) :
    ∃ ds : List ProcessedDocument, ds.map ProcessedDocument.row = newest rs limit ∧
      (∀ d ∈ ds, last? calls d.vocabulary d.document = some d) ∧
      (ds.map ProcessedDocument.key).Nodup ∧
      ((recent path limit).run fs).result = .ok (ds.map ProcessedDocument.shown) := by
  obtain ⟨hsub, -⟩ := newest_subperm rs limit
  obtain ⟨ds, hds, hlast⟩ := exists_rows (P := fun d => last? calls d.vocabulary d.document = some d)
    fun r hr => hkeeps.of_mem (hsub.subset hr)
  refine ⟨ds, hds, hlast, ?_, ?_⟩
  · obtain ⟨rows, hperm, hsublist⟩ := hsub
    have hnodup := (hperm.map _).nodup_iff.mp (hkeeps.keys.sublist (hsublist.map _))
    rwa [← hds, List.map_map] at hnodup
  · -- Each row is read as what was recorded.
    have hread : (newest rs limit).mapM documentOf = .ok (ds.map ProcessedDocument.shown) := by
      rw [← hds, mapM_eq_ok_iff, List.forall₂_map_left_iff, List.forall₂_map_right_iff,
        List.forall₂_same]
      exact fun d hd => documentOf_row (htimes d (last?_eq_some (hlast d hd)).1)
    have hrows : ((rows path).run fs).result = .ok rs := by rw [h.rows_run]
    unfold recent
    rw [Action.run_bind_ok hrows, if_pos hlimit, hread]
    rfl

/-- What is told of a table that keeps what was recorded last. -/
theorem Stands.recent_run (h : Stands fs path p rs) (hkeeps : Keeps calls rs)
    (hcalls : ∀ d ∈ calls, d.Storable) {limit : Int} (hlimit : isBounded limit = true) :
    ∃ entries, ((recent path limit).run fs).result = .ok entries ∧ Recent calls limit entries := by
  obtain ⟨hsub, hlength⟩ := newest_subperm rs limit
  obtain ⟨ds, hds, hlast, hkeys, hresult⟩ :=
    h.recent_shown hkeeps (fun d hd => (hcalls d hd).time) hlimit
  have htold : ds.map ProcessedDocument.shown = ds.map ProcessedDocument.told :=
    List.map_congr_left fun d hd =>
      ProcessedDocument.shown_eq_told (hcalls d (last?_eq_some (hlast d hd)).1).labels
  refine ⟨ds.map ProcessedDocument.told, hresult.trans (congrArg Except.ok htold), ?_, ?_, ?_, ?_⟩
  · rwa [List.map_map]
  · intro e he
    obtain ⟨d, hd, rfl⟩ := List.mem_map.mp he
    exact ⟨d, hlast d hd, rfl⟩
  · intro hneg vocabulary document d hd
    rw [if_pos hneg] at hlength
    -- No row is left out.
    have hrow := hkeeps.row vocabulary document
    rw [hd] at hrow
    have hin : d.row ∈ newest rs limit :=
      (hsub.perm_of_length_le hlength.ge).mem_iff.mpr (find?_eq_some hrow).1
    rw [← hds] at hin
    obtain ⟨d', hd', hsame⟩ := List.mem_map.mp hin
    obtain ⟨-, hv, hdoc⟩ := last?_eq_some hd
    have hfound := hlast d' hd'
    rw [show d'.vocabulary = vocabulary from (congrArg ProcessedRow.vocabulary hsame).trans hv,
      show d'.document = document from (congrArg ProcessedRow.document hsame).trans hdoc, hd] at hfound
    rw [Option.some.inj hfound]
    exact List.mem_map_of_mem hd'
  · intro hpos
    rw [if_neg (by omega), hkeeps.length] at hlength
    rw [List.length_map, ← hlength, ← hds, List.length_map]

/-! ### Any records -/

/-- Documents of vocabularies that can be kept are recorded one after another, and the table keeps what was
recorded last. -/
theorem Stands.records (h : Stands fs path p rs) {before : List ProcessedDocument}
    (hkeeps : Keeps before rs) (calls : List ProcessedDocument)
    (hcalls : ∀ d ∈ calls, Utf8.Encodable d.vocabulary) :
    let o := (Action.each (recordOf path) calls).run fs
    (∃ done, o.result = .ok done) ∧ ∃ rs', Stands o.state path p rs' ∧ Keeps (before ++ calls) rs' := by
  induction calls generalizing fs rs before with
  | nil => exact ⟨⟨[], rfl⟩, rs, h, by rwa [List.append_nil]⟩
  | cons d calls ih =>
    obtain ⟨hd, hrest⟩ := List.forall_mem_cons.mp hcalls
    have hk : keyOf (.text d.vocabulary) = .ok (some d.vocabulary) := keyOf_text hd
    obtain ⟨hresult, -, hstands⟩ :=
      h.record_stands hk d.document d.fingerprint d.labels d.classifiedAt
    obtain ⟨⟨done, hdone⟩, rs', hstands', hkeeps'⟩ := ih hstands (hkeeps.record d) hrest
    obtain ⟨hall, hstate⟩ := Action.each_cons_ok (f := recordOf path) hresult hdone
    refine ⟨⟨_, hall⟩, rs', ?_, ?_⟩
    · rw [hstate]
      exact hstands'
    · rwa [List.append_assoc, List.singleton_append] at hkeeps'

/-- A new table is made, and keeps what was recorded last. -/
theorem Vacant.records (hnew : Vacant fs path p) (calls : List ProcessedDocument)
    (hcalls : ∀ d ∈ calls, Utf8.Encodable d.vocabulary) :
    let o := (Processed.ensure path >>= fun _ => Action.each (recordOf path) calls).run fs
    (∃ done, o.result = .ok done) ∧ ∃ rs, Stands o.state path p rs ∧ Keeps calls rs := by
  obtain ⟨hmade, hempty⟩ := hnew.ensure
  obtain ⟨hdone, rs, hstands, hkeeps⟩ := hempty.records keeps_nil calls hcalls
  rw [List.nil_append] at hkeeps
  rw [Action.run_bind_ok hmade]
  exact ⟨hdone, rs, hstands, hkeeps⟩

/-- A new table is a map in which the last record of a key counts. Whatever documents were recorded that
can be kept, the fingerprint of a key is that of its last record, a document is current exactly when it
has that fingerprint, and what is told are the last records, one for each key. If fingerprints are made of
documents and digests, and no hashes collide, a document is current exactly when its bytes and the digest
are those of the last record. -/
theorem last_record (hnew : Vacant fs path p) (calls : List ProcessedDocument)
    (hcalls : ∀ d ∈ calls, d.Storable) :
    let o := (ensure path >>= fun _ => Action.each (recordOf path) calls).run fs
    (∃ done, o.result = .ok done) ∧
      (∀ vocabulary document, Utf8.Encodable vocabulary → Utf8.Encodable document →
        ((fingerprintOf path (.text vocabulary) document).run o.state).result =
          .ok ((last? calls vocabulary document).map ProcessedDocument.fingerprint) ∧
        (∀ mark, ((isCurrent path (.text vocabulary) document mark).run o.state).result =
          .ok ((last? calls vocabulary document).map ProcessedDocument.fingerprint = some mark)) ∧
        ∀ (d : ProcessedDocument) (bytes bytes' : Bytes) (digest digest' : Text),
          last? calls vocabulary document = some d → d.fingerprint = fingerprint bytes digest →
          Utf8.Encodable digest → Utf8.Encodable digest' →
          CollisionFree [bytes, bytes', fingerprintSource bytes digest,
            fingerprintSource bytes' digest'] →
          ((isCurrent path (.text vocabulary) document (fingerprint bytes' digest')).run
            o.state).result = .ok (bytes = bytes' ∧ digest = digest')) ∧
      ∀ limit, isBounded limit = true →
        ∃ entries, ((recent path limit).run o.state).result = .ok entries ∧
          Recent calls limit entries := by
  intro o
  obtain ⟨hdone, rs, hstands, hkeeps⟩ := hnew.records calls fun d hd => (hcalls d hd).vocabulary
  refine ⟨hdone, fun vocabulary document hvocabulary _ => ?_,
    fun limit hlimit => hstands.recent_run hkeeps hcalls hlimit⟩
  have hk := keyOf_text hvocabulary
  have hfound : (find? rs vocabulary document).map ProcessedRow.fingerprint =
      (last? calls vocabulary document).map ProcessedDocument.fingerprint := by
    rw [hkeeps.row, Option.map_map]
    rfl
  have hcurrent (mark : Text) : ((isCurrent path (.text vocabulary) document mark).run
      o.state).result =
        .ok ((last? calls vocabulary document).map ProcessedDocument.fingerprint = some mark) := by
    rw [hstands.isCurrent_run hk, hfound]
  refine ⟨?_, hcurrent, fun d bytes bytes' digest digest' hd hmark hdigest hdigest' hfree => ?_⟩
  · rw [hstands.fingerprintOf_run hk, hfound]
  · rw [hcurrent, hd, Option.map_some, hmark]
    simp only [Option.some.injEq, fingerprint_eq_iff hdigest hdigest' hfree]

/-! A new table in an empty directory, to which two vocabularies of one document are recorded, one of
them twice. -/

/-- The path of a table. -/
def tablePath : Path := ⟨[], ["table"]⟩

/-- What is recorded of a document at the beginning of 1970. -/
def recorded (vocabulary fingerprint : Text) (labels : List Text) : ProcessedDocument :=
  ⟨vocabulary, "/poem", fingerprint, .ofEpoch 0, labels⟩

/-- A new table after some records. -/
def recording (calls : List ProcessedDocument) : Outcome Files (List Unit) :=
  (ensure tablePath >>= fun _ => Action.each (recordOf tablePath) calls).run (.bare [])

theorem vacant_bare : Vacant (.bare []) tablePath ["table"] where
  pathFits := Nat.le_of_ble_eq_true rfl
  nameFits := Nat.le_of_ble_eq_true rfl
  place := rfl
  absent := rfl
  journal := rfl
  ahead := rfl

theorem universal_epoch : (Instant.ofEpoch 0).Universal := ⟨by decide, by decide, by decide⟩

theorem storable_recorded (vocabulary fingerprint label : String) :
    (recorded vocabulary fingerprint [label]).Storable where
  vocabulary := Utf8.encodable_ofString vocabulary
  document := Utf8.encodable_ofString "/poem"
  fingerprint := Utf8.encodable_ofString fingerprint
  labels := List.forall_mem_singleton.mpr (Text.unpaired_of_encodable (Utf8.encodable_ofString label))
  time := universal_epoch

theorem last_record_poem : ((fingerprintOf tablePath (.text "topics") "/poem").run (recording
    [recorded "topics" "a" ["Sea"], recorded "shelves" "b" ["Song"],
      recorded "topics" "c" ["Nature"]]).state).result = .ok (some "c") := by
  refine ((last_record vacant_bare _ ?_).2.1 "topics" "/poem" (Utf8.encodable_ofString _)
    (Utf8.encodable_ofString _)).1
  simp only [List.forall_mem_cons]
  exact ⟨storable_recorded .., storable_recorded .., storable_recorded .., List.forall_mem_nil _⟩

/-- A table cannot be asked for rows with a limit that it cannot hold, nor keep a vocabulary whose name has
no bytes; and labels with paired surrogates are not told as they were recorded. -/
theorem not_last_record :
    (∀ entries, ((recent tablePath (-0x8000000000000001)).run
      (recording [recorded "topics" "a" []]).state).result ≠ .ok entries) ∧
    (∀ done, (recording [recorded [.ofNat 0xd800] "a" []]).result ≠ .ok done) ∧
    ∃ e, ((recent tablePath 1).run (recording
      [recorded "topics" "a" [[.ofNat 0xd83d, .ofNat 0xde00]]]).state).result.toOption = some [e] ∧
        e.labels ≠ [[.ofNat 0xd83d, .ofNat 0xde00]] := by
  refine ⟨fun entries h => ?_, fun done h => ?_, recorded "topics" "a" [[.ofNat 0x1f600]], ?_, ?_⟩
  · have hnone : ((recent tablePath (-0x8000000000000001)).run
        (recording [recorded "topics" "a" []]).state).result.toOption = none := by decide +kernel
    rw [h] at hnone
    cases hnone
  · have hnone : (recording [recorded [.ofNat 0xd800] "a" []]).result.toOption = none := by
      decide +kernel
    rw [h] at hnone
    cases hnone
  · -- The pair is read as one character.
    decide +kernel
  · decide

end Processed

end TitleClasses
