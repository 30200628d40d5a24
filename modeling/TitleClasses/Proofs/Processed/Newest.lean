import TitleClasses.Proofs.Instant.Order
import TitleClasses.Proofs.Processed.LastRecord
import TitleClasses.Proofs.Text.Distinct

/-!
# The latest documents first

The rows that are taken of a table stand by decreasing text of their time, and no row that is left out has a
later text than one of them (`Processed.newest_ordered`). Texts of instants of universal time are ordered as
the instants, so what is told of the table are the documents that were recorded last, the latest first
(`Processed.recent_newest_first`).
-/

namespace TitleClasses

namespace ProcessedDocument

/-- Whether what is told of a document can be recorded: its texts have bytes, and its time is one of
universal time. -/
structure Recordable (d : ProcessedDocument) : Prop where
  vocabulary : Utf8.Encodable d.vocabulary
  document : Utf8.Encodable d.document
  fingerprint : Utf8.Encodable d.fingerprint
  time : d.classifiedAt.Universal

end ProcessedDocument

namespace Processed

variable {fs : Files} {path : Path} {p : Place} {rs : List ProcessedRow} {calls : List ProcessedDocument}

/-- The rows that are taken stand by decreasing text of their time, and those that are left out have no
later one. -/
theorem newest_ordered (rs : List ProcessedRow) {limit : Int} (h : 0 ≤ limit) :
    (newest rs limit).Pairwise (fun r s => ¬r.classifiedAt < s.classifiedAt) ∧
      ∀ s ∈ rs, s ∉ newest rs limit → ∀ r ∈ newest rs limit, ¬r.classifiedAt < s.classifiedAt := by
  let le (r s : ProcessedRow) : Bool := s.classifiedAt.notAfter r.classifiedAt
  have hnewest : newest rs limit = (rs.mergeSort le).take limit.toNat := by
    unfold newest
    exact if_neg (Int.not_lt.mpr h)
  have hsorted : (rs.mergeSort le).Pairwise fun r s => ¬r.classifiedAt < s.classifiedAt := by
    refine List.Pairwise.imp (fun hle => Text.notAfter_iff.mp hle) (List.pairwise_mergeSort ?_ ?_ rs)
    · exact fun _ _ _ hrs hst => Text.notAfter_trans hst hrs
    · exact fun r s => Text.notAfter_total s.classifiedAt r.classifiedAt
  rw [← List.take_append_drop limit.toNat (rs.mergeSort le), List.pairwise_append] at hsorted
  rw [hnewest]
  refine ⟨hsorted.1, fun s hs hout r hr => hsorted.2.2 r hr s ?_⟩
  have hin : s ∈ rs.mergeSort le := (List.mergeSort_perm rs le).mem_iff.mpr hs
  rw [← List.take_append_drop limit.toNat (rs.mergeSort le)] at hin
  exact (List.mem_append.mp hin).resolve_left hout

/-- What is told of documents when as many as the limit are asked for: of no key twice, of each the last
record with the time at which it was made, the latest first; and of what is left out nothing is later. -/
structure Newest (calls : List ProcessedDocument) (limit : Int) (entries : List ProcessedDocument) :
    Prop where
  keys : (entries.map ProcessedDocument.key).Nodup
  last : ∀ e ∈ entries, ∃ d, last? calls e.vocabulary e.document = some d ∧
    e.fingerprint = d.fingerprint ∧ e.classifiedAt = d.classifiedAt
  length : entries.length = min limit.toNat (calls.map ProcessedDocument.key).dedup.length
  ordered : entries.Pairwise fun e e' => e'.classifiedAt.elapsed ≤ e.classifiedAt.elapsed
  latest : ∀ vocabulary document d, last? calls vocabulary document = some d →
    (vocabulary, document) ∉ entries.map ProcessedDocument.key →
      ∀ e ∈ entries, d.classifiedAt.elapsed ≤ e.classifiedAt.elapsed

/-- Of instants of universal time the one whose text is not earlier is not earlier. -/
theorem elapsed_le {i j : Instant} (hi : i.Universal) (hj : j.Universal) (h : ¬i.text < j.text) :
    j.elapsed ≤ i.elapsed :=
  Nat.not_lt.mp fun hlt => h ((Instant.text_lt_iff hi hj).mpr hlt)

/-- What is told of a table that keeps what was recorded last. -/
theorem Stands.recent_newest (h : Stands fs path p rs) (hkeeps : Keeps calls rs)
    (htimes : ∀ d ∈ calls, d.classifiedAt.Universal) {limit : Int} (hlimit : isBounded limit = true)
    (hpos : 0 ≤ limit) :
    ∃ entries, ((recent path limit).run fs).result = .ok entries ∧ Newest calls limit entries := by
  obtain ⟨-, hlength⟩ := newest_subperm rs limit
  obtain ⟨hordered, hout⟩ := newest_ordered rs hpos
  obtain ⟨ds, hds, hlast, hkeys, hresult⟩ := h.recent_shown hkeeps htimes hlimit
  have htime : ∀ d ∈ ds, d.classifiedAt.Universal := fun d hd => htimes d (last?_eq_some (hlast d hd)).1
  refine ⟨ds.map ProcessedDocument.shown, hresult, ?_, ?_, ?_, ?_, ?_⟩
  · rwa [List.map_map]
  · intro e he
    obtain ⟨d, hd, rfl⟩ := List.mem_map.mp he
    exact ⟨d, hlast d hd, rfl, rfl⟩
  · rw [if_neg (by omega), hkeeps.length] at hlength
    rw [List.length_map, ← hlength, ← hds, List.length_map]
  · rw [← hds, List.pairwise_map] at hordered
    exact List.pairwise_map.mpr (hordered.imp_of_mem fun {d d'} hd hd' hnot =>
      elapsed_le (htime d hd) (htime d' hd') hnot)
  · intro vocabulary document d hd hmissing e he
    obtain ⟨d', hd', rfl⟩ := List.mem_map.mp he
    obtain ⟨hcall, hv, hdoc⟩ := last?_eq_some hd
    have hrow := hkeeps.row vocabulary document
    rw [hd] at hrow
    -- The row of a key that is not told of was not taken.
    have hnot : d.row ∉ newest rs limit := fun hin => by
      rw [← hds] at hin
      obtain ⟨d'', hd'', hsame⟩ := List.mem_map.mp hin
      refine hmissing (List.mem_map.mpr ⟨d''.shown, List.mem_map_of_mem hd'', Prod.ext ?_ ?_⟩)
      · exact (congrArg ProcessedRow.vocabulary hsame).trans hv
      · exact (congrArg ProcessedRow.document hsame).trans hdoc
    exact elapsed_le (htime d' hd') (htimes d hcall)
      (hout d.row (find?_eq_some hrow).1 hnot d'.row (hds ▸ List.mem_map_of_mem hd'))

/-- Documents are recorded in a new table at any instants of universal time, in any order. Whatever number of
them is asked for that the table can hold, what is told are the documents that were recorded last, each with
the instant of its last record, the latest first; and none of those that are left out was recorded later than
one of them. For the texts by which the table is ordered are ordered as the instants. -/
theorem recent_newest_first (hnew : Vacant fs path p) (calls : List ProcessedDocument)
    (hcalls : ∀ d ∈ calls, d.Recordable) :
    let o := (ensure path >>= fun _ => Action.each (recordOf path) calls).run fs
    (∃ done, o.result = .ok done) ∧
      (∀ limit, 0 ≤ limit → isBounded limit = true →
        ∃ entries, ((recent path limit).run o.state).result = .ok entries ∧ Newest calls limit entries) ∧
      ∀ i j : Instant, i.Universal → j.Universal → (i.text < j.text ↔ i.elapsed < j.elapsed) := by
  obtain ⟨hdone, rs, hstands, hkeeps⟩ := hnew.records calls fun d hd => (hcalls d hd).vocabulary
  exact ⟨hdone, fun limit hpos hlimit =>
    hstands.recent_newest hkeeps (fun d hd => (hcalls d hd).time) hlimit hpos,
    fun i j hi hj => Instant.text_lt_iff hi hj⟩

/-- What is recorded of the poem a microsecond after the beginning of 1970. -/
def recordedLater : ProcessedDocument := ⟨"shelves", "/poem", "b", .ofEpoch 1, ["Song"]⟩

/-- A microsecond after the beginning of 1970 is later than the beginning, whose text has no fraction. -/
theorem recent_newest_first_poem : ∃ entries,
    ((recent tablePath 1).run (recording [recorded "topics" "a" ["Sea"], recordedLater]).state).result =
      .ok entries ∧ entries.map ProcessedDocument.key = [recordedLater.key] := by
  have hfirst : (recorded "topics" "a" ["Sea"]).Recordable :=
    ⟨Utf8.encodable_ofString "topics", Utf8.encodable_ofString "/poem", Utf8.encodable_ofString "a",
      universal_epoch⟩
  have hlater : recordedLater.Recordable :=
    ⟨Utf8.encodable_ofString "shelves", Utf8.encodable_ofString "/poem", Utf8.encodable_ofString "b",
      ⟨by decide, by decide, by decide⟩⟩
  obtain ⟨-, hrecent, -⟩ := recent_newest_first vacant_bare [recorded "topics" "a" ["Sea"], recordedLater]
    (by simpa only [List.forall_mem_cons] using ⟨hfirst, hlater, List.forall_mem_nil _⟩)
  obtain ⟨entries, hentries, hnewest⟩ := hrecent 1 (by decide) (by decide)
  refine ⟨entries, hentries, ?_⟩
  obtain ⟨e, rfl⟩ := List.length_eq_one_iff.mp hnewest.length
  obtain ⟨d, hd, -, htime⟩ := hnewest.last e List.mem_cons_self
  obtain ⟨hcall, hv, hdoc⟩ := last?_eq_some hd
  simp only [List.mem_cons, List.not_mem_nil, or_false] at hcall
  rcases hcall with rfl | rfl
  · -- Of the beginning nothing is told, since there is something later.
    have hkey : e.key = (recorded "topics" "a" ["Sea"]).key := Prod.ext_iff.mpr ⟨hv.symm, hdoc.symm⟩
    have hout : recordedLater.key ∉ [e].map ProcessedDocument.key := by
      rw [List.map_singleton, hkey]
      decide
    have hle := hnewest.latest _ _ recordedLater rfl hout e List.mem_cons_self
    rw [htime] at hle
    exact absurd hle (by decide)
  · have hkey : e.key = recordedLater.key := Prod.ext_iff.mpr ⟨hv.symm, hdoc.symm⟩
    rw [List.map_singleton, hkey]

/-- A table cannot be asked for more documents than it can hold: with that limit nothing is listed, and with
the largest one that it can hold the document is. Nor can it keep a vocabulary whose name has no bytes. -/
theorem not_recent_newest_first :
    let fs := (recording [recorded "topics" "a" []]).state
    ((recent tablePath 0x8000000000000000).run fs).result.toOption = none ∧
      ((recent tablePath 0x7fffffffffffffff).run fs).result.toOption = some [recorded "topics" "a" []] ∧
      (recording [recorded [.ofNat 0xd800] "a" []]).result.toOption = none := by
  refine ⟨?_, ?_, ?_⟩
  · decide +kernel
  · decide +kernel
  · decide +kernel

end Processed

end TitleClasses
