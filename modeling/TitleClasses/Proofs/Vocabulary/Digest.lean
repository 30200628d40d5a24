import TitleClasses.Proofs.Assignment.Desk
import TitleClasses.Proofs.Assignment.Finding
import TitleClasses.Proofs.Digest.Fingerprint

/-!
# The digest is exact

Two vocabularies that were loaded from files have digests of one source exactly when they have the same
records, one by one: the same identifier, and the same value for every name of a field
(`Vocabulary.digestSource_eq_iff`). No policy tells such vocabularies apart, whatever the number of its
workers. `Vocabulary.digest_exact` puts this together, for the sources and, if the hash does not
collide, for the digests themselves.
-/

namespace TitleClasses

/-! ### Records that are the same -/

namespace Record

variable {r s : Record}

/-- Whether two records have one identifier, and their fields give every name the same value. -/
def Same (r s : Record) : Prop :=
  r.id = s.id ∧ ∀ name, r.fields.lookup name = s.fields.lookup name

/-- The fields of well-formed records that are the same differ in their order at most. -/
theorem same_iff_perm (hr : r.WellFormed) (hs : s.WellFormed) :
    r.Same s ↔ r.id = s.id ∧ r.fields.Perm s.fields := by
  refine and_congr_right fun _ => ?_
  have hmem (t : Record) (ht : t.WellFormed) (f : Text × Text) :
      f ∈ t.fields ↔ t.fields.lookup f.1 = some f.2 := (lookup_eq_some_iff_mem ht.names).symm
  rw [List.perm_ext_iff_of_nodup hr.names.of_map hs.names.of_map]
  constructor
  · intro h f
    rw [hmem r hr, hmem s hs, h]
  · intro h name
    apply Option.ext
    intro t
    have hf := h (name, t)
    rwa [hmem r hr, hmem s hs] at hf

end Record

/-! ### Workers -/

namespace Policy

open Engine

/-- What is found in records is the same for any number of workers. -/
theorem assignRecords_workers {p q : Policy} (hterms : p.termsField = q.termsField)
    (hclass : p.classField = q.classField) (hp : 0 < p.workers) (hq : 0 < q.workers) {e e' : Engine}
    (he : e.Sound) (he' : e'.Sound) (hr : e.refusal = e'.refusal) (records : List Record)
    (subject : Option Text) :
    ((p.assignRecords records subject).run e).result =
      ((q.assignRecords records subject).run e').result := by
  have hpairs : p.pairOrWarning = q.pairOrWarning := by
    funext r
    unfold pairOrWarning pairOf
    rw [hterms, hclass]
  -- The pairs are read by one and the same action, before any worker begins.
  have hread := (steady_each p.steady_pairOrWarning records).agrees he he' hr
  unfold assignRecords
  rw [← hpairs]
  rcases h : ((Action.each p.pairOrWarning records).run e).result with f | found
  · rw [Action.run_bind_error h, Action.run_bind_error (hread ▸ h)]
  · have h' := hread ▸ h
    rw [Action.run_bind_ok h, Action.run_bind_ok h', (each_pairOrWarning_ok p h).2,
      (each_pairOrWarning_ok p h').2]
    obtain ⟨hfound, -⟩ := finds_assign e'.refusal subject hp (found.filterMap id) e he hr
    obtain ⟨hfound', -⟩ := finds_assign e'.refusal subject hq (found.filterMap id) e' he' rfl
    exact hfound.trans hfound'.symm

end Policy

/-! ### The digest -/

namespace Vocabulary

variable {v w : Vocabulary}

/-- Whether a vocabulary is one of those that were loaded from some file. -/
def Loaded (v : Vocabulary) : Prop :=
  ∃ fs path c, ((VocabularyFile.reload fs).run ⟨path, none⟩).state.loaded = some c ∧
    ∃ name, (name, v) ∈ c

theorem Loaded.wellFormed (h : v.Loaded) : ∀ r ∈ v.records, r.WellFormed := by
  obtain ⟨fs, path, c, hc, name, hin⟩ := h
  have hnothing : VocabularyFile.WellFormed ⟨path, none⟩ := fun _ h => nomatch h
  exact VocabularyFile.reload_wellFormed hnothing fs c hc (name, v) hin

/-- Vocabularies are alike exactly when their records are the same, one by one. -/
theorem alike_iff (hv : ∀ r ∈ v.records, r.WellFormed) (hw : ∀ r ∈ w.records, r.WellFormed) :
    v.Alike w ↔ List.Forall₂ Record.Same v.records w.records := by
  unfold Alike
  rw [List.forall₂_iff_zip, List.forall₂_iff_zip]
  refine and_congr_right fun _ => forall₂_congr fun r s => forall_congr' fun hin => ?_
  obtain ⟨hr, hs⟩ := List.of_mem_zip hin
  exact (Record.same_iff_perm (hv r hr) (hw s hs)).symm

/-- The source of the digest tells of well-formed records all but the order of their fields, and no
more. -/
theorem digestSource_eq_iff (hv : ∀ r ∈ v.records, r.WellFormed) (hw : ∀ r ∈ w.records, r.WellFormed) :
    v.digestSource = w.digestSource ↔ List.Forall₂ Record.Same v.records w.records := by
  rw [← alike_iff hv hw]
  refine ⟨fun h => ?_, fun h => h.digestSource_eq hv⟩
  have hsources := source_of_digestSource hv hw h
  rw [← List.forall₂_eq_eq_eq, List.forall₂_map_left_iff, List.forall₂_map_right_iff] at hsources
  exact hsources.imp fun r s => Record.fields_perm_of_source

/-- No policy tells vocabularies with one source apart, whatever the engine and the number of workers. -/
theorem assignRecords_of_digestSource (hv : ∀ r ∈ v.records, r.WellFormed)
    (hw : ∀ r ∈ w.records, r.WellFormed) (h : v.digestSource = w.digestSource)
    (termsField classField : Json) (workers workers' : Int) {e e' : Engine} (he : e.Sound)
    (he' : e'.Sound) (hr : e.refusal = e'.refusal) (subject : Option Text) :
    (((Policy.new termsField classField workers).assignRecords v.records subject).run e).result =
      (((Policy.new termsField classField workers').assignRecords w.records subject).run e').result := by
  have hpos := Policy.new_workers_pos termsField classField
  rw [Policy.assignRecords_congr _ (pairs_of_digestSource hv hw h _)]
  exact Policy.assignRecords_workers (p := .new termsField classField workers)
    (q := .new termsField classField workers') rfl rfl (hpos workers) (hpos workers') he he' hr w.records
    subject

/-- The digest is exact: its source tells the records, and no more of them than any policy sees; and
unless the hash collides, so does the digest itself. -/
theorem digest_exact (hv : v.Loaded) (hw : w.Loaded) :
    (v.digestSource = w.digestSource ↔ List.Forall₂ Record.Same v.records w.records) ∧
      (v.digestSource = w.digestSource → ∀ (termsField classField : Json) (workers workers' : Int)
        (refusal : Option Text → Option CompileError) (calls calls' : List Engine.Call)
        (subject : Option Text),
        (((Policy.new termsField classField workers).assignRecords v.records subject).run
          (.after refusal calls)).result =
        (((Policy.new termsField classField workers').assignRecords w.records subject).run
          (.after refusal calls')).result) ∧
      (CollisionFree [Utf8.bytesOf v.digestSource, Utf8.bytesOf w.digestSource] →
        (v.digest = w.digest ↔ List.Forall₂ Record.Same v.records w.records)) := by
  have hiff := digestSource_eq_iff hv.wellFormed hw.wellFormed
  refine ⟨hiff, fun h termsField classField workers workers' refusal calls calls' subject => ?_,
    fun hfree => ?_⟩
  · obtain ⟨he, hr⟩ := Engine.after_sound refusal calls
    obtain ⟨he', hr'⟩ := Engine.after_sound refusal calls'
    exact assignRecords_of_digestSource hv.wellFormed hw.wellFormed h termsField classField workers
      workers' he he' (hr.trans hr'.symm) subject
  · rw [← hiff]
    refine ⟨fun h => ?_, fun h => ?_⟩
    · -- The hash tells the bytes, and the bytes tell the source.
      have hbytes := hfree _ List.mem_cons_self _ (List.mem_cons_of_mem _ (List.mem_singleton_self _)) h
      exact Utf8.bytesOf_injective (encodable_digestSource hv.wellFormed)
        (encodable_digestSource hw.wellFormed) hbytes
    · unfold digest
      rw [h]

/-! A vocabulary file with a single record, and the file with the fields of that record in another order.
-/

/-- A vocabulary file that lists one vocabulary of one record, with its fields in some order. -/
def fileOf (fields : Members) : Files :=
  ⟨[], [(["v"], .file (Utf8.bytesOf (Json.write .line (.object [("vocabularies", .list [.object
    [("name", .text "topics"), ("records", .list [.object [("id", .int 7),
      ("fields", .object fields)]])]])]))))], 0, none⟩

/-- The vocabulary with the terms of its record in front of the topic. -/
def termsFirst : Vocabulary := ⟨.text "topics", [⟨"7", [("terms", "sea"), ("topic", "Nature")]⟩]⟩

/-- The vocabulary with the topic of its record in front of the terms. -/
def topicFirst : Vocabulary := ⟨.text "topics", [⟨"7", [("topic", "Nature"), ("terms", "sea")]⟩]⟩

theorem loaded_termsFirst : termsFirst.Loaded := by
  refine ⟨fileOf [("terms", .text "sea"), ("topic", .text "Nature")], ⟨[], ["v"]⟩,
    [(.text "topics", termsFirst)], ?_, .text "topics", List.mem_singleton_self _⟩
  decide +kernel

theorem loaded_topicFirst : topicFirst.Loaded := by
  refine ⟨fileOf [("topic", .text "Nature"), ("terms", .text "sea")], ⟨[], ["v"]⟩,
    [(.text "topics", topicFirst)], ?_, .text "topics", List.mem_singleton_self _⟩
  decide +kernel

/-- To put the fields in another order is no edit. -/
theorem digestSource_reordered : termsFirst.Loaded ∧ topicFirst.Loaded ∧ termsFirst ≠ topicFirst ∧
    termsFirst.digestSource = topicFirst.digestSource := by
  refine ⟨loaded_termsFirst, loaded_topicFirst, by decide, ?_⟩
  refine (digest_exact loaded_termsFirst loaded_topicFirst).1.mpr (.cons ?_ .nil)
  refine (Record.same_iff_perm ?_ ?_).mpr ⟨rfl, .swap _ _ _⟩
  · exact loaded_termsFirst.wellFormed _ (List.mem_singleton_self _)
  · exact loaded_topicFirst.wellFormed _ (List.mem_singleton_self _)

end Vocabulary

end TitleClasses
