import Mathlib.Data.List.Forall2
import TitleClasses.Assignment.Policy
import TitleClasses.Proofs.Action
import TitleClasses.Proofs.Files.Reading
import TitleClasses.Proofs.Json.Characters
import TitleClasses.Proofs.Json.Display
import TitleClasses.Proofs.Text.Distinct
import TitleClasses.Vocabulary.Catalogue

/-!
# The digest tells the records

Whatever file a catalogue was loaded from, its records are well formed: all their texts are unpaired and
the names of their fields distinct. `reload_wellFormed` is the step for one loading. Of such records the
source of the digest tells everything but the order of their fields, in which no question about a record
can see a difference: so vocabularies with one source give the same rules and labels under every policy
(`pairs_of_digestSource`). And the order of fields is all that is lost: the source is the same whenever the
records are, in whatever order their fields were loaded (`Alike.digestSource_eq`).
-/

namespace TitleClasses

/-! ### Well-formed records -/

namespace Record

/-- Whether the texts of a record are unpaired and the names of its fields distinct. -/
structure WellFormed (r : Record) : Prop where
  id : r.id.Unpaired
  names : (r.fields.map Prod.fst).Nodup
  fields : ∀ f ∈ r.fields, f.1.Unpaired ∧ f.2.Unpaired

/-- The names of the fields are some of the keys, in their order. -/
theorem names_ofMembers (id : Text) (ms : Members) :
    ((ofMembers id ms).fields.map Prod.fst).Sublist (ms.map Prod.fst) := by
  unfold ofMembers
  dsimp only
  induction ms with
  | nil => exact List.Sublist.refl _
  | cons m ms ih =>
    obtain ⟨key, v⟩ := m
    cases v with
    | null => exact ih.cons _
    | _ => exact ih.cons_cons _

theorem wellFormed_ofMembers {id : Text} {ms : Members} (hid : id.Unpaired)
    (hms : (Json.object ms).WellFormed) : (ofMembers id ms).WellFormed := by
  obtain ⟨hkeys, hmembers⟩ := Json.wellFormed_object.mp hms
  refine ⟨hid, hkeys.sublist (names_ofMembers id ms), fun f hf => ?_⟩
  obtain ⟨⟨key, v⟩, hin, hv⟩ := List.mem_filterMap.mp hf
  obtain ⟨hkey, hwf⟩ := hmembers key v hin
  have hdisplay := Json.unpaired_display hwf
  cases v with
  | null => cases hv
  | _ =>
    obtain rfl := Option.some.inj hv
    exact ⟨hkey, hdisplay⟩

end Record

namespace Json

theorem wellFormed_get? {ms : Members} {key : Text} {v : Json} (hms : (object ms).WellFormed)
    (h : ms.get? key = some v) : v.WellFormed := by
  unfold Members.get? at h
  obtain ⟨l₁, l₂, rfl, -⟩ := List.lookup_eq_some_iff.mp h
  exact ((wellFormed_object.mp hms).2 key v (by simp)).2

theorem wellFormed_member {v default w : Json} {key : Text} (hv : v.WellFormed)
    (hdefault : default.WellFormed) (h : v.member key default = .ok w) : w.WellFormed := by
  unfold member membersFor at h
  cases v with
  | object ms =>
    obtain rfl := Except.ok.inj h
    show ((Members.get? ms key).getD default).WellFormed
    rcases hg : Members.get? ms key with _ | u
    · exact hdefault
    · exact wellFormed_get? hv hg
  | _ => cases h

theorem wellFormed_items {v : Json} {xs : List Json} (hv : v.WellFormed) (h : v.items = .ok xs) :
    ∀ x ∈ xs, x.WellFormed := by
  cases v with
  | list ys =>
    obtain rfl := Except.ok.inj h
    exact wellFormed_list.mp hv
  | text t =>
    obtain rfl := Except.ok.inj h
    intro x hx
    obtain ⟨c, -, rfl⟩ := List.mem_map.mp hx
    exact wellFormed_text.mpr (.singleton c)
  | object ms =>
    obtain rfl := Except.ok.inj h
    intro x hx
    obtain ⟨⟨key, w⟩, hm, rfl⟩ := List.mem_map.mp hx
    exact wellFormed_text.mpr ((wellFormed_object.mp hv).2 key w hm).1
  | _ => cases h

end Json

/-- What is read from a file is well formed. -/
theorem Files.readJson_wellFormed {fs : Files} {path : Path} {v : Json} (h : fs.readJson path = .ok v) :
    v.WellFormed := by
  obtain ⟨t, ht, hr⟩ := readJson_eq_ok h
  obtain ⟨bytes, u, -, hd, rfl⟩ := readText_eq_ok ht
  refine Json.wellFormed_of_read (fun c hc => ?_) hr
  rcases Text.mem_of_mem_unifyLineEnds hc with hin | rfl
  · exact Utf8.encodable_of_decode hd c hin
  · decide

/-! ### Loading -/

/-- A list is made from another one item by item, or there is no list. -/
theorem mapM_eq_ok_iff {α β : Type} {f : α → Except Fault β} {xs : List α} {ys : List β} :
    xs.mapM f = .ok ys ↔ List.Forall₂ (fun x y => f x = .ok y) xs ys := by
  induction xs generalizing ys with
  | nil =>
    rw [List.forall₂_nil_left_iff, List.mapM_nil]
    exact ⟨fun h => (Except.ok.inj h).symm, fun h => congrArg Except.ok h.symm⟩
  | cons x xs ih =>
    rw [List.forall₂_cons_left_iff, List.mapM_cons]
    rcases hx : f x with e | y
    · simp [bind, Except.bind]
    rcases hxs : xs.mapM f with e | zs
    · simp only [bind, Except.bind, reduceCtorEq, false_iff, not_exists, not_and]
      rintro y' zs' - hzs
      rw [← ih, hxs] at hzs
      cases hzs
    · simp only [bind, Except.bind, pure, Except.pure, Except.ok.injEq, ← ih, hxs]
      constructor
      · rintro rfl
        exact ⟨y, zs, rfl, rfl, rfl⟩
      · rintro ⟨y', zs', rfl, rfl, rfl⟩
        rfl

theorem exists_of_mem_mapM {α β : Type} {f : α → Except Fault β} {xs : List α} {ys : List β}
    (h : xs.mapM f = .ok ys) {y : β} (hy : y ∈ ys) : ∃ x ∈ xs, f x = .ok y := by
  have hall := mapM_eq_ok_iff.mp h
  obtain ⟨i, hi, rfl⟩ := List.getElem_of_mem hy
  have hi' : i < xs.length := hall.length_eq ▸ hi
  exact ⟨xs[i], List.getElem_mem hi', hall.get hi' hi⟩

theorem Vocabulary.recordOf_wellFormed {index : Nat} {entry : Json} {r : Record}
    (hentry : entry.WellFormed) (h : recordOf index entry = .ok r) : r.WellFormed := by
  unfold recordOf at h
  rcases hid : entry.member "id" (.int index) with e | id
  · simp [hid, bind, Except.bind] at h
  rcases hfields : entry.member "fields" .null with e | fields
  · simp [hid, hfields, bind, Except.bind] at h
  have hid' := Json.unpaired_display (Json.wellFormed_member hentry (by simp [Json.WellFormed]) hid)
  have hfields' := Json.wellFormed_member hentry (by simp [Json.WellFormed]) hfields
  simp only [hid, hfields, bind, Except.bind, pure, Except.pure] at h
  split at h
  · rcases hms : fields.membersFor "items" with e | ms
    · simp [hms] at h
    simp only [hms] at h
    obtain rfl := Except.ok.inj h
    cases fields with
    | object us =>
      obtain rfl := Except.ok.inj hms
      exact Record.wellFormed_ofMembers hid' hfields'
    | _ => cases hms
  · obtain rfl := Except.ok.inj h
    exact Record.wellFormed_ofMembers hid' (by simp)

/-- Whether all records of a catalogue are well formed. -/
def Catalogue.WellFormed (c : Catalogue) : Prop := ∀ entry ∈ c, ∀ r ∈ entry.2.records, r.WellFormed

theorem Catalogue.wellFormed_put {c : Catalogue} {key : Json} {v : Vocabulary} (hc : c.WellFormed)
    (hv : ∀ r ∈ v.records, r.WellFormed) : Catalogue.WellFormed (Keyed.put key v c) := by
  induction c with
  | nil => exact List.forall_mem_singleton.mpr hv
  | cons entry c ih =>
    obtain ⟨hentry, hrest⟩ := List.forall_mem_cons.mp hc
    rw [Keyed.put]
    split
    · exact List.forall_mem_cons.mpr ⟨hv, hrest⟩
    · exact List.forall_mem_cons.mpr ⟨hentry, ih hrest⟩

theorem Keyed.mem_of_get? {α : Type} {key : Json} {x : α} {xs : Keyed α} (h : get? key xs = some x) :
    ∃ k, (k, x) ∈ xs := by
  induction xs with
  | nil => cases h
  | cons entry rest ih =>
    obtain ⟨k, y⟩ := entry
    rw [get?] at h
    split at h
    · obtain rfl := Option.some.inj h
      exact ⟨k, List.mem_cons_self⟩
    · obtain ⟨k', hk'⟩ := ih h
      exact ⟨k', List.mem_cons_of_mem _ hk'⟩

namespace VocabularyFile

/-- Whether what was loaded from a file is well formed. -/
def WellFormed (f : VocabularyFile) : Prop := ∀ c, f.loaded = some c → c.WellFormed

/-- The records of a vocabulary that is found in what was loaded are well formed. -/
theorem WellFormed.records {f : VocabularyFile} (hf : f.WellFormed) {c : Catalogue}
    (hc : f.loaded = some c) {name : Json} {v : Vocabulary} (hv : c.find name = .ok v) :
    ∀ r ∈ v.records, r.WellFormed := by
  unfold Catalogue.find at hv
  rcases hkey : name.asKey with e | key
  · simp [hkey, bind, Except.bind] at hv
  rcases hget : Keyed.get? key c with _ | w
  · simp only [hkey, hget, bind, Except.bind] at hv
    split at hv <;> cases hv
  · simp only [hkey, hget, bind, Except.bind] at hv
    obtain rfl := Except.ok.inj hv
    obtain ⟨k, hk⟩ := Keyed.mem_of_get? hget
    exact hf c hc (k, w) hk

theorem readEntry_wellFormed {path : Path} {c c' : Catalogue} {entry : Json} {f : VocabularyFile}
    (hc : c.WellFormed) (hentry : entry.WellFormed)
    (h : ((readEntry path c entry).run f).result = .ok c') : c'.WellFormed := by
  unfold readEntry at h
  obtain ⟨name, -, h⟩ := Action.result_bind_eq_ok.mp h
  split at h
  · -- A vocabulary is put into the catalogue, with a record for each of its entries.
    obtain ⟨entries, hentries, h⟩ := Action.result_bind_eq_ok.mp h
    obtain ⟨records, hrecords, h⟩ := Action.result_bind_eq_ok.mp h
    obtain ⟨key, -, h⟩ := Action.result_bind_eq_ok.mp h
    obtain rfl := Except.ok.inj h
    rw [Action.run_ofExcept] at hentries hrecords
    refine Catalogue.wellFormed_put hc fun r hr => ?_
    obtain ⟨⟨e, i⟩, hin, hrecord⟩ := exists_of_mem_mapM hrecords hr
    rcases hm : entry.member "records" (.list []) with g | v
    · simp [hm, bind, Except.bind] at hentries
    simp only [hm, bind, Except.bind] at hentries
    have hv := Json.wellFormed_member hentry (by simp) hm
    have he := Json.wellFormed_items hv hentries e (List.fst_mem_of_mem_zipIdx hin)
    exact Vocabulary.recordOf_wellFormed he hrecord
  · obtain ⟨-, -, h⟩ := Action.result_bind_eq_ok.mp h
    obtain rfl := Except.ok.inj h
    exact hc

theorem readEntries_wellFormed {path : Path} {c c' : Catalogue} {entries : List Json}
    {f : VocabularyFile} (hc : c.WellFormed) (hentries : ∀ e ∈ entries, e.WellFormed)
    (h : ((readEntries path c entries).run f).result = .ok c') : c'.WellFormed := by
  induction entries generalizing c f with
  | nil =>
    obtain rfl := Except.ok.inj h
    exact hc
  | cons e entries ih =>
    obtain ⟨he, hes⟩ := List.forall_mem_cons.mp hentries
    obtain ⟨d, hd, h⟩ := Action.result_bind_eq_ok.mp h
    exact ih (readEntry_wellFormed hc he hd) hes h

theorem readEntry_state (path : Path) (c : Catalogue) (entry : Json) (f : VocabularyFile) :
    ((readEntry path c entry).run f).state = f := by
  have hstay {α β : Type} {x : Except Fault α} {b : α → Action VocabularyFile β}
      (hb : ∀ x, ((b x).run f).state = f) : ((Action.ofExcept x >>= b).run f).state = f := by
    cases x with
    | error e => rfl
    | ok x => exact hb x
  unfold readEntry
  refine hstay fun name => ?_
  split
  · exact hstay fun _ => hstay fun _ => hstay fun _ => rfl
  · rfl

theorem readEntries_state (path : Path) (c : Catalogue) (entries : List Json) (f : VocabularyFile) :
    ((readEntries path c entries).run f).state = f := by
  induction entries generalizing c with
  | nil => rfl
  | cons e entries ih =>
    rw [readEntries]
    refine Action.state_bind (· = f) (readEntry_state path c e f) fun d _ => ?_
    rw [readEntry_state]
    exact ih d

/-- Loading, whether it succeeds or not, leaves a file of well-formed records if it was one. -/
theorem reload_wellFormed {f : VocabularyFile} (hf : f.WellFormed) (fs : Files) :
    ((reload fs).run f).state.WellFormed := by
  unfold reload
  rw [Action.run_state_bind]
  have hstay {α : Type} (x : Except Fault α) : ((Action.ofExcept x).run f).state = f := by
    rw [Action.run_ofExcept]
  refine Action.state_bind WellFormed (by rwa [hstay]) fun b _ => ?_
  rw [hstay]
  cases b with
  | false => exact hf
  | true =>
    rw [if_pos rfl]
    refine Action.state_bind WellFormed (by rwa [hstay]) fun data hdata => ?_
    rw [hstay]
    refine Action.state_bind WellFormed (by rwa [hstay]) fun entries hentries => ?_
    rw [hstay]
    refine Action.state_bind WellFormed (by rwa [readEntries_state]) fun c hc => ?_
    rw [readEntries_state, Action.run_update_bind]
    -- What is loaded was read from a file.
    rw [Action.run_ofExcept] at hdata hentries
    have hwf : ∀ e ∈ entries, e.WellFormed := by
      rcases hm : data.member "vocabularies" (.list []) with g | v
      · simp [hm, bind, Except.bind] at hentries
      simp only [hm, bind, Except.bind] at hentries
      exact Json.wellFormed_items
        (Json.wellFormed_member (Files.readJson_wellFormed hdata) (by simp) hm) hentries
    intro d hd
    obtain rfl := Option.some.inj hd
    exact readEntries_wellFormed (by simp [Catalogue.WellFormed]) hwf hc

end VocabularyFile

/-! ### The digest -/

namespace Record

/-- What the source of a digest has for a record. -/
def source (r : Record) : Json :=
  .list [.text r.id, .object ((r.fields.mergeSort fun a b => Text.notAfter a.1 b.1).map fun f =>
    (f.1, .text f.2))]

theorem lookup_eq_some_iff_mem {fields : List (Text × Text)} (h : (fields.map Prod.fst).Nodup)
    {key t : Text} : fields.lookup key = some t ↔ (key, t) ∈ fields := by
  induction fields with
  | nil => simp
  | cons f fields ih =>
    obtain ⟨key', t'⟩ := f
    obtain ⟨hnot, hrest⟩ := List.nodup_cons.mp h
    by_cases hk : key = key'
    · subst hk
      have habsent : (key, t) ∉ fields := fun hin => hnot (List.mem_map.mpr ⟨_, hin, rfl⟩)
      simp [habsent, eq_comm]
    · have hb : (key == key') = false := by simpa using hk
      simp [List.lookup_cons, hb, hk, ih hrest]

/-- The order of its fields does not show in what a record answers. -/
theorem fieldValue_congr {r s : Record} (hr : r.WellFormed) (hid : r.id = s.id)
    (hfields : r.fields.Perm s.fields) (name : Json) : r.fieldValue name = s.fieldValue name := by
  -- Names are distinct, so that a lookup finds what is in the list, wherever it stands.
  have hlookup (key : Text) : r.fields.lookup key = s.fields.lookup key := by
    have hnames : (s.fields.map Prod.fst).Nodup := (hfields.map Prod.fst).nodup_iff.mp hr.names
    apply Option.ext
    intro t
    rw [lookup_eq_some_iff_mem hr.names, lookup_eq_some_iff_mem hnames, hfields.mem_iff]
  cases name with
  | text key =>
    simp only [fieldValue, hlookup, hid]
  | _ => simp only [fieldValue, hid]

/-- Records with the same source have the same fields, in some order. -/
theorem fields_perm_of_source {r s : Record} (h : r.source = s.source) :
    r.id = s.id ∧ r.fields.Perm s.fields := by
  unfold source at h
  simp only [Json.list.injEq, List.cons.injEq, Json.text.injEq, Json.object.injEq, and_true] at h
  obtain ⟨hid, hfields⟩ := h
  have hinj : Function.Injective fun f : Text × Text => (f.1, Json.text f.2) := by
    rintro ⟨k, t⟩ ⟨l, u⟩ heq
    simpa using heq
  -- The sorted fields are the same, and each record has them in some order.
  have hsorted := List.map_injective_iff.mpr hinj hfields
  have hr := List.mergeSort_perm r.fields fun a b => Text.notAfter a.1 b.1
  rw [hsorted] at hr
  exact ⟨hid, hr.symm.trans (List.mergeSort_perm s.fields _)⟩

/-- Records with the same fields, in whatever order, have the same source. -/
theorem source_congr {r s : Record} (hr : r.WellFormed) (hid : r.id = s.id)
    (hfields : r.fields.Perm s.fields) : r.source = s.source := by
  let le (a b : Text × Text) : Bool := Text.notAfter a.1 b.1
  have hsort (fields : List (Text × Text)) : (fields.mergeSort le).Pairwise fun a b => le a b = true :=
    @List.pairwise_mergeSort _ le (fun _ _ _ => Text.notAfter_trans)
      (fun a b => Text.notAfter_total a.1 b.1) fields
  have hsame : r.fields.mergeSort le = s.fields.mergeSort le := by
    refine List.Perm.eq_of_pairwise ?_ (hsort r.fields) (hsort s.fields)
      (((List.mergeSort_perm r.fields le).trans hfields).trans (List.mergeSort_perm s.fields le).symm)
    -- Fields with one name are one field.
    rintro ⟨name, t⟩ ⟨name', u⟩ ht hu hle hle'
    obtain rfl : name = name' := Text.eq_of_notAfter hle hle'
    have ht' := (List.mergeSort_perm r.fields le).mem_iff.mp ht
    have hu' := hfields.mem_iff.mpr ((List.mergeSort_perm s.fields le).mem_iff.mp hu)
    rw [← lookup_eq_some_iff_mem hr.names] at ht' hu'
    rw [Option.some.inj (ht'.symm.trans hu')]
  unfold source
  rw [hid, hsame]

/-- What stands for a well-formed record in the source of a digest can be read back. -/
theorem readable_source {r : Record} (h : r.WellFormed) :
    Json.Readable true r.source ∧ Json.nesting r.source ≤ 2 := by
  have hperm := List.mergeSort_perm r.fields fun a b => Text.notAfter a.1 b.1
  unfold source
  constructor
  · rw [Json.Readable, Json.readableItems_iff]
    intro x hx
    rcases List.mem_pair.mp hx with rfl | rfl
    · rw [Json.Readable]
      exact fun _ => h.id
    · rw [Json.Readable, Json.readableMembers_iff, List.map_map]
      refine ⟨(hperm.map Prod.fst).nodup_iff.mpr h.names, ?_⟩
      rintro m hm
      obtain ⟨f, hf, rfl⟩ := List.mem_map.mp hm
      obtain ⟨hname, hvalue⟩ := h.fields f (hperm.mem_iff.mp hf)
      rw [Json.Readable]
      exact ⟨fun _ => hname, fun _ => hvalue⟩
  · -- The list of a record has an object of texts in it.
    have hmembers : Json.nestingMembers ((r.fields.mergeSort fun a b =>
        Text.notAfter a.1 b.1).map fun f => (f.1, .text f.2)) ≤ 0 := by
      refine Json.nestingMembers_le fun m hm => ?_
      obtain ⟨f, -, rfl⟩ := List.mem_map.mp hm
      exact Nat.le_refl 0
    simp only [Json.nesting, Json.nestingItems]
    omega

end Record

namespace Vocabulary

/-- Whether two vocabularies have the same records, but for the order of their fields. -/
def Alike (v w : Vocabulary) : Prop :=
  List.Forall₂ (fun r s : Record => r.id = s.id ∧ r.fields.Perm s.fields) v.records w.records

/-- Vocabularies with the same records have digests of one source. -/
theorem Alike.digestSource_eq {v w : Vocabulary} (h : v.Alike w)
    (hv : ∀ r ∈ v.records, r.WellFormed) : v.digestSource = w.digestSource := by
  have hsources : v.records.map Record.source = w.records.map Record.source := by
    unfold Alike at h
    generalize v.records = rs at h hv
    generalize w.records = ss at h
    -- Record by record.
    induction h with
    | nil => rfl
    | cons hrs _ ih =>
      obtain ⟨hid, hfields⟩ := hrs
      obtain ⟨hr, hrest⟩ := List.forall_mem_cons.mp hv
      rw [List.map_cons, List.map_cons, Record.source_congr hr hid hfields, ih hrest]
  exact congrArg (fun sources => (Json.list sources).write .line) hsources

/-- What stands for well-formed records in the source of a digest can be read back. -/
theorem readable_sources {records : List Record} (h : ∀ r ∈ records, r.WellFormed) :
    Json.Readable true (.list (records.map Record.source)) ∧
      Json.nesting (.list (records.map Record.source)) ≤ Json.maxDepth := by
  constructor
  · rw [Json.Readable, Json.readableItems_iff]
    intro x hx
    obtain ⟨r, hr, rfl⟩ := List.mem_map.mp hx
    exact (Record.readable_source (h r hr)).1
  · have hitems : Json.nestingItems (records.map Record.source) ≤ 2 := by
      apply Json.nestingItems_le
      intro x hx
      obtain ⟨r, hr, rfl⟩ := List.mem_map.mp hx
      exact (Record.readable_source (h r hr)).2
    have hdepth : 2 + 1 ≤ Json.maxDepth := by decide
    rw [Json.nesting]
    omega

/-- The source of a digest is ASCII, so that it has bytes. -/
theorem encodable_digestSource {v : Vocabulary} (h : ∀ r ∈ v.records, r.WellFormed) :
    Utf8.Encodable v.digestSource :=
  @Json.write_encodable .line rfl _ (readable_sources h).1

/-- The source of the digest of well-formed records tells what stands for each of them. -/
theorem source_of_digestSource {v w : Vocabulary} (hv : ∀ r ∈ v.records, r.WellFormed)
    (hw : ∀ r ∈ w.records, r.WellFormed) (h : v.digestSource = w.digestSource) :
    v.records.map Record.source = w.records.map Record.source := by
  obtain ⟨hrv, hdv⟩ := readable_sources hv
  obtain ⟨hrw, hdw⟩ := readable_sources hw
  exact Json.list.inj (@Json.write_injective .line _ _ hrv hrw hdv hdw h)

/-- Vocabularies whose digests have one source give the same rules and labels under every policy. -/
theorem pairs_of_digestSource {v w : Vocabulary} (hv : ∀ r ∈ v.records, r.WellFormed)
    (hw : ∀ r ∈ w.records, r.WellFormed) (h : v.digestSource = w.digestSource) (p : Policy) :
    v.records.map p.pairOf = w.records.map p.pairOf := by
  have hsource := source_of_digestSource hv hw h
  -- Record by record.
  generalize w.records = ss at hsource
  generalize v.records = rs at hv hsource
  clear h hw
  induction rs generalizing ss with
  | nil => rw [List.map_eq_nil_iff.mp hsource.symm]
  | cons r rs ih =>
    obtain ⟨s, ss', rfl, hs, hss⟩ := List.map_eq_cons_iff.mp hsource.symm
    obtain ⟨hr, hrs⟩ := List.forall_mem_cons.mp hv
    obtain ⟨hid, hfields⟩ := Record.fields_perm_of_source hs.symm
    have hpair : p.pairOf r = p.pairOf s := by
      unfold Policy.pairOf
      rw [Record.fieldValue_congr hr hid hfields, Record.fieldValue_congr hr hid hfields]
    rw [List.map_cons, List.map_cons, hpair, ih ss' hrs hss.symm]

end Vocabulary

end TitleClasses
