import TitleClasses.Proofs.Assignment.Desk
import TitleClasses.Proofs.Fault
import TitleClasses.Proofs.Sorting

/-!
# Loading a vocabulary file

A vocabulary file has the right shape if all that it lists are objects, the names in it texts, and the
fields of its records objects (`Json.isVocabularyFile`). A file that is absent, or is no text, or no JSON,
or has the right shape is loaded or fails in a way that a step contains (`VocabularyFile.reload_cases`),
and so does the question for a vocabulary of it (`VocabularyFile.failsOnly_find`): the names that are
told in the fault can be sorted, since they are texts.
-/

namespace TitleClasses

namespace Json

/-! ### The shape of a vocabulary file -/

/-- Whether a value has items, and all of them have a property. -/
def allItems (p : Json → Bool) (v : Json) : Bool :=
  match v.items with
  | .ok xs => xs.all p
  | .error _ => false

/-- Whether a value has the shape of a record: an object, and so are its fields, if it has any. -/
def isRecordEntry : Json → Bool
  | .object ms =>
    let fields := (Members.get? ms "fields").getD .null
    !fields.holds || fields.kind = .object
  | _ => false

/-- Whether a value has the shape of a vocabulary: an object, and if it has a name, that is a text and the
records have the shape of records. -/
def isVocabularyEntry : Json → Bool
  | .object ms =>
    let name := (Members.get? ms "name").getD .null
    !name.holds ||
      (name.kind = .text && ((Members.get? ms "records").getD (.list [])).allItems isRecordEntry)
  | _ => false

/-- Whether a value has the shape of a vocabulary file: an object that lists vocabularies. -/
def isVocabularyFile : Json → Bool
  | .object ms => ((Members.get? ms "vocabularies").getD (.list [])).allItems isVocabularyEntry
  | _ => false

theorem items_of_allItems {p : Json → Bool} {v : Json} (h : v.allItems p = true) :
    ∃ xs, v.items = .ok xs ∧ ∀ x ∈ xs, p x = true := by
  unfold allItems at h
  split at h
  · rename_i xs hxs
    exact ⟨xs, hxs, List.all_eq_true.mp h⟩
  · cases h

theorem eq_text_of_kind {v : Json} (h : v.kind = .text) : ∃ t, v = .text t := by
  cases v with
  | text t => exact ⟨t, rfl⟩
  | _ => cases h

theorem eq_object_of_kind {v : Json} (h : v.kind = .object) : ∃ ms, v = .object ms := by
  cases v with
  | object ms => exact ⟨ms, rfl⟩
  | _ => cases h

/-! ### Names -/

theorem gives_sortValues {vs : List Json} (h : ∀ v ∈ vs, ∃ t, v = .text t) :
    Gives (sortValues vs) fun sorted => ∀ v ∈ sorted, ∃ t, v = .text t := by
  refine Sorting.gives_sort ?_ h
  rintro a b ⟨s, rfl⟩ ⟨t, rfl⟩
  exact ⟨_, rfl, trivial⟩

theorem gives_joinTexts {vs : List Json} (h : ∀ v ∈ vs, ∃ t, v = .text t) :
    Gives (joinTexts vs) fun _ => True := by
  unfold joinTexts
  refine Gives.bind (Gives.mapM (Q := fun _ => True) _ ?_) fun ts _ => gives_ok trivial
  rintro ⟨v, i⟩ hvi
  obtain ⟨t, rfl⟩ := h v (List.fst_mem_of_mem_zipIdx hvi)
  exact gives_ok trivial

end Json

/-! ### Catalogues -/

/-- Whether all names of a catalogue are texts. -/
def Catalogue.NamesAreTexts (c : Catalogue) : Prop := ∀ entry ∈ c, ∃ t, entry.1 = .text t

namespace Catalogue

theorem namesAreTexts_put {c : Catalogue} (h : c.NamesAreTexts) (t : Text) (v : Vocabulary) :
    NamesAreTexts (Keyed.put (.text t) v c) := by
  induction c with
  | nil => exact List.forall_mem_singleton.mpr ⟨t, rfl⟩
  | cons entry c ih =>
    obtain ⟨hentry, hrest⟩ := List.forall_mem_cons.mp h
    rw [Keyed.put]
    split
    · exact List.forall_mem_cons.mpr ⟨hentry, hrest⟩
    · exact List.forall_mem_cons.mpr ⟨hentry, ih hrest⟩

/-- A vocabulary that can be asked for is found, or its name is unknown. -/
theorem failsOnly_find {c : Catalogue} (hc : c.NamesAreTexts) {name : Json} (hname : name.IsKey) :
    FailsOnly [.key] (c.find name) := by
  unfold find
  rw [hname]
  dsimp only [bind, Except.bind]
  cases Keyed.get? name c with
  | some v => exact failsOnly_ok _ _
  | none =>
    -- The names that are told are texts, so they can be sorted and joined.
    have htexts : ∀ v ∈ c.map Prod.fst, ∃ t, v = .text t := by
      intro v hv
      obtain ⟨entry, hentry, rfl⟩ := List.mem_map.mp hv
      exact hc entry hentry
    have hnames : Gives c.keysText fun _ => True :=
      (Json.gives_sortValues htexts).bind fun sorted h => Json.gives_joinTexts h
    obtain ⟨available, havailable, -⟩ := hnames
    dsimp only
    rw [havailable]
    exact failsOnly_error (List.mem_singleton_self _)

end Catalogue

/-! ### Loading -/

theorem Vocabulary.gives_recordOf {entry : Json} (h : entry.isRecordEntry = true) (index : Nat) :
    Gives (recordOf index entry) fun _ => True := by
  cases entry with
  | object ms =>
    unfold recordOf
    rw [Json.member_object, Json.member_object]
    unfold Json.isRecordEntry at h
    show Gives (if ((Members.get? ms "fields").getD .null).holds then _ else _) _
    split
    · rename_i hholds
      simp only [hholds, Bool.not_true, Bool.false_or, decide_eq_true_eq] at h
      obtain ⟨fields, hfields⟩ := Json.eq_object_of_kind h
      rw [hfields]
      exact gives_ok trivial
    · exact gives_ok trivial
  | _ => cases h

namespace VocabularyFile

variable {fs : Files} {file : Path}

/-- The records of an entry of the right shape are made, one after another. -/
theorem gives_records {entries : List Json} (hall : ∀ e ∈ entries, e.isRecordEntry = true) :
    Gives (entries.zipIdx.mapM fun (e, i) => Vocabulary.recordOf i e)
      fun records => ∀ r ∈ records, True := by
  refine Gives.mapM _ ?_
  rintro ⟨e, i⟩ hei
  exact Vocabulary.gives_recordOf (hall e (List.fst_mem_of_mem_zipIdx hei)) i

/-- An entry of the right shape is read. -/
theorem readEntry_ok (path : Path) {c : Catalogue} (hc : c.NamesAreTexts) {entry : Json}
    (h : entry.isVocabularyEntry = true) (f : VocabularyFile) :
    Gives ((readEntry path c entry).run f).result Catalogue.NamesAreTexts := by
  cases entry with
  | object ms =>
    unfold readEntry
    rw [Json.member_object, Action.run_ofExcept_ok_bind]
    unfold Json.isVocabularyEntry at h
    split
    · rename_i hholds
      simp only [hholds, Bool.not_true, Bool.false_or, Bool.and_eq_true, decide_eq_true_eq] at h
      obtain ⟨t, ht⟩ := Json.eq_text_of_kind h.1
      obtain ⟨entries, hentries, hall⟩ := Json.items_of_allItems h.2
      obtain ⟨records, hrecords, -⟩ := gives_records hall
      rw [Json.member_object]
      show Gives ((Action.ofExcept (((Members.get? ms "records").getD (.list [])).items) >>= _).run
        f).result _
      rw [hentries, Action.run_ofExcept_ok_bind, hrecords, Action.run_ofExcept_ok_bind, ht]
      exact gives_ok (Catalogue.namesAreTexts_put hc t _)
    · rw [Action.run_note_bind]
      exact gives_ok hc
  | _ => cases h

theorem readEntries_ok (path : Path) {c : Catalogue} (hc : c.NamesAreTexts) {entries : List Json}
    (h : ∀ e ∈ entries, e.isVocabularyEntry = true) (f : VocabularyFile) :
    Gives ((readEntries path c entries).run f).result Catalogue.NamesAreTexts := by
  induction entries generalizing c with
  | nil => exact gives_ok hc
  | cons e entries ih =>
    obtain ⟨he, hes⟩ := List.forall_mem_cons.mp h
    obtain ⟨c', hc', hnames⟩ := readEntry_ok path hc he f
    rw [readEntries, Action.run_bind_ok hc', readEntry_state]
    exact ih hnames hes

/-- Whether the file at a path can be loaded as far as its value tells: it is not nested too deeply to be
read, and if it is read it has the right shape. -/
structure Loadable (fs : Files) (file : Path) : Prop where
  depth : fs.NotTooDeep file
  shape : ∀ data, fs.readJson file = .ok data → data.isVocabularyFile = true

/-- A file of the right shape is loaded, or it is absent or has no value, and what was loaded before
stays. -/
theorem reload_cases (h : Loadable fs file) (loaded : Option Catalogue) :
    let o := (reload fs).run ⟨file, loaded⟩
    (∃ f, o.result = .error f ∧ f.family ∈ [Family.os, .value] ∧ o.state = ⟨file, loaded⟩) ∨
      ∃ c, o.result = .ok () ∧ o.state = ⟨file, some c⟩ ∧ c.NamesAreTexts := by
  unfold reload
  rw [Action.run_state_bind]
  dsimp only
  rcases hexists : fs.exists? file with f | there
  · have hfamily := Files.failsOnly_exists fs file f hexists
    refine Or.inl ⟨f, rfl, ?_, rfl⟩
    exact List.mem_cons.mpr (Or.inl (List.mem_singleton.mp hfamily))
  rw [Action.run_ofExcept_ok_bind]
  cases there with
  | false => exact Or.inl ⟨_, rfl, List.mem_cons_self, rfl⟩
  | true =>
    rw [if_pos rfl]
    rcases hread : fs.readJson file with f | data
    · exact Or.inl ⟨f, rfl, Files.failsOnly_readJson h.depth f hread, rfl⟩
    have hshape := h.shape data hread
    rw [Action.run_ofExcept_ok_bind]
    cases data with
    | object ms =>
      obtain ⟨entries, hentries, hall⟩ := Json.items_of_allItems hshape
      obtain ⟨c, hc, hnames⟩ :=
        readEntries_ok file (List.forall_mem_nil _) hall ⟨file, loaded⟩
      have hmember : ((Json.object ms).member "vocabularies" (.list []) >>= Json.items) = .ok entries :=
        hentries
      rw [hmember, Action.run_ofExcept_ok_bind, Action.run_bind_ok hc, readEntries_state]
      exact Or.inr ⟨c, rfl, rfl, hnames⟩
    | _ => cases hshape

end VocabularyFile

end TitleClasses
