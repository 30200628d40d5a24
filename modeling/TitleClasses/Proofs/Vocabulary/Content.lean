import TitleClasses.Proofs.Fault
import TitleClasses.Proofs.Json.Keys
import TitleClasses.Proofs.Vocabulary.Catalogue

/-!
# The content of a vocabulary file

`Content` says what a vocabulary file holds, without saying how it is loaded: the file is an object that
lists entries; an entry without a name counts for nothing; of the entries of one name the last one gives
the records, at the place of the first one; a record has the identifier that it is given or else its
place, and those of its fields that are not null. A file has one content at most (`Content.unique`), and
is loaded exactly when it has one, which then is what was loaded (`VocabularyFile.reload_content`). A file
without content is not loaded, whatever is wrong with it, and what was loaded before stays.
-/

namespace TitleClasses

/-! ### Records and entries -/

/-- The fields of a record as a file gives them: an object, or something that does not hold for none. -/
def Json.fields? (v : Json) : Option Members :=
  if v.holds then
    match v with
    | .object ms => some ms
    | _ => none
  else some []

/-- Whether a file gives a record at a place of a list: it has the identifier that it is given or else its
place, and of its fields those that are not null. -/
inductive Record.Given (index : Nat) : Json → Record → Prop
  | mk {ms fields : Members} (h : ((ms.get? "fields").getD .null).fields? = some fields) :
    Given index (.object ms) ⟨((ms.get? "id").getD (.int index)).display,
      (fields.filter fun f => f.2 ≠ .null).map fun f => (f.1, f.2.display)⟩

/-- Whether an entry of a file gives a vocabulary, under its name: none if it has no name. -/
inductive Vocabulary.Given : Json → Option (Json × Vocabulary) → Prop
  | nameless {ms : Members} (h : ((ms.get? "name").getD .null).holds = false) : Given (.object ms) none
  | named {ms : Members} {name : Json} {entries : List Json} {records : List Record}
    (hname : (ms.get? "name").getD .null = name) (hholds : name.holds = true) (hkey : name.IsKey)
    (hentries : ((ms.get? "records").getD (.list [])).items = .ok entries)
    (hrecords : List.Forall₂ (fun e r => Record.Given e.2 e.1 r) entries.zipIdx records) :
    Given (.object ms) (some (name, ⟨name, records⟩))

/-- Whether the value of a file gives a catalogue: of the vocabularies that its entries give under one
name the last one, at the place of the first. -/
inductive Catalogue.Given : Json → Catalogue → Prop
  | mk {ms : Members} {entries : List Json} {given : List (Option (Json × Vocabulary))} {c : Catalogue}
    (hentries : ((ms.get? "vocabularies").getD (.list [])).items = .ok entries)
    (hgiven : List.Forall₂ Vocabulary.Given entries given) (hlists : Keyed.Lists (given.filterMap id) c) :
    Given (.object ms) c

/-- Whether a catalogue is the content of the file at a path. -/
def Content (fs : Files) (path : Path) (c : Catalogue) : Prop :=
  ∃ data, fs.readJson path = .ok data ∧ Catalogue.Given data c

/-! ### Reading -/

theorem Json.eq_of_asKey {v key : Json} (h : v.asKey = .ok key) : key = v := by
  cases v with
  | list xs => cases h
  | object ms => cases h
  | _ => exact (Except.ok.inj h).symm

theorem Record.ofMembers_eq (id : Text) (ms : Members) : ofMembers id ms =
    ⟨id, (ms.filter fun f => f.2 ≠ .null).map fun f => (f.1, f.2.display)⟩ := by
  unfold ofMembers
  congr 1
  induction ms with
  | nil => rfl
  | cons m ms ih =>
    obtain ⟨key, v⟩ := m
    cases v <;> simp [ih]

theorem Vocabulary.recordOf_eq_ok_iff {index : Nat} {entry : Json} {r : Record} :
    recordOf index entry = .ok r ↔ Record.Given index entry r := by
  cases entry with
  | object ms =>
    -- The fields are found first, and then the record is made of them.
    have hrecord : recordOf index (.object ms) = .ok r ↔
        ∃ fields, ((Members.get? ms "fields").getD .null).fields? = some fields ∧
          r = .ofMembers ((Members.get? ms "id").getD (.int index)).display fields := by
      unfold recordOf Json.fields?
      rw [Json.member_object, Json.member_object]
      simp only [bind, Except.bind, pure, Except.pure]
      split
      · cases (Members.get? ms "fields").getD .null <;> simp [Json.membersFor, eq_comm]
      · simp [eq_comm]
    rw [hrecord]
    constructor
    · rintro ⟨fields, hfields, rfl⟩
      rw [Record.ofMembers_eq]
      exact .mk hfields
    · rintro ⟨hfields⟩
      exact ⟨_, hfields, (Record.ofMembers_eq _ _).symm⟩
  | _ => constructor <;> (intro h; cases h)

namespace VocabularyFile

/-- A catalogue with what an entry gives. -/
def taking (c : Catalogue) : Option (Json × Vocabulary) → Catalogue
  | none => c
  | some (name, v) => Keyed.put name v c

/-- An entry that gives something is added to the catalogue with it, and no other is. -/
theorem readEntry_eq_ok_iff (path : Path) (c c' : Catalogue) (entry : Json) (f : VocabularyFile) :
    ((readEntry path c entry).run f).result = .ok c' ↔
      ∃ given, Vocabulary.Given entry given ∧ c' = taking c given := by
  cases entry with
  | object ms =>
    unfold readEntry
    rw [Json.member_object, Action.run_ofExcept_ok_bind, Json.member_object]
    cases hholds : ((Members.get? ms "name").getD .null).holds with
    | false =>
      rw [if_neg Bool.false_ne_true, Action.run_note_bind]
      constructor
      · intro h
        exact ⟨none, .nameless hholds, (Except.ok.inj h).symm⟩
      · rintro ⟨given, hgiven, rfl⟩
        cases hgiven with
        | nameless _ => rfl
        | named hname hholds' => rw [hname, hholds'] at hholds; cases hholds
    | true =>
      rw [if_pos rfl]
      simp only [Action.result_bind_eq_ok, Action.run_ofExcept, mapM_eq_ok_iff,
        Vocabulary.recordOf_eq_ok_iff]
      constructor
      · rintro ⟨entries, hentries, records, hrecords, key, hkey, h⟩
        obtain rfl := Json.eq_of_asKey hkey
        exact ⟨_, .named rfl hholds hkey hentries hrecords, (Except.ok.inj h).symm⟩
      · rintro ⟨given, hgiven, rfl⟩
        cases hgiven with
        | nameless hnot => rw [hholds] at hnot; cases hnot
        | named hname _ hkey hentries hrecords =>
          rw [hname]
          exact ⟨_, hentries, _, hrecords, _, hkey, rfl⟩
  | _ =>
    refine ⟨(nomatch ·), ?_⟩
    rintro ⟨given, hgiven, -⟩
    cases hgiven

theorem readEntries_eq_ok_iff (path : Path) (c c' : Catalogue) (entries : List Json)
    (f : VocabularyFile) : ((readEntries path c entries).run f).result = .ok c' ↔
      ∃ given, List.Forall₂ Vocabulary.Given entries given ∧ c' = given.foldl taking c := by
  induction entries generalizing c with
  | nil =>
    simp [readEntries, eq_comm]
  | cons entry entries ih =>
    rw [readEntries, Action.result_bind_eq_ok]
    simp only [readEntry_eq_ok_iff, readEntry_state, ih, List.forall₂_cons_left_iff]
    constructor
    · rintro ⟨d, ⟨given, hgiven, rfl⟩, rest, hrest, rfl⟩
      exact ⟨given :: rest, ⟨given, rest, hgiven, hrest, rfl⟩, rfl⟩
    · rintro ⟨-, ⟨given, rest, hgiven, hrest, rfl⟩, rfl⟩
      exact ⟨_, ⟨given, hgiven, rfl⟩, rest, hrest, rfl⟩

theorem foldl_taking (given : List (Option (Json × Vocabulary))) (c : Catalogue) :
    given.foldl taking c = (given.filterMap id).foldl (fun xs e => Keyed.put e.1 e.2 xs) c := by
  induction given generalizing c with
  | nil => rfl
  | cons g given ih => cases g <;> exact ih _

/-- The entries of a file can be read exactly when its value gives a catalogue, which then is what was
read. -/
theorem readEntries_given (path : Path) (data : Json) (c : Catalogue) (f : VocabularyFile) :
    (∃ entries, (data.member "vocabularies" (.list []) >>= Json.items) = .ok entries ∧
      ((readEntries path [] entries).run f).result = .ok c) ↔ Catalogue.Given data c := by
  cases data with
  | object ms =>
    simp only [readEntries_eq_ok_iff, foldl_taking]
    constructor
    · rintro ⟨entries, hentries, given, hgiven, rfl⟩
      exact .mk hentries hgiven (Keyed.lists_foldl_put _)
    · rintro ⟨hentries, hgiven, hlists⟩
      exact ⟨_, hentries, _, hgiven, hlists.unique (Keyed.lists_foldl_put _)⟩
  | _ =>
    refine ⟨?_, (nomatch ·)⟩
    rintro ⟨entries, hentries, -⟩
    cases hentries

/-- A file is loaded exactly when it has a content, which then is what was loaded; when it has none,
loading fails and what was loaded before stays. -/
theorem reload_content (fs : Files) (path : Path) (loaded : Option Catalogue) :
    let o := (reload fs).run ⟨path, loaded⟩
    (∃ c, Content fs path c ∧ o.result = .ok () ∧ o.state = ⟨path, some c⟩) ∨
      (¬ ∃ c, Content fs path c) ∧ ∃ f, o.result = .error f ∧ o.state = ⟨path, loaded⟩ := by
  unfold reload Content
  rw [Action.run_state_bind]
  dsimp only
  rcases hread : fs.readJson path with f | data
  · -- Nothing is loaded from a file that cannot be read, be it there or not.
    refine .inr ⟨by simp, ?_⟩
    rcases fs.exists? path with g | _ | _
    · exact ⟨g, rfl, rfl⟩
    · exact ⟨_, rfl, rfl⟩
    · exact ⟨f, rfl, rfl⟩
  obtain ⟨bytes, hbytes⟩ := Files.readBytes_of_readJson hread
  rw [Files.exists?_of_readBytes hbytes, Action.run_ofExcept_ok_bind, if_pos rfl, Action.run_ofExcept_ok_bind]
  simp only [Except.ok.injEq, exists_eq_left', ← readEntries_given path data _ ⟨path, loaded⟩]
  rcases hentries : data.member "vocabularies" (.list []) >>= Json.items with f | entries
  · exact .inr ⟨by simp, f, rfl, rfl⟩
  rw [Action.run_ofExcept_ok_bind]
  rcases hc : ((readEntries path [] entries).run ⟨path, loaded⟩).result with f | c
  · -- Whichever entry it fails at, nothing has been loaded then.
    rw [Action.run_bind_error hc, readEntries_state]
    exact .inr ⟨by simp [hc], f, rfl, rfl⟩
  · rw [Action.run_bind_ok hc, readEntries_state]
    exact .inl ⟨c, ⟨entries, rfl, hc⟩, rfl, rfl⟩

end VocabularyFile

/-! A file with an entry that has no name, and two entries of one name. -/

example : ((VocabularyFile.reload ⟨[], [(["v"], .file (Utf8.bytesOf (Json.write .line (.object
    [("vocabularies", .list [
      .object [("records", .list [.object []])],
      .object [("name", .text "a"), ("records", .list [.object [("id", .int 5)]])],
      .object [("name", .text "b")],
      .object [("name", .text "a"), ("records", .list [.object [("fields",
        .object [("x", .null), ("y", .int 1)])]])]])]))))], 0, none⟩).run ⟨⟨[], ["v"]⟩, none⟩).state.loaded =
    some [(.text "a", ⟨.text "a", [⟨"0", [("y", "1")]⟩]⟩), (.text "b", ⟨.text "b", []⟩)] := by
  decide +kernel

/-- A file has one content at most. -/
theorem Content.unique {fs : Files} {path : Path} {c c' : Catalogue} (h : Content fs path c)
    (h' : Content fs path c') : c = c' := by
  obtain ⟨data, hdata, hc⟩ := h
  obtain ⟨data', hdata', hc'⟩ := h'
  obtain rfl := Except.ok.inj (hdata.symm.trans hdata')
  -- What is read of one value does not depend on the catalogue that it gives.
  obtain ⟨entries, hentries, hread⟩ :=
    (VocabularyFile.readEntries_given path data c ⟨path, none⟩).mpr hc
  obtain ⟨entries', hentries', hread'⟩ :=
    (VocabularyFile.readEntries_given path data c' ⟨path, none⟩).mpr hc'
  obtain rfl := Except.ok.inj (hentries.symm.trans hentries')
  exact Except.ok.inj (hread.symm.trans hread')

end TitleClasses
