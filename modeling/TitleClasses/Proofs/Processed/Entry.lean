import TitleClasses.Proofs.Digest.Fingerprint
import TitleClasses.Proofs.Files.Footprint
import TitleClasses.Proofs.Files.Places
import TitleClasses.Proofs.Processed.Table

/-!
# The entries of a table

What a table keeps of a document is its entry (`Processed.entry?`), here without the time. A table that
stands with nothing beside it stands through changes elsewhere (`Stands.within`), with the entries it
had; recording a document touches nothing but the table, and changes the entry of that document alone
(`Stands.record_entry`). No temporary file takes the place of a file beside a table
(`Files.companion_not_mem`).
-/

namespace TitleClasses

namespace Files

variable {fs : Files} {path : Path}

/-- The name of a temporary file ends in a digit. -/
theorem getLast?_temporaryName (name : Text) (n : Nat) :
    ∃ m < 10, (temporaryName name n).getLast? = some (Text.digit m) := by
  have hpadded : Text.padded 10 5 n ≠ [] := by
    unfold Text.padded
    intro hnil
    obtain ⟨hzeros, hdigits⟩ := List.append_eq_nil_iff.mp hnil
    rw [hdigits] at hzeros
    cases hzeros
  have hlast : (temporaryName name n).getLast? = (Text.padded 10 5 n).getLast? := by
    unfold temporaryName Text.concat
    simp only [List.flatten_cons, List.flatten_nil, List.append_nil, List.getLast?_append]
    cases h : (Text.padded 10 5 n).getLast? with
    | none => exact absurd (List.getLast?_eq_none_iff.mp h) hpadded
    | some c => rfl
  rw [hlast, List.getLast?_eq_some_getLast hpadded]
  have hmem : (Text.padded 10 5 n).getLast hpadded ∈ Text.padded 10 5 n := List.getLast_mem hpadded
  obtain ⟨m, hm, hdigit⟩ := Text.mem_padded (by decide) hmem
  exact ⟨m, hm, congrArg some hdigit⟩

/-- A temporary file is not at the place of a file beside a table. -/
theorem companion_not_mem (hhome : fs.ProperHome) (hplain : path.Plain) (t : Place) {ending : Text}
    (hending : ending = Processed.journalEnding ∨ ending = Processed.aheadEnding) :
    Processed.companion t ending ∉ fs.temporaryPlaces path := by
  rintro ⟨n, hn, hplace⟩
  obtain ⟨-, hname⟩ := List.append_inj' (place_temporary hhome hplain hn hplace) rfl
  obtain ⟨m, hm, hlast⟩ := getLast?_temporaryName path.name n
  rw [← List.singleton_inj.mp hname] at hlast
  -- Both endings have the same last letter, which is no digit.
  have hletter : (Processed.companionName t ending).getLast? = some ('l' : CodePoint) := by
    unfold Processed.companionName
    rcases hending with rfl | rfl
    · rw [List.getLast?_append]
      rfl
    · rw [List.getLast?_append]
      rfl
  have hdigit : ∀ m < 10, ('l' : CodePoint) ≠ Text.digit m := by decide
  rw [hletter] at hlast
  exact hdigit m hm (Option.some.inj hlast)

end Files

namespace Processed

variable {touched : Set Place} {fs fs' : Files} {path : Path} {p : Place} {rs : List ProcessedRow}
  {vocabulary : Json} {k : Text}

/-- What the table keeps of a document for a vocabulary, but for the time: its fingerprint and its
labels. -/
def entry? (fs : Files) (path : Path) (vocabulary : Json) (document : Text) : Option (Text × Text) :=
  match ((rows path).run fs).result, keyOf vocabulary with
  | .ok rs, .ok (some k) => (find? rs k document).map fun row => (row.fingerprint, row.labels)
  | _, _ => none

/-- The key under which documents of a vocabulary are recorded, or why they cannot be. -/
def recordKey (vocabulary : Json) : Except Fault Text :=
  match keyOf vocabulary with
  | .error f => .error f
  | .ok none => .error (.store .nullVocabulary)
  | .ok (some k) => .ok k

theorem keyOf_of_recordKey (h : recordKey vocabulary = .ok k) : keyOf vocabulary = .ok (some k) := by
  unfold recordKey at h
  split at h
  · cases h
  · cases h
  next hk =>
    rw [hk]
    exact congrArg (fun k => Except.ok (some k)) (Except.ok.inj h)

/-! ### Rows -/

/-- A row that was put into a table is found under its key, and nothing changes for other keys. -/
theorem find?_insert (rs : List ProcessedRow) (row : ProcessedRow) (k document : Text) :
    find? (insert rs row) k document =
      if row.vocabulary = k ∧ row.document = document then some row else find? rs k document := by
  by_cases h : row.vocabulary = k ∧ row.document = document
  · obtain ⟨rfl, rfl⟩ := h
    -- What was there under the key is gone.
    have hgone : find? (erase rs row.vocabulary row.document) row.vocabulary row.document = none := by
      unfold find? erase
      refine List.find?_eq_none.mpr fun r hr => ?_
      have hkey := (List.mem_filter.mp hr).2
      rw [Bool.not_eq_true'] at hkey
      rw [hkey]
      exact Bool.false_ne_true
    unfold find? at hgone ⊢
    unfold insert
    rw [List.find?_append, hgone]
    simp
  · have hkept : find? (erase rs row.vocabulary row.document) k document = find? rs k document := by
      unfold find? erase
      rw [List.find?_filter]
      congr 1
      funext r
      by_cases hr : r.vocabulary = k ∧ r.document = document
      · obtain ⟨rfl, rfl⟩ := hr
        have hother : ¬ (r.vocabulary = row.vocabulary ∧ r.document = row.document) :=
          fun heq => h ⟨heq.1.symm, heq.2.symm⟩
        simpa [imp_iff_not_or] using hother
      · have hnot : (decide (r.vocabulary = k) && decide (r.document = document)) = false := by
          simpa using hr
        simp [hnot]
    rw [if_neg h, ← hkept]
    unfold find? insert
    rw [List.find?_append]
    simp [h]

/-- A row that was put into a table is found under its key. -/
theorem find?_insert_self (rs : List ProcessedRow) (row : ProcessedRow) :
    find? (insert rs row) row.vocabulary row.document = some row := by
  rw [find?_insert, if_pos ⟨rfl, rfl⟩]

/-- A row that was put into a table changes nothing for other documents. -/
theorem find?_insert_of_ne (rs : List ProcessedRow) {row : ProcessedRow} {document : Text}
    (h : document ≠ row.document) (k : Text) : find? (insert rs row) k document = find? rs k document := by
  rw [find?_insert, if_neg fun hkey => h hkey.2.symm]

/-! ### A table that stands -/

/-- The files beside a table have other names. -/
theorem companion_ne (hroot : p ≠ []) {ending : Text} (hending : ending ≠ []) :
    companion p ending ≠ p := by
  intro heq
  have hlast := congrArg List.getLast? heq
  obtain ⟨name, hname⟩ := Option.isSome_iff_exists.mp (List.getLast?_isSome.mpr hroot)
  unfold companion companionName at hlast
  rw [List.getLast?_concat, hname, Option.getD_some, Option.some.injEq] at hlast
  exact hending (List.append_right_eq_self.mp hlast)

/-- Where rows were put a table stands, and nothing else is touched. -/
theorem stands_of_put (hpath : Files.byteLength (fs.resolve path).toText ≤ maxTablePath)
    (hname : Files.byteLength (companionName p journalEnding) ≤ Files.maxName)
    (hplace : fs.place path = .ok p) (hroot : p ≠ []) (hfile : fs.node? p ≠ some .directory)
    (hjournal : fs.node? (companion p journalEnding) = none)
    (hahead : fs.node? (companion p aheadEnding) = none) (new : List ProcessedRow) :
    let fs' := (fs.dropNode (companion p journalEnding)).setNode p (.table new)
    Files.Within {p} fs fs' ∧ Stands fs' path p new := by
  -- Dropping the journal does nothing, since there is none.
  have hdropped : fs.node? (companion p journalEnding) ≠ some .directory := by
    rw [hjournal]
    exact fun heq => nomatch heq
  have hsame : (fs.dropNode (companion p journalEnding)).node? (companion p journalEnding) =
      fs.node? (companion p journalEnding) := by
    rw [hjournal]
    exact Files.node?_dropNode_self (by simp [companion])
  have hdrop : Files.Within ∅ fs (fs.dropNode (companion p journalEnding)) := by
    refine (Files.Within.dropNode hdropped).restrict fun q hq _ => ?_
    rw [Set.mem_singleton_iff.mp hq, hsame]
  have hset : Files.Within {p} (fs.dropNode (companion p journalEnding))
      ((fs.dropNode (companion p journalEnding)).setNode p (.table new)) :=
    .setNode (mt (hdrop.directory p).mp hfile) fun heq => nomatch heq
  have hall := (hdrop.mono (Set.empty_subset _)).trans hset
  have hbeside {ending : Text} (hending : ending ≠ []) : companion p ending ∉ ({p} : Set Place) :=
    fun hin => companion_ne hroot hending (Set.mem_singleton_iff.mp hin)
  exact ⟨hall, {
    pathFits := hpath
    nameFits := hname
    place := hall.place_iff.mpr hplace
    table := Files.node?_setNode_self hroot _
    journal := (hall.absent _ (hbeside (by decide))).mpr hjournal
    ahead := (hall.absent _ (hbeside (by decide))).mpr hahead }⟩

namespace Stands

variable (h : Stands fs path p rs)
include h

theorem entry?_eq (hk : keyOf vocabulary = .ok (some k)) (document : Text) :
    entry? fs path vocabulary document =
      (find? rs k document).map fun row => (row.fingerprint, row.labels) := by
  unfold entry?
  rw [h.rows_run, hk]

/-- Tables of the same rows have the same entries. -/
theorem entry?_congr (h' : Stands fs' path p rs) (vocabulary : Json) (document : Text) :
    entry? fs' path vocabulary document = entry? fs path vocabulary document := by
  unfold entry?
  rw [h.rows_run, h'.rows_run]

/-- Where a vocabulary is not refused, a document is current when its entry has the fingerprint that is
asked for. -/
theorem isCurrent_answer (vocabulary : Json) (document mark : Text) :
    let entry := entry? fs path vocabulary document
    (isCurrent path vocabulary document mark).run fs =
      ⟨(keyOf vocabulary).map fun _ => decide (entry.map Prod.fst = some mark), fs, []⟩ := by
  intro entry
  rcases hk : keyOf vocabulary with f | key
  · have hresult : ((fingerprintOf path vocabulary document).run fs).result = .error f := by
      rw [h.fingerprintOf_answer, hk]
      rfl
    unfold isCurrent
    rw [Action.run_bind_error hresult, h.fingerprintOf_answer]
    rfl
  · have hfound : key.bind (fun k => (find? rs k document).map ProcessedRow.fingerprint) =
        entry.map Prod.fst := by
      unfold entry entry?
      rw [h.rows_run, hk]
      cases key with
      | none => rfl
      | some k => simp [Function.comp_def]
    have hresult : ((fingerprintOf path vocabulary document).run fs).result =
        .ok (entry.map Prod.fst) := by
      rw [h.fingerprintOf_answer, hk, ← hfound]
      rfl
    unfold isCurrent
    rw [Action.run_bind_ok hresult, h.fingerprintOf_answer]
    rfl

/-- A table stands, with its rows, through changes that touch neither it nor the files beside it. -/
theorem within (hwithin : Files.Within touched fs fs') (hlog : fs.NoLogAt p) (htable : p ∉ touched)
    (hjournal : companion p journalEnding ∉ touched) (hahead : companion p aheadEnding ∉ touched) :
    Stands fs' path p rs where
  pathFits := by
    rw [hwithin.resolve]
    exact h.pathFits
  nameFits := h.nameFits
  place := hwithin.place_iff.mpr h.place
  table := (hwithin.same p htable hlog).trans h.table
  journal := (hwithin.absent _ hjournal).mpr h.journal
  ahead := (hwithin.absent _ hahead).mpr h.ahead

/-- Log records leave a table as it is. -/
theorem keep (log : Log) : Stands (LogKeeper.keep log fs) path p rs where
  pathFits := h.pathFits
  nameFits := h.nameFits
  place := (Files.Within.keep ∅ log fs).place_iff.mpr h.place
  table := Files.node?_keep_table log h.table
  journal := (Files.node?_keep_directory log _).1.mpr h.journal
  ahead := (Files.node?_keep_directory log _).1.mpr h.ahead

/-- No document is recorded under a vocabulary that has no key. -/
theorem record_refused {f : Fault} (hk : recordKey vocabulary = .error f) (document mark : Text)
    (labels : List Text) (now : Instant) :
    ((record path vocabulary document mark labels now).run fs).result = .error f := by
  have hrows : ((rows path).run fs).result = .ok rs := by rw [h.rows_run]
  unfold recordKey at hk
  unfold record
  rw [Action.run_bind_ok hrows, h.rows_run]
  split at hk
  next g hkey =>
    obtain rfl := Except.error.inj hk
    rw [hkey]
    rfl
  next hkey =>
    obtain rfl := Except.error.inj hk
    rw [hkey]
    rfl
  · cases hk

/-- Recording a document touches nothing but the table, which stands with the new row. -/
theorem record_stands (hk : keyOf vocabulary = .ok (some k))
    (document mark : Text) (labels : List Text) (now : Instant) :
    let o := (record path vocabulary document mark labels now).run fs
    o.result = .ok () ∧ Files.Grown {p} fs o.state ∧
      Stands o.state path p (insert rs (rowOf k document mark labels now)) := by
  obtain ⟨log, hrun⟩ := h.record_run hk document mark labels now
  generalize insert rs (rowOf k document mark labels now) = new at hrun ⊢
  have htable : fs.node? p ≠ some .directory := by
    rw [h.table]
    exact fun heq => nomatch heq
  have hroot : p ≠ [] := by
    rintro rfl
    exact htable (Files.node?_root fs)
  obtain ⟨hput, hstands⟩ := stands_of_put h.pathFits h.nameFits h.place hroot htable h.journal h.ahead new
  have hkept := hstands.keep log
  rw [hrun]
  refine ⟨rfl, .of_within (hput.trans (.keep _ log _)) fun q hq => ?_, hkept⟩
  rw [Set.mem_singleton_iff.mp hq, hkept.table]
  exact fun heq => nomatch heq

end Stands

end Processed

end TitleClasses
