import TitleClasses.Processed.Table
import TitleClasses.Proofs.Action
import TitleClasses.Proofs.Files.Frame

/-!
# Where rows come from

Asking a table for a fingerprint may put the files beside it in order, but makes no rows
(`isCurrent_rows`); recording a document makes one row at most, the one for that document
(`record_rows`). So a document that is current has a row in a table with the fingerprint that was asked
for (`isCurrent_row`).

Where a table `Stands` with nothing beside it, both do what they are for: `isCurrent_run` is the answer,
and `record_run` the table that is left.
-/

namespace TitleClasses.Processed

variable {fs : Files}

/-! ### The files beside a table -/

theorem dropCompanion_rows (p : Place) (ending : Text) (fs : Files) :
    ((dropCompanion p ending).run fs).state.rows ⊆ fs.rows := Files.rows_dropNode fs _

/-- What is done with the second file, once the journal is out of the way. -/
theorem discardAhead_rows (p : Place) (fs s : Files) (h : s.rows ⊆ fs.rows) :
    ((match companion? fs p aheadEnding with
      | none => pure ()
      | some .directory => Action.fail (.store .diskFault)
      | some _ => dropCompanion p aheadEnding : Action Files Unit).run s).state.rows ⊆ fs.rows := by
  cases companion? fs p aheadEnding with
  | none => exact h
  | some n =>
    cases n with
    | directory => exact h
    | _ => exact List.Subset.trans (dropCompanion_rows p aheadEnding s) h

theorem discard_rows (p : Place) (fs : Files) : ((discard p).run fs).state.rows ⊆ fs.rows := by
  unfold discard
  rw [Action.run_state_bind]
  dsimp only
  split
  · exact discardAhead_rows p fs fs (List.Subset.refl _)
  · exact discardAhead_rows p fs fs (List.Subset.refl _)
  · exact discardAhead_rows p fs _ (dropCompanion_rows p journalEnding fs)

/-- What is made for the second file, once the journal is carried out or out of the way. -/
theorem recoverAhead_rows (p : Place) (fs s : Files) (h : s.rows ⊆ fs.rows) :
    ((match companion? fs p aheadEnding with
      | none => pure ()
      | some .directory => Action.fail (.store .cannotOpen)
      | some _ =>
        if fs.node? (companion p indexEnding) = some .directory then pure ()
        else Action.update fun fs => fs.setNode (companion p indexEnding) (.file []) :
        Action Files Unit).run s).state.rows ⊆ fs.rows := by
  have hindex : (s.setNode (companion p indexEnding) (.file [])).rows ⊆ s.rows :=
    Files.rows_setNode_file s _ _
  cases companion? fs p aheadEnding with
  | none => exact h
  | some n =>
    cases n with
    | directory => exact h
    | _ =>
      dsimp only
      split_ifs
      · exact h
      · exact List.Subset.trans hindex h

theorem recover_rows (p : Place) (fs : Files) : ((recover p).run fs).state.rows ⊆ fs.rows := by
  unfold recover
  rw [Action.run_state_bind]
  dsimp only
  split
  · exact recoverAhead_rows p fs fs (List.Subset.refl _)
  · exact List.Subset.refl _
  · split
    · exact recoverAhead_rows p fs fs (List.Subset.refl _)
    · exact recoverAhead_rows p fs _ (dropCompanion_rows p journalEnding fs)

theorem settle_rows (p : Place) (n : Node) (fs : Files) :
    ((settle p n).run fs).state.rows ⊆ fs.rows := by
  unfold settle
  split
  · exact discard_rows p fs
  · exact recover_rows p fs

theorem prepare_rows (p : Place) (fs : Files) : ((prepare p).run fs).state.rows ⊆ fs.rows := by
  unfold prepare
  rw [Action.run_state_bind]
  split
  · split
    · exact List.Subset.refl _
    · exact List.Subset.refl _
  · split
    · exact List.Subset.refl _
    · exact dropCompanion_rows p journalEnding fs

/-! ### The table -/

/-- Opening a table brings in no rows, and what is found stands in a file. -/
theorem openFile_rows (path : Path) (fs : Files) :
    ((openFile path).run fs).state.rows ⊆ fs.rows ∧
      ∀ p n, ((openFile path).run fs).result = .ok (p, n) → n.rows ⊆ fs.rows := by
  unfold openFile
  rw [Action.run_state_bind]
  split
  · exact ⟨List.Subset.refl _, fun p n h => by cases h⟩
  split
  · exact ⟨List.Subset.refl _, fun p n h => by cases h⟩
  next q hq =>
    split
    · exact ⟨List.Subset.refl _, fun p n h => by cases h⟩
    next m _ hm =>
      refine ⟨List.Subset.refl _, fun p n h => ?_⟩
      obtain ⟨rfl, rfl⟩ := Prod.mk.inj (Except.ok.inj h)
      cases m with
      | table rows => exact Files.mem_rows_of_node? hm
      | _ => exact List.nil_subset _
    · refine ⟨Files.rows_setNode_file fs q [], fun p n h => ?_⟩
      obtain ⟨rfl, rfl⟩ := Prod.mk.inj (Except.ok.inj h)
      exact List.nil_subset _

theorem rowsAhead?_rows {p : Place} {rows : List ProcessedRow} (h : rowsAhead? fs p = some rows) :
    rows ⊆ fs.rows := by
  unfold rowsAhead? companion? at h
  split at h
  next rows' hn =>
    obtain rfl := Option.some.inj h
    split at hn
    · cases hn
    · exact Files.mem_rows_of_node? hn
  · cases h

/-- Reading a table brings in no rows, and what is read are rows of some table. -/
theorem rows_rows (path : Path) (fs : Files) :
    ((rows path).run fs).state.rows ⊆ fs.rows ∧
      ∀ rs, ((rows path).run fs).result = .ok rs → rs ⊆ fs.rows := by
  obtain ⟨hopen, hnode⟩ := openFile_rows path fs
  unfold rows
  rcases ho : ((openFile path).run fs).result with f | ⟨p, n⟩
  · rw [Action.run_bind_error ho]
    exact ⟨hopen, fun rs h => by cases h⟩
  rw [Action.run_bind_ok ho]
  have hsettle := List.Subset.trans (settle_rows p n ((openFile path).run fs).state) hopen
  rcases hs : ((settle p n).run ((openFile path).run fs).state).result with f | u
  · dsimp only
    rw [Action.run_bind_error hs]
    exact ⟨hsettle, fun rs h => by cases h⟩
  dsimp only
  rw [Action.run_bind_ok hs]
  cases n with
  | table rows =>
    refine ⟨hsettle, fun rs h => ?_⟩
    obtain rfl := Except.ok.inj h
    rcases ha : rowsAhead? ((settle p (.table rows)).run ((openFile path).run fs).state).state p with
      _ | ahead
    · exact hnode p (.table rows) ho
    · exact List.Subset.trans (rowsAhead?_rows ha) hsettle
  | _ => exact ⟨hsettle, fun rs h => by cases h⟩

theorem find?_eq_some {rs : List ProcessedRow} {vocabulary document : Text} {row : ProcessedRow}
    (h : find? rs vocabulary document = some row) :
    row ∈ rs ∧ row.vocabulary = vocabulary ∧ row.document = document := by
  have hkey := List.find?_some h
  simp only [Bool.and_eq_true, decide_eq_true_eq] at hkey
  exact ⟨List.mem_of_find?_eq_some h, hkey⟩

/-- A document is current when the row that is found for it has its fingerprint. -/
theorem found_of_isCurrent {path : Path} {vocabulary : Json} {document mark : Text}
    (h : ((isCurrent path vocabulary document mark).run fs).result = .ok true) :
    ∃ k rs row, keyOf vocabulary = .ok (some k) ∧ ((rows path).run fs).result = .ok rs ∧
      find? rs k document = some row ∧ row.fingerprint = mark := by
  unfold isCurrent fingerprintOf at h
  obtain ⟨x, hx, h⟩ := Action.result_bind_eq_ok.mp h
  obtain ⟨rs, hrs, hx⟩ := Action.result_bind_eq_ok.mp hx
  obtain ⟨key, hkey, hx⟩ := Action.result_bind_eq_ok.mp hx
  rw [Action.run_ofExcept] at hkey
  have hmark : x = some mark := by simpa using Except.ok.inj h
  subst hmark
  obtain ⟨k, rfl, hfound⟩ := Option.bind_eq_some_iff.mp (Except.ok.inj hx)
  obtain ⟨row, hrow, rfl⟩ := Option.map_eq_some_iff.mp hfound
  exact ⟨k, rs, row, hkey, hrs, hrow, rfl⟩

/-- A document that is current has a row with its fingerprint. -/
theorem isCurrent_row {path : Path} {vocabulary : Json} {document mark : Text}
    (h : ((isCurrent path vocabulary document mark).run fs).result = .ok true) :
    ∃ k, keyOf vocabulary = .ok (some k) ∧ ∃ row ∈ fs.rows, row.vocabulary = k ∧
      row.document = document ∧ row.fingerprint = mark := by
  obtain ⟨k, rs, row, hkey, hrs, hrow, hmark⟩ := found_of_isCurrent h
  obtain ⟨hmem, hv, hd⟩ := find?_eq_some hrow
  exact ⟨k, hkey, row, (rows_rows path fs).2 rs hrs hmem, hv, hd, hmark⟩

/-- Asking whether a document is current brings in no rows. -/
theorem isCurrent_rows (path : Path) (vocabulary : Json) (document mark : Text) (fs : Files) :
    ((isCurrent path vocabulary document mark).run fs).state.rows ⊆ fs.rows := by
  unfold isCurrent fingerprintOf
  refine Action.state_bind (fun s : Files => s.rows ⊆ fs.rows) ?_ fun _ _ => ?_ <;>
  · refine Action.state_bind (fun s : Files => s.rows ⊆ fs.rows) (rows_rows path fs).1 fun rs _ => ?_
    refine Action.state_bind (fun s : Files => s.rows ⊆ fs.rows) ?_ fun _ _ => ?_ <;>
    · rw [Action.run_ofExcept]
      exact (rows_rows path fs).1

/-- Putting rows into a table brings in no others. -/
theorem putRows_rows {path : Path} {rs : List ProcessedRow} {row : ProcessedRow}
    (h : row ∈ ((putRows path rs).run fs).state.rows) : row ∈ fs.rows ∨ row ∈ rs := by
  unfold putRows at h
  rw [Action.run_state_bind] at h
  split at h
  · exact Or.inl h
  next p _ =>
    have hprepare := prepare_rows p fs
    rcases hp : ((prepare p).run fs).result with f | target
    · rw [Action.run_bind_error hp] at h
      exact Or.inl (hprepare h)
    rw [Action.run_bind_ok hp] at h
    rcases Files.rows_setNode _ _ _ row h with h | h
    · exact Or.inl (hprepare h)
    · exact Or.inr h

theorem mem_insert {rs : List ProcessedRow} {new row : ProcessedRow} (h : row ∈ insert rs new) :
    row ∈ rs ∨ row = new := by
  rcases List.mem_append.mp h with h | h
  · exact Or.inl (List.mem_filter.mp h).1
  · exact Or.inr (List.mem_singleton.mp h)

/-- Recording a document brings in no row but its own. -/
theorem record_rows {path : Path} {vocabulary : Json} {document mark : Text} {labels : List Text}
    {now : Instant} {row : ProcessedRow}
    (h : row ∈ ((record path vocabulary document mark labels now).run fs).state.rows) :
    row ∈ fs.rows ∨ ∃ k, keyOf vocabulary = .ok (some k) ∧ row = rowOf k document mark labels now := by
  obtain ⟨hstate, hread⟩ := rows_rows path fs
  unfold record at h
  rcases hrs : ((rows path).run fs).result with f | rs
  · rw [Action.run_bind_error hrs] at h
    exact Or.inl (hstate h)
  rw [Action.run_bind_ok hrs] at h
  rcases hkey : keyOf vocabulary with f | key
  · simp only [hkey, Action.run_ofExcept_error_bind] at h
    exact Or.inl (hstate h)
  simp only [hkey, Action.run_ofExcept_ok_bind] at h
  cases key with
  | none => exact Or.inl (hstate h)
  | some k =>
    have hput : row ∈ ((putRows path (insert rs (rowOf k document mark labels now))).run
        ((rows path).run fs).state).state.rows := by
      rcases hp : ((putRows path (insert rs (rowOf k document mark labels now))).run
          ((rows path).run fs).state).result with f | u
      · rwa [Action.run_bind_error hp] at h
      · rw [Action.run_bind_ok hp] at h
        exact h
    -- The rows that are put are those that were read, and the new one.
    rcases putRows_rows hput with hin | hin
    · exact Or.inl (hstate hin)
    · rcases mem_insert hin with hold | hnew
      · exact Or.inl (hread rs hrs hold)
      · exact Or.inr ⟨k, rfl, hnew⟩

/-! ### A table with nothing beside it -/

/-- Whether a table of rows stands at the place of a path, with nothing beside it, and can be opened and
changed. -/
structure Stands (fs : Files) (path : Path) (p : Place) (rs : List ProcessedRow) : Prop where
  pathFits : Files.byteLength (fs.resolve path).toText ≤ maxTablePath
  nameFits : Files.byteLength (companionName p journalEnding) ≤ Files.maxName
  place : fs.place path = .ok p
  table : fs.node? p = some (.table rs)
  journal : fs.node? (companion p journalEnding) = none
  ahead : fs.node? (companion p aheadEnding) = none

/-- Rows are put where a path leads, if there are no changes ahead and a journal can be made. The journal
of the change is gone when the change is done. -/
theorem putRows_run {path : Path} {p : Place} (hplace : fs.place path = .ok p)
    (hname : Files.byteLength (companionName p journalEnding) ≤ Files.maxName)
    (hjournal : fs.node? (companion p journalEnding) = none)
    (hahead : companion? fs p aheadEnding = none) (new : List ProcessedRow) :
    (putRows path new).run fs =
      ⟨.ok (), (fs.dropNode (companion p journalEnding)).setNode p (.table new), []⟩ := by
  have hfree : (Files.maxName < Files.byteLength (companionName p journalEnding)
      || fs.node? (companion p journalEnding) = some .directory) = false := by
    have hfits : ¬ Files.maxName < Files.byteLength (companionName p journalEnding) :=
      Nat.not_lt.mpr hname
    simp [hfits, hjournal]
  have hprepare : (prepare p).run fs = ⟨.ok p, fs.dropNode (companion p journalEnding), []⟩ := by
    unfold prepare
    simp only [Action.run_state_bind, hahead, hfree, Bool.false_eq_true, if_false]
    rfl
  have hprepared : ((prepare p).run fs).result = .ok p := by rw [hprepare]
  unfold putRows
  rw [Action.run_state_bind, hplace]
  dsimp only
  rw [Action.run_bind_ok hprepared, hprepare]
  rfl

namespace Stands

variable {path : Path} {p : Place} {rs : List ProcessedRow} (h : Stands fs path p rs)
include h

theorem companion?_journal : companion? fs p journalEnding = none := by
  unfold companion?
  rw [h.journal]

theorem companion?_ahead : companion? fs p aheadEnding = none := by
  unfold companion?
  rw [h.ahead]

theorem openFile_run : (openFile path).run fs = ⟨.ok (p, .table rs), fs, []⟩ := by
  have hfits : ¬ maxTablePath < Files.byteLength (fs.resolve path).toText := Nat.not_lt.mpr h.pathFits
  unfold openFile
  rw [Action.run_state_bind, if_neg hfits, h.place]
  simp only [h.table, Action.run_pure]

theorem settle_run : (settle p (.table rs)).run fs = ⟨.ok (), fs, []⟩ := by
  unfold settle recover
  simp only [isBlank, Bool.false_eq_true, if_false, Action.run_state_bind, h.companion?_journal,
    h.companion?_ahead, Action.run_pure]

theorem rows_run : (rows path).run fs = ⟨.ok rs, fs, []⟩ := by
  have hopen : ((openFile path).run fs).result = .ok (p, .table rs) := by rw [h.openFile_run]
  have hsettle : ((settle p (.table rs)).run fs).result = .ok () := by rw [h.settle_run]
  have hahead : rowsAhead? fs p = none := by
    unfold rowsAhead?
    rw [h.companion?_ahead]
  unfold rows
  rw [Action.run_bind_ok hopen, h.openFile_run]
  dsimp only
  rw [Action.run_bind_ok hsettle, h.settle_run]
  simp only [Action.run_state_bind, hahead, Option.getD_none, Action.run_pure, List.append_nil]

/-- The fingerprint of a document is that of the row of its key, if there is a key. -/
theorem fingerprintOf_answer (vocabulary : Json) (document : Text) :
    (fingerprintOf path vocabulary document).run fs = ⟨(keyOf vocabulary).map fun key =>
      key.bind fun k => (find? rs k document).map ProcessedRow.fingerprint, fs, []⟩ := by
  have hrows : ((rows path).run fs).result = .ok rs := by rw [h.rows_run]
  unfold fingerprintOf
  rw [Action.run_bind_ok hrows, h.rows_run]
  cases keyOf vocabulary <;> rfl

theorem fingerprintOf_run {vocabulary : Json} {k : Text} (hk : keyOf vocabulary = .ok (some k))
    (document : Text) : (fingerprintOf path vocabulary document).run fs =
      ⟨.ok ((find? rs k document).map ProcessedRow.fingerprint), fs, []⟩ := by
  rw [h.fingerprintOf_answer, hk]
  rfl

/-- A document is current when the row of its key has the fingerprint that is asked for. -/
theorem isCurrent_run {vocabulary : Json} {k : Text} (hk : keyOf vocabulary = .ok (some k))
    (document mark : Text) : (isCurrent path vocabulary document mark).run fs =
      ⟨.ok ((find? rs k document).map ProcessedRow.fingerprint = some mark), fs, []⟩ := by
  have hresult : ((fingerprintOf path vocabulary document).run fs).result =
      .ok ((find? rs k document).map ProcessedRow.fingerprint) := by rw [h.fingerprintOf_run hk]
  unfold isCurrent
  rw [Action.run_bind_ok hresult, h.fingerprintOf_run hk]
  rfl

/-- Recording a document makes its row one of the table. -/
theorem record_run {vocabulary : Json} {k : Text} (hk : keyOf vocabulary = .ok (some k))
    (document mark : Text) (labels : List Text) (now : Instant) : ∃ log,
      (record path vocabulary document mark labels now).run fs = ⟨.ok (), LogKeeper.keep log
        ((fs.dropNode (companion p journalEnding)).setNode p
          (.table (insert rs (rowOf k document mark labels now)))), log⟩ := by
  have hrows : ((rows path).run fs).result = .ok rs := by rw [h.rows_run]
  have hput (new : List ProcessedRow) := putRows_run h.place h.nameFits h.journal h.companion?_ahead new
  have hanswer (new : List ProcessedRow) : ((putRows path new).run fs).result = .ok () := by rw [hput]
  unfold record
  rw [Action.run_bind_ok hrows, h.rows_run, hk]
  dsimp only
  rw [Action.run_ofExcept_ok_bind, Action.run_bind_ok (hanswer _), hput]
  exact ⟨_, rfl⟩

end Stands

end TitleClasses.Processed
