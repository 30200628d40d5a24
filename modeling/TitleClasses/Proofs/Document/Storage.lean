import Mathlib.Tactic.SplitIfs
import TitleClasses.Document.Storage
import TitleClasses.Proofs.Action
import TitleClasses.Proofs.Files.Footprint
import TitleClasses.Proofs.Files.Places
import TitleClasses.Proofs.Text.Utf8

/-!
# Writing a document

`write_run` tells all that writing a document can do, and the other theorems are read off it: `write_ok`
is what holds after a document was written, `write_rows` that no rows of tables come from it, and
`write_of_bytes` that a document that stands at its path can only be written or left as it is.
-/

namespace TitleClasses

open Utf8 (Bytes)

namespace Files

variable {fs fs' : Files}

theorem writeBytes_ok {path : Path} {bytes : Bytes} (h : fs.writeBytes path bytes = .ok fs') :
    ∃ q, fs.place path = .ok q ∧ fs.node? q ≠ some .directory ∧ fs' = fs.setNode q (.file bytes) := by
  unfold writeBytes at h
  cases hp : fs.place path with
  | error r => simp [hp] at h
  | ok q =>
    by_cases hd : fs.node? q = some .directory
    · simp [hp, hd] at h
    · refine ⟨q, rfl, hd, ?_⟩
      simp only [hp] at h
      exact (Except.ok.inj h).symm

theorem writeBytes_of_place {path : Path} {q : Place} (bytes : Bytes) (hp : fs.place path = .ok q)
    (hd : fs.node? q ≠ some .directory) :
    fs.writeBytes path bytes = .ok (fs.setNode q (.file bytes)) := by
  unfold writeBytes
  simp only [hp]

/-- What is written to a file is no rows. -/
theorem writeBytes_rows {path : Path} {bytes : Bytes} (h : fs.writeBytes path bytes = .ok fs') :
    fs'.rows ⊆ fs.rows := by
  obtain ⟨q, -, -, rfl⟩ := writeBytes_ok h
  exact rows_setNode_file fs q bytes

/-- The place that was found for a temporary file is found again when it is free again and no other was
taken away. -/
theorem freeTemporary_of_stay {path t : Path} {q : Place} {tries n : Nat} (hstay : Stay fs fs')
    (htaken : ∀ p, fs.node? p ≠ none → fs'.node? p ≠ none) (hfree : fs'.node? q = none)
    (h : fs.freeTemporary path tries n = .ok (t, q)) :
    fs'.freeTemporary path tries n = .ok (t, q) := by
  have hpath (n : Nat) : fs'.temporaryPath path n = fs.temporaryPath path n := by
    unfold temporaryPath absolute
    rw [hstay.1]
  induction tries generalizing n with
  | zero => cases h
  | succ tries ih =>
    rw [freeTemporary] at h ⊢
    rw [hpath]
    cases hp : fs.place (fs.temporaryPath path n) with
    | error r => simp [hp] at h
    | ok q' =>
      simp only [place_of_stay hstay hp]
      cases hn : fs.node? q' with
      | some _ =>
        -- A place that was taken is still taken, and the search goes on as it did.
        obtain ⟨m, hm⟩ := Option.ne_none_iff_exists'.mp (htaken q' (by rw [hn]; simp))
        simp only [hp, hn] at h
        simp only [hm]
        exact ih h
      | none =>
        simp only [hp, hn, Except.ok.injEq, Prod.mk.injEq] at h
        obtain ⟨rfl, rfl⟩ := h
        simp only [hfree]

theorem createTemporary_ok {path t : Path} (h : fs.createTemporary path = .ok (t, fs')) :
    ∃ q, fs.freeTemporary path temporaryTries 0 = .ok (t, q) ∧
      fs' = { fs.setNode q (.file []) with temporaries := fs.temporaries + 1 } := by
  unfold createTemporary at h
  cases hf : fs.freeTemporary path temporaryTries 0 with
  | error f => simp [hf] at h
  | ok found =>
    obtain ⟨t', q⟩ := found
    simp only [hf, Except.ok.injEq, Prod.mk.injEq] at h
    obtain ⟨rfl, rfl⟩ := h
    exact ⟨q, rfl, rfl⟩

theorem removeFile_rows (fs : Files) (path : Path) : (fs.removeFile path).rows ⊆ fs.rows := by
  unfold removeFile
  split
  · exact List.Subset.refl _
  · exact rows_dropNode fs _

theorem moveOver_ok {source target : Path} (h : fs.moveOver source target = .ok fs') :
    ∃ old new n, fs.place source = .ok old ∧ fs.place target = .ok new ∧ fs.node? old = some n ∧
      fs.node? new ≠ some .directory ∧ fs' = ((fs.dropNode old).dropNode new).setNode new n := by
  unfold moveOver at h
  cases hs : fs.place source with
  | error r => simp [hs] at h
  | ok old =>
    cases ht : fs.place target with
    | error r => simp [hs, ht] at h
    | ok new =>
      cases ho : fs.node? old with
      | none => simp [hs, ht, ho] at h
      | some n =>
        by_cases hd : fs.node? new = some .directory
        · simp [hs, ht, ho, hd] at h
        · refine ⟨old, new, n, rfl, rfl, ho, hd, ?_⟩
          simp only [hs, ht, ho] at h
          exact (Except.ok.inj h).symm

theorem moveOver_of_place {source target : Path} {old new : Place} {n : Node}
    (hs : fs.place source = .ok old) (ht : fs.place target = .ok new) (ho : fs.node? old = some n)
    (hd : fs.node? new ≠ some .directory) :
    fs.moveOver source target = .ok (((fs.dropNode old).dropNode new).setNode new n) := by
  unfold moveOver
  simp only [hs, ht, ho]

/-- What is moved over a file that is no directory stands in its place, where no log is open, and all
directories stay. -/
theorem moveOver_spec {source target : Path} {old : Place} {bytes : Bytes}
    (hs : fs.place source = .ok old) (ho : fs.node? old = some (.file bytes))
    (h : fs.moveOver source target = .ok fs') :
    Stay fs fs' ∧ fs'.readBytes target = .ok bytes ∧
      (∀ q, fs'.place target = .ok q → fs'.NoLogAt q) ∧ fs'.rows ⊆ fs.rows := by
  obtain ⟨old', new, n, hs', ht, ho', hd, rfl⟩ := moveOver_ok h
  obtain rfl : old = old' := Except.ok.inj (hs.symm.trans hs')
  obtain rfl : Node.file bytes = n := Option.some.inj (ho.symm.trans ho')
  have hne : new ≠ [] := by
    rintro rfl
    exact hd (node?_root fs)
  have holdd : fs.node? old ≠ some .directory := by
    rw [ho]
    simp
  have hdropped : (fs.dropNode old).node? new ≠ some .directory := by
    by_cases hon : new = old
    · rw [hon, node?_dropNode_self (hon ▸ hne)]
      simp
    · rw [node?_dropNode_of_ne hon]
      exact hd
  -- The target is no directory, neither before it is dropped nor after.
  have hgone : ((fs.dropNode old).dropNode new).node? new ≠ some .directory := by
    rw [node?_dropNode_self hne]
    simp
  have hstay : Stay fs (((fs.dropNode old).dropNode new).setNode new (.file bytes)) :=
    ((stay_dropNode holdd).trans (stay_dropNode hdropped)).trans (stay_setNode _ hgone)
  refine ⟨hstay, ?_, ?_, ?_⟩
  · exact readBytes_of_node (place_of_stay hstay ht) (node?_setNode_self hne _)
  · intro q hq
    obtain rfl : new = q := Except.ok.inj ((place_of_stay hstay ht).symm.trans hq)
    exact noLogAt_setNode _ (noLogAt_dropNode_self new)
  · have hdrop := List.Subset.trans (rows_dropNode (fs.dropNode old) new) (rows_dropNode fs old)
    exact List.Subset.trans (rows_setNode_file _ _ _) hdrop

end Files

namespace Document

open Files (Stay)

variable {d : Document} {fs made : Files} {t : Path} {bytes : Bytes}

/-! ### The temporary file -/

/-- Whether bytes stand in the temporary file that was made beside a path, and nothing but that file has
come: no table has rows that it did not have. -/
structure Filled (fs : Files) (path t : Path) (bytes : Bytes) (q : Place) (filled : Files) : Prop where
  free : fs.freeTemporary path Files.temporaryTries 0 = .ok (t, q)
  place : filled.place t = .ok q
  node : filled.node? q = some (.file bytes)
  others : ∀ p, p ≠ q → filled.node? p = fs.node? p
  within : Files.Within {q} fs filled
  rows : filled.rows ⊆ fs.rows

theorem Filled.stay {path : Path} {q : Place} {filled : Files} (h : Filled fs path t bytes q filled) :
    Stay fs filled := h.within.stay

theorem createTemporary_rows (h : fs.createTemporary d.path = .ok (t, made)) : made.rows ⊆ fs.rows := by
  obtain ⟨q, -, rfl⟩ := Files.createTemporary_ok h
  exact Files.rows_setNode_file fs q []

/-- The temporary file of a document can be filled. -/
theorem fill_temporary (h : fs.createTemporary d.path = .ok (t, made)) (bytes : Bytes) :
    ∃ q filled, made.writeBytes t bytes = .ok filled ∧ Filled fs d.path t bytes q filled := by
  have hrows := createTemporary_rows h
  obtain ⟨q, hfree, rfl⟩ := Files.createTemporary_ok h
  obtain ⟨-, hp, hnone⟩ := Files.freeTemporary_ok hfree
  -- Nothing stood at the place of the temporary file, so it is not the root.
  have hne : q ≠ [] := by
    rintro rfl
    rw [Files.node?_root] at hnone
    cases hnone
  have hd : fs.node? q ≠ some .directory := by
    rw [hnone]
    simp
  have hmade : Stay fs { fs.setNode q (.file []) with temporaries := fs.temporaries + 1 } :=
    Files.stay_setNode _ hd
  have hself (n : Nat) (b : Bytes) :
      Files.node? { fs.setNode q (.file b) with temporaries := n } q = some (.file b) :=
    Files.node?_setNode_self hne _
  have hmaded : Files.node? { fs.setNode q (.file []) with temporaries := fs.temporaries + 1 } q ≠
      some .directory := by
    rw [hself]
    simp
  have hwrite := Files.writeBytes_of_place bytes (Files.place_of_stay hmade hp) hmaded
  have hfile (b : Bytes) : Node.file b ≠ .directory := fun h => nomatch h
  have hempty : Files.Within {q} fs { fs.setNode q (.file []) with temporaries := fs.temporaries + 1 } :=
    (Files.Within.setNode hd (hfile [])).count _
  have hwithin := hempty.trans (.setNode hmaded (hfile bytes))
  exact ⟨q, _, hwrite, {
    free := hfree
    place := Files.place_of_stay hwithin.stay hp
    node := Files.node?_setNode_self hne _
    others := fun p hpq =>
      (Files.node?_setNode_of_ne hpq _).trans (Files.node?_setNode_of_ne hpq (.file []))
    within := hwithin
    rows := List.Subset.trans (Files.writeBytes_rows hwrite) hrows }⟩

/-- A filled temporary file can be moved to a path that leads to a file. -/
theorem Filled.moves {path : Path} {q : Place} {filled : Files} {old : Bytes}
    (h : Filled fs path t bytes q filled) (hr : fs.readBytes path = .ok old) :
    ∃ new moved, fs.place path = .ok new ∧ new ≠ q ∧ filled.moveOver t path = .ok moved ∧
      moved = ((filled.dropNode q).dropNode new).setNode new (.file bytes) := by
  obtain ⟨new, hp, hne, n, hn, hd⟩ := Files.place_of_readBytes hr
  obtain ⟨-, -, hnone⟩ := Files.freeTemporary_ok h.free
  have hnew : new ≠ q := by
    rintro rfl
    rw [hn] at hnone
    cases hnone
  have hnot : filled.node? new ≠ some .directory := by
    rw [h.others new hnew, hn]
    exact fun heq => hd (Option.some.inj heq)
  exact ⟨new, _, hp, hnew,
    Files.moveOver_of_place h.place (Files.place_of_stay h.stay hp) h.node hnot, rfl⟩

/-- After the move the place of the temporary file is free again, and no place is that was not. -/
theorem Filled.free_again {path : Path} {q : Place} {filled moved : Files} {old : Bytes}
    (h : Filled fs path t bytes q filled) (hr : fs.readBytes path = .ok old)
    (hm : filled.moveOver t path = .ok moved) :
    moved.node? q = none ∧ ∀ p, fs.node? p ≠ none → moved.node? p ≠ none := by
  obtain ⟨new, moved', hp, hne, hm', rfl⟩ := h.moves hr
  obtain rfl := Except.ok.inj (hm.symm.trans hm')
  obtain ⟨new', hp', hnew, -⟩ := Files.place_of_readBytes hr
  obtain rfl := Except.ok.inj (hp'.symm.trans hp)
  obtain ⟨-, -, hnone⟩ := Files.freeTemporary_ok h.free
  have hq : q ≠ [] := by
    rintro rfl
    rw [Files.node?_root] at hnone
    cases hnone
  constructor
  · rw [Files.node?_setNode_of_ne hne.symm, Files.node?_dropNode_of_ne hne.symm,
      Files.node?_dropNode_self hq]
  · intro p htaken
    by_cases hpn : p = new'
    · rw [hpn, Files.node?_setNode_self hnew]
      simp
    · have hpq : p ≠ q := by
        rintro rfl
        exact htaken hnone
      rw [Files.node?_setNode_of_ne hpn, Files.node?_dropNode_of_ne hpn, Files.node?_dropNode_of_ne hpq,
        h.others p hpq]
      exact htaken

/-! ### Writing -/

/-- All that writing a document can do. Nothing is changed; or the text has no bytes, and an empty
temporary file is left behind; or the filled temporary file cannot be moved and is taken away; or it is
moved to the path of the document. -/
theorem write_run (d : Document) (fs : Files) :
    (∃ f, fs.createTemporary d.path = .error f ∧ d.write.run fs = ⟨.error f, fs, []⟩) ∨
      (∃ run t made, Utf8.encode d.root.render = .error run ∧
        fs.createTemporary d.path = .ok (t, made) ∧
        d.write.run fs = ⟨.error (.unencodable run), made, []⟩) ∨
      ∃ bytes t q filled, Utf8.encode d.root.render = .ok bytes ∧
        Filled fs d.path t bytes q filled ∧
        ((∃ f, filled.moveOver t d.path = .error f ∧
          d.write.run fs = ⟨.error f, filled.removeFile t, []⟩) ∨
        ∃ moved, filled.moveOver t d.path = .ok moved ∧
          ∃ log, d.write.run fs = ⟨.ok (), LogKeeper.keep log moved, log⟩) := by
  unfold write
  rw [Action.run_state_bind]
  rcases hc : fs.createTemporary d.path with f | ⟨t, made⟩
  · exact Or.inl ⟨f, rfl, rfl⟩
  rcases he : Utf8.encode d.root.render with run | bytes
  · exact Or.inr (Or.inl ⟨run, t, made, rfl, rfl, rfl⟩)
  obtain ⟨q, filled, hf, hfilled⟩ := fill_temporary hc bytes
  refine Or.inr (Or.inr ⟨bytes, t, q, filled, rfl, hfilled, ?_⟩)
  rcases hm : filled.moveOver t d.path with f | moved
  · refine Or.inl ⟨f, rfl, ?_⟩
    simp only [hf, hm, Action.run_ofExcept_ok_bind, Action.run_replace_bind, Action.run_fail_bind]
  · refine Or.inr ⟨moved, rfl, ?_⟩
    simp only [hf, hm, Action.run_ofExcept_ok_bind, Action.run_replace_bind, Action.run_note]
    exact ⟨_, rfl⟩

/-- After a document was written its bytes stand at its path; no table has rows that it did not have. -/
theorem write_ok (h : (d.write.run fs).result = .ok ()) :
    ∃ bytes, Utf8.encode d.root.render = .ok bytes ∧
      (d.write.run fs).state.readBytes d.path = .ok bytes ∧
      (∀ q, (d.write.run fs).state.place d.path = .ok q → (d.write.run fs).state.NoLogAt q) ∧
      Stay fs (d.write.run fs).state ∧ (d.write.run fs).state.rows ⊆ fs.rows := by
  rcases d.write_run fs with ⟨f, -, hrun⟩ | ⟨run, t, made, -, -, hrun⟩ |
    ⟨bytes, t, q, filled, he, hfilled, ⟨f, -, hrun⟩ | ⟨moved, hm, log, hrun⟩⟩
  · rw [hrun] at h
    cases h
  · rw [hrun] at h
    cases h
  · rw [hrun] at h
    cases h
  · obtain ⟨hstay, hread, hlog, hrows⟩ := Files.moveOver_spec hfilled.place hfilled.node hm
    -- The log records that follow do not come to the document, where no log is open.
    have hstays : Stay fs (LogKeeper.keep log moved : Files) :=
      (hfilled.stay.trans hstay).trans (Files.stay_keep log moved)
    rw [hrun]
    refine ⟨bytes, he, (Files.readBytes_keep log hlog).trans hread, ?_, hstays, ?_⟩
    · intro r hr
      rw [Files.place_keep] at hr
      exact Files.noLogAt_keep log (hlog r hr)
    · exact List.Subset.trans hrows hfilled.rows

/-- Writing a document brings no rows into tables. -/
theorem write_rows : (d.write.run fs).state.rows ⊆ fs.rows := by
  rcases d.write_run fs with ⟨f, -, hrun⟩ | ⟨run, t, made, -, hc, hrun⟩ |
    ⟨bytes, t, q, filled, -, hfilled, ⟨f, -, hrun⟩ | ⟨moved, hm, log, hrun⟩⟩
  · rw [hrun]
    exact List.Subset.refl _
  · rw [hrun]
    exact createTemporary_rows hc
  · rw [hrun]
    exact List.Subset.trans (Files.removeFile_rows filled t) hfilled.rows
  · obtain ⟨-, -, -, hrows⟩ := Files.moveOver_spec hfilled.place hfilled.node hm
    rw [hrun]
    exact List.Subset.trans hrows hfilled.rows

/-- A document whose text has bytes and whose path leads to a file is written, or nothing is changed at
all. -/
theorem write_of_bytes {old : Bytes} (hr : fs.readBytes d.path = .ok old)
    (he : Utf8.encode d.root.render = .ok bytes) :
    (d.write.run fs).state = fs ∨ (d.write.run fs).state.readBytes d.path = .ok bytes := by
  rcases d.write_run fs with ⟨f, -, hrun⟩ | ⟨run, t, made, he', -, hrun⟩ |
    ⟨bytes', t, q, filled, he', hfilled, ⟨f, hm, hrun⟩ | ⟨moved, hm, log, hrun⟩⟩
  · left
    rw [hrun]
  · rw [he] at he'
    cases he'
  · obtain ⟨new, moved, -, -, hmoved, -⟩ := hfilled.moves hr
    rw [hm] at hmoved
    cases hmoved
  · right
    obtain rfl : bytes = bytes' := Except.ok.inj (he.symm.trans he')
    obtain ⟨-, hread, hlog, -⟩ := Files.moveOver_spec hfilled.place hfilled.node hm
    rw [hrun]
    exact (Files.readBytes_keep log hlog).trans hread

/-- A document is written if a temporary file can be made beside it, its text has bytes and its path
leads to a file. -/
theorem write_of_temporary (hc : fs.createTemporary d.path = .ok (t, made)) {old : Bytes}
    (hr : fs.readBytes d.path = .ok old) (he : Utf8.encode d.root.render = .ok bytes) :
    (d.write.run fs).result = .ok () := by
  rcases d.write_run fs with ⟨f, hc', -⟩ | ⟨run, t', made', he', -, -⟩ |
    ⟨bytes', t', q, filled, -, hfilled, ⟨f, hm, -⟩ | ⟨moved, -, log, hrun⟩⟩
  · rw [hc] at hc'
    cases hc'
  · rw [he] at he'
    cases he'
  · obtain ⟨new, moved, -, -, hmoved, -⟩ := hfilled.moves hr
    rw [hm] at hmoved
    cases hmoved
  · rw [hrun]

/-- A document that was written can be written again, with any root whose text has bytes: the place of
the temporary file is free again, and no other place is. -/
theorem write_again {d' : Document} {old : Bytes} (hr : fs.readBytes d.path = .ok old)
    (hw : (d.write.run fs).result = .ok ()) (hpath : d'.path = d.path)
    (he : Utf8.encode d'.root.render = .ok bytes) (log : Log) :
    (d'.write.run (LogKeeper.keep log (d.write.run fs).state)).result = .ok () := by
  obtain ⟨written, -, hread, hlog, hstay, -⟩ := write_ok hw
  rcases d.write_run fs with ⟨f, -, hrun⟩ | ⟨run, t, made, -, -, hrun⟩ |
    ⟨bytes', t, q, filled, -, hfilled, ⟨f, -, hrun⟩ | ⟨moved, hm, log', hrun⟩⟩
  · rw [hrun] at hw
    cases hw
  · rw [hrun] at hw
    cases hw
  · rw [hrun] at hw
    cases hw
  obtain ⟨hfree, htaken⟩ := hfilled.free_again hr hm
  rw [hrun] at hread hlog hstay ⊢
  -- Log records put nothing where nothing stood, and take nothing away.
  have hkept (p : Place) : Files.node? (LogKeeper.keep log (LogKeeper.keep log' moved)) p = none ↔
      moved.node? p = none :=
    (Files.node?_keep_directory log p).1.trans (Files.node?_keep_directory log' p).1
  have hfound := Files.freeTemporary_of_stay (hstay.trans (Files.stay_keep log _))
    (fun p h => mt (hkept p).mp (htaken p h)) ((hkept q).mpr hfree) hfilled.free
  have hcreate : ∃ made, Files.createTemporary (LogKeeper.keep log (LogKeeper.keep log' moved))
      d'.path = .ok (t, made) := by
    unfold Files.createTemporary
    rw [hpath, hfound]
    exact ⟨_, rfl⟩
  obtain ⟨made, hmade⟩ := hcreate
  exact write_of_temporary hmade (hpath.symm ▸ (Files.readBytes_keep log hlog).trans hread) he

end Document

end TitleClasses
