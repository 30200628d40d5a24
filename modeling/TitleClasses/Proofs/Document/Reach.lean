import TitleClasses.Proofs.Document.Remains

/-!
# How far writing a document reaches

Writing a document that stands at its path touches that place and at most one place where nothing was, of
a temporary file beside it (`Document.write_grown`), which is empty if it stays (`Document.write_fresh`). It
succeeds if a temporary file can be made there and the text has bytes (`Document.write_ok_iff`). Files that
are changed elsewhere have the same temporary places for a path, and a temporary file can be made beside the
path if and only if it could be before (`Files.Within.hasTemporary`).
-/

namespace TitleClasses

open Utf8 (Bytes)

namespace Files

variable {touched : Set Place} {fs fs' : Files} {path : Path} {p q : Place}

/-- The places that writing to a path may touch: that of the path, if something stands there, and those
of temporary files beside it where nothing stands. -/
def reach (fs : Files) (path : Path) : Set Place :=
  {q | (fs.place path = .ok q ∧ fs.node? q ≠ none) ∨
    (q ∈ fs.temporaryPlaces path ∧ fs.node? q = none)}

/-- Whether a temporary file can be made beside a path. -/
def hasTemporary (fs : Files) (path : Path) : Bool := (fs.createTemporary path).toOption.isSome

/-- Whether a path leads to none of some places, and to no file that the log is open on. -/
structure Foreign (fs : Files) (own : Set Place) (path : Path) : Prop where
  plain : path.Plain
  place : ∀ q, fs.place path = .ok q → q ∉ own ∧ fs.NoLogAt q

/-- Writing to a path reaches none of the places that it does not lead to, if something stands there. -/
theorem Foreign.not_mem_reach {own : Set Place} (h : Foreign fs own path) (hp : p ∈ own)
    (hnode : fs.node? p ≠ none) : p ∉ fs.reach path := by
  rintro (⟨hplace, -⟩ | ⟨-, hnone⟩)
  · exact (h.place p hplace).1 hp
  · exact hnode hnone

theorem Foreign.within {own : Set Place} (h : Foreign fs own path) (hwithin : Within touched fs fs') :
    Foreign fs' own path := by
  refine ⟨h.plain, fun q hq => ?_⟩
  obtain ⟨hout, hlog⟩ := h.place q (hwithin.place_iff.mp hq)
  exact ⟨hout, hwithin.log q hlog⟩

/-! ### Temporary files after other changes -/

namespace Within

theorem temporaryPath (h : Within touched fs fs') (path : Path) (n : Nat) :
    fs'.temporaryPath path n = fs.temporaryPath path n := by
  unfold Files.temporaryPath absolute
  rw [h.home]

theorem temporaryPlaces (h : Within touched fs fs') (path : Path) :
    fs'.temporaryPlaces path = fs.temporaryPlaces path := by
  ext q
  show (∃ n < temporaryTries, fs'.place (fs'.temporaryPath path n) = .ok q) ↔
    ∃ n < temporaryTries, fs.place (fs.temporaryPath path n) = .ok q
  simp only [h.temporaryPath, h.place_iff]

/-- A temporary file can be made as it could if as many places for it are free. -/
theorem hasTemporary (h : Within touched fs fs')
    (hfree : ∀ q ∈ fs.temporaryPlaces path, (fs'.node? q = none ↔ fs.node? q = none)) :
    fs'.hasTemporary path = fs.hasTemporary path := by
  -- By induction on the tries that are left: each name leads to the same place, which is free in both
  -- files or in neither.
  have hfound : ∀ tries n, n + tries ≤ temporaryTries →
      (fs'.freeTemporary path tries n).toOption.isSome =
        (fs.freeTemporary path tries n).toOption.isSome := by
    intro tries
    induction tries with
    | zero => exact fun n _ => rfl
    | succ tries ih =>
      intro n hn
      rw [freeTemporary, freeTemporary, h.temporaryPath]
      cases hplace : fs.place (fs.temporaryPath path n) with
      | error r =>
        cases hplace' : fs'.place (fs.temporaryPath path n) with
        | error r' => rfl
        | ok q => cases hplace.symm.trans (h.place_iff.mp hplace')
      | ok q =>
        have hq := hfree q ⟨n, by omega, hplace⟩
        rw [h.place_iff.mpr hplace]
        dsimp only
        cases hnode : fs.node? q with
        | none => rw [hq.mpr hnode]
        | some m =>
          cases hnode' : fs'.node? q with
          | none => cases (hq.mp hnode').symm.trans hnode
          | some m' => exact ih (n + 1) (by omega)
  have hcreate (fs : Files) : fs.hasTemporary path =
      (fs.freeTemporary path temporaryTries 0).toOption.isSome := by
    unfold Files.hasTemporary createTemporary
    cases fs.freeTemporary path temporaryTries 0 with
    | error f => rfl
    | ok found => rfl
  rw [hcreate, hcreate]
  exact hfound temporaryTries 0 (by omega)

end Within

/-- A path that led to something leads to something still. -/
theorem Grown.nodeAt (h : Grown touched fs fs') {n : Node} (hn : fs.nodeAt path = .ok n) :
    ∃ n', fs'.nodeAt path = .ok n' := by
  obtain ⟨q, hplace, hq⟩ := nodeAt_eq_ok.mp hn
  have hthere : fs'.node? q ≠ none := h.there q (by rw [hq]; exact fun heq => nomatch heq)
  obtain ⟨n', hn'⟩ := Option.ne_none_iff_exists'.mp hthere
  exact ⟨n', nodeAt_eq_ok.mpr ⟨q, h.place_iff.mpr hplace, hn'⟩⟩

/-- Writing to a path reaches no further after a change that has not touched the place of the path. -/
theorem Grown.reach_subset (h : Grown touched fs fs')
    (hout : ∀ q, fs.place path = .ok q → q ∉ touched) : fs'.reach path ⊆ fs.reach path := by
  rintro q (⟨hplace, hnode⟩ | ⟨hq, hnone⟩)
  · rw [h.place_iff] at hplace
    exact Or.inl ⟨hplace, mt (h.absent q (hout q hplace)).mpr hnode⟩
  · rw [h.temporaryPlaces] at hq
    exact Or.inr ⟨hq, by_contra fun hsome => h.there q hsome hnone⟩

end Files

/-! ### Writing -/

namespace Document

variable {d : Document} {fs : Files}

/-- Writing a document where something stands touches nothing beyond its reach, and leaves something
there. -/
theorem write_grown {n : Node} (hnode : fs.nodeAt d.path = .ok n) :
    Files.Grown (fs.reach d.path) fs (d.write.run fs).state := by
  obtain ⟨target, hplace, hn⟩ := Files.nodeAt_eq_ok.mp hnode
  rcases d.write_leaves fs with ⟨-, target', bytes, hplace', -, hwritten, hwithin⟩ |
    ⟨f, -, hwithin, hsame | ⟨run, -, -, q, hq, hnone, hempty, hothers⟩⟩
  · obtain rfl := Except.ok.inj (hplace.symm.trans hplace')
    refine (Files.Grown.of_within hwithin fun p hp => ?_).mono (Set.singleton_subset_iff.mpr ?_)
    · rw [Set.mem_singleton_iff.mp hp, hwritten]
      exact fun heq => nomatch heq
    · exact Or.inl ⟨hplace, by rw [hn]; exact fun heq => nomatch heq⟩
  · exact ⟨hwithin.restrict fun p _ _ => hsame p, fun p hp => by rwa [hsame p]⟩
  · have hone : Files.Within {q} fs (d.write.run fs).state :=
      hwithin.restrict fun p _ hp => hothers p hp
    refine (Files.Grown.of_within hone fun p hp => ?_).mono
      (Set.singleton_subset_iff.mpr (Or.inr ⟨hq, hnone⟩))
    rw [Set.mem_singleton_iff.mp hp, hempty]
    exact fun heq => nomatch heq

/-- Writing a document where something stands brings at most an empty temporary file. -/
theorem write_fresh {n : Node} (hnode : fs.nodeAt d.path = .ok n) :
    Files.Fresh fs (d.write.run fs).state := by
  obtain ⟨target, hplace, hn⟩ := Files.nodeAt_eq_ok.mp hnode
  rcases d.write_leaves fs with ⟨-, target', bytes, hplace', -, -, hwithin⟩ |
    ⟨f, -, -, hsame | ⟨run, -, -, q, -, -, hempty, hothers⟩⟩
  · obtain rfl := Except.ok.inj (hplace.symm.trans hplace')
    refine hwithin.fresh fun p hp => ?_
    rw [Set.mem_singleton_iff.mp hp, hn]
    exact fun heq => nomatch heq
  · exact fun p _ hnone => Or.inl ((hsame p).trans hnone)
  · intro p _ hnone
    by_cases hp : p = q
    · exact Or.inr (hp ▸ hempty)
    · exact Or.inl ((hothers p hp).trans hnone)

/-- A document that stands at its path is written if and only if a temporary file can be made beside it
and its text has bytes. -/
theorem write_ok_iff {old : Bytes} (hr : fs.readBytes d.path = .ok old) :
    (d.write.run fs).result = .ok () ↔
      fs.hasTemporary d.path = true ∧ ∃ bytes, Utf8.encode d.root.render = .ok bytes := by
  constructor
  · intro h
    obtain ⟨bytes, he, -⟩ := write_ok h
    refine ⟨?_, bytes, he⟩
    rcases hc : fs.createTemporary d.path with f | made
    · rcases d.write_run fs with ⟨g, -, hrun⟩ | ⟨run, t, made, -, hc', -⟩ |
        ⟨bytes', t, q, filled, -, hfilled, -⟩
      · rw [hrun] at h
        cases h
      · cases hc.symm.trans hc'
      · unfold Files.createTemporary at hc
        rw [hfilled.free] at hc
        cases hc
    · unfold Files.hasTemporary
      rw [hc]
      rfl
  · rintro ⟨hbeside, bytes, he⟩
    rcases hc : fs.createTemporary d.path with f | ⟨t, made⟩
    · unfold Files.hasTemporary at hbeside
      rw [hc] at hbeside
      cases hbeside
    · exact write_of_temporary hc hr he

end Document

end TitleClasses
