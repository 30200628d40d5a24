import Mathlib.Data.Set.Insert
import TitleClasses.Proofs.Files.Frame

/-!
# Changes with a footprint

`Within touched fs fs'` says that a file system has become another one and nothing has happened outside
the places of a set but that the open log has grown. Footprints compose (`Within.trans`), and where
nothing has changed in the end they can be made smaller (`Within.shrink`). Since no change that the
program makes adds or takes away a directory, paths lead to the same places as before
(`Within.place_iff`), and outside the footprint to what was there (`Within.nodeAt_iff`). A change is
`Grown` if moreover nothing has gone, and `Fresh` if nothing but empty files has come to places where
nothing was.
-/

namespace TitleClasses.Files

open Utf8 (Bytes)

/-- Outside some places nothing was put and nothing was taken away, and only a log that is open has
grown; directories are where they were, and no log was opened. -/
structure Within (touched : Set Place) (fs fs' : Files) : Prop where
  home : fs'.home = fs.home
  directory : ∀ p, fs'.node? p = some .directory ↔ fs.node? p = some .directory
  absent : ∀ p, p ∉ touched → (fs'.node? p = none ↔ fs.node? p = none)
  same : ∀ p, p ∉ touched → fs.NoLogAt p → fs'.node? p = fs.node? p
  log : ∀ p, fs.NoLogAt p → fs'.NoLogAt p

variable {touched touched' : Set Place} {fs fs' fs'' : Files} {p q : Place} {path : Path}

namespace Within

theorem refl (touched : Set Place) (fs : Files) : Within touched fs fs where
  home := rfl
  directory _ := Iff.rfl
  absent _ _ := Iff.rfl
  same _ _ _ := rfl
  log _ h := h

theorem trans (h : Within touched fs fs') (h' : Within touched fs' fs'') : Within touched fs fs'' where
  home := h'.home.trans h.home
  directory p := (h'.directory p).trans (h.directory p)
  absent p hp := (h'.absent p hp).trans (h.absent p hp)
  same p hp hlog := (h'.same p hp (h.log p hlog)).trans (h.same p hp hlog)
  log p hlog := h'.log p (h.log p hlog)

theorem mono (h : Within touched fs fs') (hsub : touched ⊆ touched') : Within touched' fs fs' where
  home := h.home
  directory := h.directory
  absent p hp := h.absent p fun hin => hp (hsub hin)
  same p hp := h.same p fun hin => hp (hsub hin)
  log := h.log

/-- Places where the same stands in the end as at first need not be counted as touched. -/
theorem restrict (h : Within touched fs fs')
    (hsame : ∀ p ∈ touched, p ∉ touched' → fs'.node? p = fs.node? p) : Within touched' fs fs' where
  home := h.home
  directory := h.directory
  absent p hp := by
    by_cases hin : p ∈ touched
    · rw [hsame p hin hp]
    · exact h.absent p hin
  same p hp hlog := by
    by_cases hin : p ∈ touched
    · exact hsame p hin hp
    · exact h.same p hin hlog
  log := h.log

/-- A place where the same stands in the end as at first is not touched. -/
theorem shrink (h : Within (insert q touched) fs fs') (hnode : fs'.node? q = fs.node? q) :
    Within touched fs fs' :=
  h.restrict fun p hp hout => by
    rcases Set.mem_insert_iff.mp hp with rfl | hin
    · exact hnode
    · exact absurd hin hout

/-- Log records touch nothing. -/
theorem keep (touched : Set Place) (log : Log) (fs : Files) :
    Within touched fs (LogKeeper.keep log fs) where
  home := rfl
  directory p := (node?_keep_directory log p).2
  absent p _ := (node?_keep_directory log p).1
  same _ _ hlog := node?_keep log hlog
  log _ hlog := noLogAt_keep log hlog

/-- Something that is no directory is put where there was none. -/
theorem setNode {n : Node} (hq : fs.node? q ≠ some .directory) (hn : n ≠ .directory) :
    Within {q} fs (fs.setNode q n) where
  home := rfl
  directory p := by
    by_cases hpq : p = q
    · have hroot : q ≠ [] := by
        rintro rfl
        exact hq (node?_root fs)
      rw [hpq, node?_setNode_self hroot]
      exact iff_of_false (fun h => hn (Option.some.inj h)) hq
    · rw [node?_setNode_of_ne hpq]
  absent p hp := by rw [node?_setNode_of_ne hp]
  same p hp _ := node?_setNode_of_ne hp n
  log _ hlog := noLogAt_setNode n hlog

theorem dropNode (hq : fs.node? q ≠ some .directory) : Within {q} fs (fs.dropNode q) where
  home := rfl
  directory p := by
    by_cases hpq : p = q
    · have hroot : q ≠ [] := by
        rintro rfl
        exact hq (node?_root fs)
      rw [hpq, node?_dropNode_self hroot]
      exact iff_of_false (fun h => by cases h) hq
    · rw [node?_dropNode_of_ne hpq]
  absent p hp := by rw [node?_dropNode_of_ne hp]
  same p hp _ := node?_dropNode_of_ne hp
  log p hlog := fun l hl => hlog l (Option.filter_eq_some_iff.mp hl).1

/-- How many temporary files were made shows at no place. -/
theorem count (h : Within touched fs fs') (n : Nat) : Within touched fs { fs' with temporaries := n } :=
  ⟨h.home, h.directory, h.absent, h.same, h.log⟩

theorem stay (h : Within touched fs fs') : Stay fs fs' :=
  ⟨h.home, fun p hp => (h.directory p).mpr hp⟩

theorem resolve (h : Within touched fs fs') (path : Path) : fs'.resolve path = fs.resolve path := by
  unfold Files.resolve absolute
  rw [h.home]

/-- A path leads to a place as it did: directories have neither come nor gone. -/
theorem place_iff (h : Within touched fs fs') : fs'.place path = .ok q ↔ fs.place path = .ok q :=
  ⟨place_of_stay ⟨h.home.symm, fun p hp => (h.directory p).mp hp⟩, place_of_stay h.stay⟩

/-- What a path leads to outside the footprint is what it led to. -/
theorem nodeAt_iff (h : Within touched fs fs') {n : Node}
    (hpath : ∀ q, fs.place path = .ok q → q ∉ touched ∧ fs.NoLogAt q) :
    fs'.nodeAt path = .ok n ↔ fs.nodeAt path = .ok n := by
  rw [nodeAt_eq_ok, nodeAt_eq_ok]
  constructor
  · rintro ⟨q, hq, hn⟩
    rw [h.place_iff] at hq
    obtain ⟨hout, hlog⟩ := hpath q hq
    exact ⟨q, hq, (h.same q hout hlog).symm.trans hn⟩
  · rintro ⟨q, hq, hn⟩
    obtain ⟨hout, hlog⟩ := hpath q hq
    exact ⟨q, h.place_iff.mpr hq, (h.same q hout hlog).trans hn⟩

/-- Bytes that are read outside the footprint are those that were read, if any were. -/
theorem readBytes_toOption (h : Within touched fs fs')
    (hpath : ∀ q, fs.place path = .ok q → q ∉ touched ∧ fs.NoLogAt q) :
    (fs'.readBytes path).toOption = (fs.readBytes path).toOption := by
  -- What is read depends on what the path leads to.
  have hbytes (fs : Files) : (fs.readBytes path).toOption = (fs.nodeAt path).toOption.bind fun n =>
      match n with
      | .directory => none
      | .file bytes => some bytes
      | .table rows => some (ProcessedRow.tableBytes rows) := by
    unfold readBytes
    rcases fs.nodeAt path with r | n
    · rfl
    · cases n <;> rfl
  have hnode : (fs'.nodeAt path).toOption = (fs.nodeAt path).toOption := by
    rcases hn : fs.nodeAt path with r | n
    · rcases hn' : fs'.nodeAt path with r' | n'
      · rfl
      · cases hn.symm.trans ((h.nodeAt_iff hpath).mp hn')
    · rw [(h.nodeAt_iff hpath).mpr hn]
  rw [hbytes, hbytes, hnode]

end Within

/-! ### Nothing goes -/

/-- A change with a footprint that leaves something wherever something stood. -/
structure Grown (touched : Set Place) (fs fs' : Files) : Prop extends Within touched fs fs' where
  there : ∀ p, fs.node? p ≠ none → fs'.node? p ≠ none

namespace Grown

theorem refl (touched : Set Place) (fs : Files) : Grown touched fs fs :=
  ⟨.refl touched fs, fun _ h => h⟩

theorem trans (h : Grown touched fs fs') (h' : Grown touched fs' fs'') : Grown touched fs fs'' :=
  ⟨h.toWithin.trans h'.toWithin, fun p hp => h'.there p (h.there p hp)⟩

theorem mono (h : Grown touched fs fs') (hsub : touched ⊆ touched') : Grown touched' fs fs' :=
  ⟨h.toWithin.mono hsub, h.there⟩

theorem keep (touched : Set Place) (log : Log) (fs : Files) :
    Grown touched fs (LogKeeper.keep log fs) :=
  ⟨.keep touched log fs, fun p hp => mt (node?_keep_directory log p).1.mp hp⟩

/-- Where nothing is touched something stands if and only if something stood there. -/
theorem of_within (h : Within touched fs fs') (hthere : ∀ p ∈ touched, fs'.node? p ≠ none) :
    Grown touched fs fs' where
  toWithin := h
  there p hp := by
    by_cases hin : p ∈ touched
    · exact hthere p hin
    · exact mt (h.absent p hin).mp hp

end Grown

/-! ### Nothing but empty files comes -/

/-- Whether at most an empty file has come to any place where nothing was and no log is open. -/
def Fresh (fs fs' : Files) : Prop :=
  ∀ p, fs.NoLogAt p → fs.node? p = none → fs'.node? p = none ∨ fs'.node? p = some (.file [])

/-- A change that touches only places where something was brings nothing. -/
theorem Within.fresh (h : Within touched fs fs') (hthere : ∀ p ∈ touched, fs.node? p ≠ none) :
    Fresh fs fs' :=
  fun p _ hnone => Or.inl ((h.absent p fun hin => hthere p hin hnone).mpr hnone)

namespace Fresh

/-- What came is left alone by a change that touches only places where something was at first. -/
theorem within (h : Fresh fs fs') (hfirst : Within touched fs fs') (hnext : Within touched' fs' fs'')
    (hthere : ∀ p ∈ touched', fs.node? p ≠ none) : Fresh fs fs'' := by
  intro p hlog hnone
  have hout : p ∉ touched' := fun hin => hthere p hin hnone
  rcases h p hlog hnone with hnone' | hempty
  · exact Or.inl ((hnext.absent p hout).mpr hnone')
  · exact Or.inr ((hnext.same p hout (hfirst.log p hlog)).trans hempty)

/-- Log records do not matter to what comes after them. -/
theorem of_keep {log : Log} (h : Fresh (LogKeeper.keep log fs) fs') : Fresh fs fs' := fun p hlog hnone =>
  h p (noLogAt_keep log hlog) ((node?_keep_directory log p).1.mpr hnone)

end Fresh

end TitleClasses.Files
