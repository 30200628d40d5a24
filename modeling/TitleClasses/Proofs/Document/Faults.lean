import TitleClasses.Document.Storage
import TitleClasses.Proofs.Action
import TitleClasses.Proofs.Document.Storage
import TitleClasses.Proofs.Fault

/-!
# The faults of reading and writing a document

A value of the wrong shape, anywhere in a document, is a fault of its value, of a key or of a type
(`Element.failsOnly_ofJson`): a value is asked for a property only where it is known to be an object. So
reading a document that is not nested too deeply, and writing one, fail only with the families of faults
that a step tells as its own (`Document.failsOnly_load`, `Document.failsOnly_write`).
-/

namespace TitleClasses

namespace Element

theorem failsOnly_entryOfJson (item : Json) : FailsOnly [.key, .type] (entryOfJson item) := by
  unfold entryOfJson
  refine (Json.failsOnly_required "type" item).bind fun type htype => ?_
  -- What has a type is an object, so its value can be asked for.
  obtain ⟨ms, rfl⟩ := Json.object_of_required htype
  rw [Json.member_object]
  exact failsOnly_ok _ _

theorem failsOnly_entriesOf (ms : Members) : FailsOnly [.key, .type] (entriesOf ms) := by
  unfold entriesOf
  refine ((Json.failsOnly_items _).mono (by simp)).bind fun items _ => ?_
  exact FailsOnly.mapM items fun item _ => failsOnly_entryOfJson item

mutual

/-- What is no element has no type, or a part of it has the wrong shape. -/
theorem failsOnly_ofJson (v : Json) : FailsOnly [.value, .key, .type] (ofJson v) := by
  cases v with
  | object ms =>
    rw [ofJson]
    cases Members.get? ms "type" with
    | none => exact failsOnly_error List.mem_cons_self
    | some type =>
      refine ((failsOnly_entriesOf ms).mono (by simp)).bind fun metadata _ => ?_
      exact (failsOnly_childrenIn ms).bind fun children _ => failsOnly_ok _ _
  | _ =>
    rw [ofJson]
    · exact failsOnly_error List.mem_cons_self
    · exact fun ms h => nomatch h

theorem failsOnly_childrenIn (ms : List (Text × Json)) :
    FailsOnly [.value, .key, .type] (childrenIn ms) := by
  cases ms with
  | nil =>
    rw [childrenIn]
    exact failsOnly_ok _ _
  | cons m ms =>
    obtain ⟨key, v⟩ := m
    rw [childrenIn]
    split
    · exact failsOnly_childrenOf v
    · exact failsOnly_childrenIn ms

theorem failsOnly_childrenOf (v : Json) : FailsOnly [.value, .key, .type] (childrenOf v) := by
  cases v with
  | list xs =>
    rw [childrenOf]
    exact failsOnly_elementsOf xs
  | text t =>
    rw [childrenOf]
    split
    · exact failsOnly_ok _ _
    · exact failsOnly_error List.mem_cons_self
  | object ms =>
    rw [childrenOf]
    split
    · exact failsOnly_ok _ _
    · exact failsOnly_error List.mem_cons_self
  | _ =>
    rw [childrenOf]
    exact failsOnly_error (by simp [Fault.family, ShapeFault.family])

theorem failsOnly_elementsOf (xs : List Json) : FailsOnly [.value, .key, .type] (elementsOf xs) := by
  cases xs with
  | nil =>
    rw [elementsOf]
    exact failsOnly_ok _ _
  | cons x xs =>
    rw [elementsOf]
    refine (failsOnly_ofJson x).bind fun e _ => ?_
    exact (failsOnly_elementsOf xs).bind fun es _ => failsOnly_ok _ _

end

end Element

namespace Files

variable {fs : Files}

/-- A temporary file cannot be made because the file system refuses. -/
theorem failsOnly_createTemporary (fs : Files) (path : Path) :
    FailsOnly [.os] (fs.createTemporary path) := by
  have hfree : ∀ tries n, FailsOnly [.os] (fs.freeTemporary path tries n) := by
    intro tries
    induction tries with
    | zero => exact fun n => failsOnly_error (List.mem_singleton_self _)
    | succ tries ih =>
      intro n
      rw [freeTemporary]
      split
      · exact failsOnly_error (List.mem_singleton_self _)
      · split
        · exact ih (n + 1)
        · exact failsOnly_ok _ _
  unfold createTemporary
  cases h : fs.freeTemporary path temporaryTries 0 with
  | error f => exact failsOnly_error (hfree _ _ f h)
  | ok found => exact failsOnly_ok _ _

theorem failsOnly_moveOver (fs : Files) (source target : Path) :
    FailsOnly [.os] (fs.moveOver source target) := by
  unfold moveOver
  dsimp only
  split
  · exact failsOnly_error (List.mem_singleton_self _)
  · exact failsOnly_error (List.mem_singleton_self _)
  · split
    · exact failsOnly_error (List.mem_singleton_self _)
    · exact failsOnly_error (List.mem_singleton_self _)
    · exact failsOnly_ok _ _

end Files

namespace Document

variable {fs : Files} {path : Path}

/-- A document that is not nested too deeply is read, or it fails in a way that a step contains. -/
theorem failsOnly_load (h : fs.NotTooDeep path) :
    FailsOnly [.os, .value, .key, .type] (load fs path) := by
  unfold load
  refine ((Files.failsOnly_exists fs path).mono (by simp)).bind fun there _ => ?_
  have hrest : FailsOnly [.os, .value, .key, .type] (do
      let v ← fs.readJson path
      let root ← Element.ofJson v
      return (⟨path, root⟩ : Document)) := by
    refine ((Files.failsOnly_readJson h).mono (by simp)).bind fun v _ => ?_
    exact ((Element.failsOnly_ofJson v).mono (by simp)).bind fun root _ => failsOnly_ok _ _
  cases there with
  | true => exact hrest
  | false => exact failsOnly_error List.mem_cons_self

theorem failsOnly_write (d : Document) (fs : Files) :
    FailsOnly [.os, .value] (d.write.run fs).result := by
  rcases d.write_run fs with ⟨f, hc, hrun⟩ | ⟨run, t, made, -, -, hrun⟩ |
    ⟨bytes, t, q, filled, -, -, ⟨f, hm, hrun⟩ | ⟨moved, -, log, hrun⟩⟩
  · have hos := Files.failsOnly_createTemporary fs d.path f hc
    rw [hrun]
    exact failsOnly_error (List.mem_cons.mpr (Or.inl (List.mem_singleton.mp hos)))
  · rw [hrun]
    exact failsOnly_error (by simp [Fault.family])
  · have hos := Files.failsOnly_moveOver filled t d.path f hm
    rw [hrun]
    exact failsOnly_error (List.mem_cons.mpr (Or.inl (List.mem_singleton.mp hos)))
  · rw [hrun]
    exact failsOnly_ok _ _

end Document

end TitleClasses
