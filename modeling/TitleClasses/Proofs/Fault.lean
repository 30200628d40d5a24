import TitleClasses.Json.Shape
import TitleClasses.Proofs.Action
import TitleClasses.Proofs.Files.Reading

/-!
# Which faults a computation can have

`Gives x Q` says that a computation gives an answer, with a property, and `FailsOnly families x` that it
fails with faults of certain families or not at all. Both are proved along the computation: nothing but
its parts can make it fail (`Gives.bind`, `FailsOnly.bind`), and each part is asked only for the values
that the parts before it can give. The second half tells the families of the accesses to values of any
shape and of reading a file.
-/

namespace TitleClasses

variable {ε α β : Type} {families more : List Family}

/-! ### Answers -/

/-- Whether a computation gives an answer, with a property. -/
def Gives (x : Except ε α) (Q : α → Prop) : Prop := ∃ a, x = .ok a ∧ Q a

theorem gives_ok {Q : α → Prop} {a : α} (h : Q a) : Gives (.ok a : Except ε α) Q := ⟨a, rfl, h⟩

namespace Gives

theorem bind {x : Except ε α} {g : α → Except ε β} {Q : α → Prop} {R : β → Prop}
    (hx : Gives x Q) (hg : ∀ a, Q a → Gives (g a) R) : Gives (x >>= g) R := by
  obtain ⟨a, rfl, ha⟩ := hx
  exact hg a ha

theorem mapM {g : α → Except ε β} {Q : β → Prop} (xs : List α) (hg : ∀ x ∈ xs, Gives (g x) Q) :
    Gives (xs.mapM g) fun ys => ∀ y ∈ ys, Q y := by
  induction xs with
  | nil => exact gives_ok (List.forall_mem_nil Q)
  | cons x xs ih =>
    obtain ⟨hx, hxs⟩ := List.forall_mem_cons.mp hg
    rw [List.mapM_cons]
    refine hx.bind fun y hy => ?_
    exact (ih hxs).bind fun ys hys => gives_ok (List.forall_mem_cons.mpr ⟨hy, hys⟩)

end Gives

/-- A computation answers with `b` if its first part has an answer for which the second one has `b`. -/
theorem bind_eq_ok_iff {x : Except ε α} {g : α → Except ε β} {b : β} :
    x >>= g = .ok b ↔ ∃ a, x = .ok a ∧ g a = .ok b := by
  cases x <;> simp [bind, Except.bind]

/-- A computation has an answer if its first part has one for which the second has one. -/
theorem exists_bind_eq_ok_iff {x : Except ε α} {g : α → Except ε β} :
    (∃ b, x >>= g = .ok b) ↔ ∃ a, x = .ok a ∧ ∃ b, g a = .ok b := by
  cases x <;> simp [bind, Except.bind]

/-- Computations for the items of a list have answers together if each of them has one. -/
theorem exists_mapM_eq_ok_iff {g : α → Except ε β} {xs : List α} :
    (∃ ys, xs.mapM g = .ok ys) ↔ ∀ x ∈ xs, ∃ y, g x = .ok y := by
  induction xs with
  | nil => simp [pure, Except.pure]
  | cons x xs ih =>
    rw [List.mapM_cons, exists_bind_eq_ok_iff, List.forall_mem_cons, ← ih]
    constructor
    · rintro ⟨y, hy, hrest⟩
      obtain ⟨ys, hys, -⟩ := exists_bind_eq_ok_iff.mp hrest
      exact ⟨⟨y, hy⟩, ys, hys⟩
    · rintro ⟨⟨y, hy⟩, ys, hys⟩
      exact ⟨y, hy, exists_bind_eq_ok_iff.mpr ⟨ys, hys, y :: ys, rfl⟩⟩

/-! ### Faults -/

/-- Whether a computation fails with faults of certain families only. -/
def FailsOnly (families : List Family) (x : Except Fault α) : Prop :=
  ∀ f, x = .error f → f.family ∈ families

theorem failsOnly_ok (families : List Family) (a : α) : FailsOnly families (.ok a) :=
  fun _ h => nomatch h

theorem failsOnly_error {f : Fault} (h : f.family ∈ families) :
    FailsOnly families (.error f : Except Fault α) := by
  rintro g hg
  obtain rfl := Except.error.inj hg
  exact h

/-- The family of the fault that a computation fails with, if it fails. -/
def familyIn (x : Except Fault α) : Option Family :=
  match x with
  | .ok _ => none
  | .error f => some f.family

namespace FailsOnly

theorem mono {x : Except Fault α} (h : FailsOnly families x) (hsub : families ⊆ more) :
    FailsOnly more x :=
  fun f hf => hsub (h f hf)

/-- A computation fails with its first part, or with the second for what the first has given. -/
theorem bind {x : Except Fault α} {g : α → Except Fault β} (hx : FailsOnly families x)
    (hg : ∀ a, x = .ok a → FailsOnly families (g a)) : FailsOnly families (x >>= g) := by
  intro f hf
  cases h : x with
  | error e =>
    rw [h] at hf
    obtain rfl : e = f := Except.error.inj hf
    exact hx e h
  | ok a =>
    rw [h] at hf
    exact hg a h f hf

theorem map {x : Except Fault α} (g : α → β) (hx : FailsOnly families x) :
    FailsOnly families (x.map g) := by
  intro f hf
  cases h : x with
  | error e =>
    rw [h] at hf
    obtain rfl : e = f := Except.error.inj hf
    exact hx e h
  | ok a =>
    rw [h] at hf
    cases hf

theorem mapM {g : α → Except Fault β} (xs : List α) (hg : ∀ x ∈ xs, FailsOnly families (g x)) :
    FailsOnly families (xs.mapM g) := by
  induction xs with
  | nil => exact failsOnly_ok families []
  | cons x xs ih =>
    obtain ⟨hx, hxs⟩ := List.forall_mem_cons.mp hg
    rw [List.mapM_cons]
    refine hx.bind fun y _ => ?_
    exact (ih hxs).bind fun ys _ => failsOnly_ok families (y :: ys)

/-- An action fails with its first part, or with the second where the first has left off. -/
theorem bind_run {σ : Type} {a : Action σ α} {b : α → Action σ β} {s : σ}
    (ha : FailsOnly families (a.run s).result)
    (hb : ∀ x, (a.run s).result = .ok x → FailsOnly families ((b x).run (a.run s).state).result) :
    FailsOnly families ((a >>= b).run s).result := by
  cases h : (a.run s).result with
  | error f =>
    rw [Action.run_bind_error h]
    exact failsOnly_error (ha f h)
  | ok x =>
    rw [Action.run_bind_ok h]
    exact hb x h

end FailsOnly

/-! ### Values of any shape -/

namespace Json

/-- Whether a value can be a key: it is no list and no object. -/
def IsKey (v : Json) : Prop := v.asKey = .ok v

theorem isKey_text (t : Text) : (Json.text t).IsKey := rfl

/-- A member can be asked of any object. -/
theorem member_object (ms : Members) (key : Text) (default : Json) :
    (Json.object ms).member key default = .ok ((ms.get? key).getD default) := rfl

/-- The items of a value that has none are asked in vain. -/
theorem failsOnly_items (v : Json) : FailsOnly [.type] v.items := by
  cases v with
  | list xs => exact failsOnly_ok _ _
  | text t => exact failsOnly_ok _ _
  | object ms => exact failsOnly_ok _ _
  | _ => exact failsOnly_error (List.mem_singleton_self _)

/-- A member that must be there is in an object, if it is anywhere. -/
theorem failsOnly_required (key : Text) (v : Json) : FailsOnly [.key, .type] (v.required key) := by
  cases v with
  | object ms =>
    unfold required
    dsimp only
    cases Members.get? ms key with
    | some v => exact failsOnly_ok _ _
    | none => exact failsOnly_error List.mem_cons_self
  | _ => exact failsOnly_error (by simp [Fault.family, ShapeFault.family])

theorem object_of_required {key : Text} {v value : Json} (h : v.required key = .ok value) :
    ∃ ms, v = .object ms := by
  cases v with
  | object ms => exact ⟨ms, rfl⟩
  | _ => cases h

end Json

/-! ### Reading a file -/

namespace Files

variable {fs : Files} {path : Path}

theorem failsOnly_exists (fs : Files) (path : Path) : FailsOnly [.os] (fs.exists? path) := by
  unfold exists?
  split
  · exact failsOnly_ok _ _
  · exact failsOnly_error (List.mem_singleton_self _)
  · exact failsOnly_ok _ _

theorem failsOnly_readBytes (fs : Files) (path : Path) : FailsOnly [.os] (fs.readBytes path) := by
  unfold readBytes
  split
  · exact failsOnly_error (List.mem_singleton_self _)
  · exact failsOnly_error (List.mem_singleton_self _)
  · exact failsOnly_ok _ _
  · exact failsOnly_ok _ _

theorem failsOnly_readText (fs : Files) (path : Path) : FailsOnly [.os, .value] (fs.readText path) := by
  have hbytes : FailsOnly [.os, .value] (fs.readBytes path) :=
    (failsOnly_readBytes fs path).mono (by simp)
  unfold readText
  cases h : fs.readBytes path with
  | error f => exact failsOnly_error (hbytes f h)
  | ok bytes =>
    dsimp only
    split
    · exact failsOnly_error (by simp [Fault.family])
    · exact failsOnly_ok _ _

/-- Whether no text at a path is nested deeper than the reader goes. -/
def NotTooDeep (fs : Files) (path : Path) : Prop :=
  ∀ deep, fs.readJson path ≠ .error (.unreadable (.tooDeep deep))

theorem notTooDeep_of_readJson {v : Json} (h : fs.readJson path = .ok v) : fs.NotTooDeep path := by
  intro deep hdeep
  cases h.symm.trans hdeep

/-- Whether a text is nested too deeply is told by its bytes. -/
theorem NotTooDeep.congr {fs' : Files} (h : fs.NotTooDeep path)
    (hsame : (fs'.readBytes path).toOption = (fs.readBytes path).toOption) : fs'.NotTooDeep path := by
  intro deep hdeep
  obtain ⟨bytes, hread'⟩ := readBytes_of_unreadable hdeep
  rcases hread : fs.readBytes path with f | bytes'
  · rw [hread, hread'] at hsame
    cases hsame
  rw [hread, hread'] at hsame
  obtain rfl : bytes = bytes' := Option.some.inj hsame
  exact h deep ((readJson_congr (hread.trans hread'.symm)).trans hdeep)

/-- A value that is not nested too deeply is read, or the file or its text is at fault. -/
theorem failsOnly_readJson (h : fs.NotTooDeep path) : FailsOnly [.os, .value] (fs.readJson path) := by
  intro f hf
  cases ht : fs.readText path with
  | error g =>
    unfold readJson at hf
    rw [ht] at hf
    obtain rfl : g = f := Except.error.inj hf
    exact failsOnly_readText fs path g ht
  | ok t =>
    have hjson := readJson_of_readText ht
    rw [hf] at hjson
    cases hv : Json.read t with
    | ok v =>
      rw [hv] at hjson
      cases hjson
    | error e =>
      rw [hv] at hjson
      obtain rfl : f = .unreadable e := Except.error.inj hjson
      cases e with
      | tooDeep deep => exact absurd hf (h deep)
      | _ => simp [Fault.family]

end Files

end TitleClasses
