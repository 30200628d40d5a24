import TitleClasses.Proofs.Document.Faults
import TitleClasses.Proofs.Document.Kept

/-!
# Which values describe elements

A value describes an element if it is an object with a type whose metadata, if there are any, are a list of
objects with a type, and whose children, if there are any, are a list of values that describe elements
(`Json.DescribesElement`); an empty text or object is as good as an empty list. Elements are read from these
values and from no others (`Element.ofJson_grammar`), by one equivalence for each part of the reader:
`Element.exists_entriesOf_iff` for the metadata, and for values, members, children and items
`Element.exists_ofJson_iff` and those beside it.
-/

namespace TitleClasses

namespace Json

/-- Whether a value has a type: it is an object with a member of that key. -/
def HasType (v : Json) : Prop := ∃ type, v.member? typeKey = some type

/-- Whether a value lists things of some kind. A text and an object list nothing if they are empty, and
things of another kind if they are not. -/
inductive ListOf (P : Json → Prop) : Json → Prop
  | emptyText : ListOf P (.text [])
  | emptyObject : ListOf P (.object [])
  | items {xs : List Json} (all : ∀ x ∈ xs, P x) : ListOf P (.list xs)

/-- Whether a value describes an element. -/
inductive DescribesElement : Json → Prop
  | object {ms : Members} (type : HasType (.object ms))
      (metadata : ∀ v, Members.get? ms metadataKey = some v → v.ListOf HasType)
      (children : ∀ v, Members.get? ms childrenKey = some v → v.ListOf DescribesElement) :
      DescribesElement (.object ms)

/-- What is listed in a value of some kind tells whether it lists things of that kind. -/
theorem listOf_list {P : Json → Prop} {xs : List Json} : ListOf P (.list xs) ↔ ∀ x ∈ xs, P x :=
  ⟨fun h => by cases h with | items all => exact all, .items⟩

/-- No text lists anything but the empty one. -/
theorem listOf_text {P : Json → Prop} {t : Text} : ListOf P (.text t) ↔ t = [] :=
  ⟨fun h => by cases h; rfl, fun h => h ▸ .emptyText⟩

/-- No object lists anything but the empty one. -/
theorem listOf_object {P : Json → Prop} {ms : Members} : ListOf P (.object ms) ↔ ms = [] :=
  ⟨fun h => by cases h; rfl, fun h => h ▸ .emptyObject⟩

theorem describesElement_object {ms : Members} : DescribesElement (.object ms) ↔
    HasType (.object ms) ∧ (∀ v, Members.get? ms metadataKey = some v → v.ListOf HasType) ∧
      ∀ v, Members.get? ms childrenKey = some v → v.ListOf DescribesElement := by
  constructor
  · rintro ⟨type, metadata, children⟩
    exact ⟨type, metadata, children⟩
  · rintro ⟨type, metadata, children⟩
    exact .object type metadata children

/-- A member that must be there is found in an object that has it, and nowhere else. -/
theorem required_eq_ok_iff {key : Text} {v value : Json} :
    v.required key = .ok value ↔ v.member? key = some value := by
  cases v with
  | object ms =>
    unfold required member?
    dsimp only
    cases Members.get? ms key <;> simp
  | _ => simp [required, member?]

/-- What a value has items of, texts being nothing of the kind, it lists. -/
theorem exists_items_iff {P : Json → Prop} (htext : ∀ t, ¬ P (.text t)) {v : Json} :
    (∃ items, v.items = .ok items ∧ ∀ item ∈ items, P item) ↔ v.ListOf P := by
  cases v with
  | list xs => simp [items, listOf_list]
  | text t => cases t <;> simp [items, listOf_text, htext]
  | object ms => cases ms <;> simp [items, listOf_object, htext]
  | _ =>
    simp only [items, reduceCtorEq, false_and, exists_false, false_iff]
    rintro ⟨⟩

end Json

namespace Element

open Json

/-! ### Metadata -/

/-- A metadata entry is read from what has a type. -/
theorem exists_entryOfJson_iff {item : Json} : (∃ e, entryOfJson item = .ok e) ↔ item.HasType := by
  unfold entryOfJson
  rw [exists_bind_eq_ok_iff]
  constructor
  · rintro ⟨type, htype, -⟩
    exact ⟨type, required_eq_ok_iff.mp htype⟩
  · rintro ⟨type, htype⟩
    refine ⟨type, required_eq_ok_iff.mpr htype, ?_⟩
    cases item with
    | object ms => exact ⟨_, rfl⟩
    | _ => cases htype

/-- The metadata of an object are read if they are a list of what has a type, or there are none. -/
theorem exists_entriesOf_iff {ms : Members} : (∃ entries, entriesOf ms = .ok entries) ↔
    ∀ v, Members.get? ms metadataKey = some v → v.ListOf HasType := by
  have htext (t : Text) : ¬ HasType (.text t) := fun h => nomatch h
  unfold entriesOf
  rw [exists_bind_eq_ok_iff]
  simp only [exists_mapM_eq_ok_iff, exists_entryOfJson_iff]
  rw [exists_items_iff htext]
  show ((Members.get? ms metadataKey).getD (.list [])).ListOf HasType ↔ _
  cases Members.get? ms metadataKey with
  | none => simp [listOf_list]
  | some v => simp

/-! ### Elements -/

mutual

/-- An element is read from what describes one. -/
theorem exists_ofJson_iff : ∀ v : Json, (∃ e, ofJson v = .ok e) ↔ v.DescribesElement
  | .object ms => by
    rw [ofJson, describesElement_object, ← exists_entriesOf_iff, ← exists_childrenIn_iff ms]
    cases htype : Members.get? ms "type" with
    | none => simp [HasType, member?, typeKey, htype]
    | some type =>
      have hthere : HasType (.object ms) := ⟨type, htype⟩
      simp only [hthere, true_and, exists_bind_eq_ok_iff]
      simp [pure, Except.pure, exists_and_right]
  | .null | .bool _ | .int _ | .float _ | .text _ | .list _ => by
    simp [ofJson]
    rintro ⟨⟩

/-- The children among the members of an object are read if they are a list of what describes an element, or
there are none. -/
theorem exists_childrenIn_iff : ∀ ms : List (Text × Json), (∃ es, childrenIn ms = .ok es) ↔
    ∀ v, Members.get? ms childrenKey = some v → v.ListOf DescribesElement
  | [] => by simp [childrenIn, Members.get?]
  | (key, v) :: ms => by
    show (∃ es, (if key = childrenKey then childrenOf v else childrenIn ms) = .ok es) ↔ _
    by_cases hk : key = childrenKey
    · subst hk
      rw [if_pos rfl, exists_childrenOf_iff v]
      simp [Members.get?, List.lookup_cons_self]
    · have hb : (childrenKey == key) = false := by simpa using Ne.symm hk
      rw [if_neg hk, exists_childrenIn_iff ms]
      simp [Members.get?, List.lookup_cons, hb]

/-- The children in a value are read if it is a list of what describes an element. -/
theorem exists_childrenOf_iff : ∀ v : Json, (∃ es, childrenOf v = .ok es) ↔ v.ListOf DescribesElement
  | .list xs => by rw [childrenOf, listOf_list, exists_elementsOf_iff xs]
  | .text t => by cases t <;> simp [childrenOf, listOf_text]
  | .object ms => by cases ms <;> simp [childrenOf, listOf_object]
  | .null | .bool _ | .int _ | .float _ => by
    simp [childrenOf]
    rintro ⟨⟩

/-- Elements are read from a list of what describes one. -/
theorem exists_elementsOf_iff : ∀ xs : List Json, (∃ es, elementsOf xs = .ok es) ↔
    ∀ x ∈ xs, DescribesElement x
  | [] => by simp [elementsOf]
  | x :: xs => by
    rw [elementsOf, exists_bind_eq_ok_iff, List.forall_mem_cons, ← exists_ofJson_iff x,
      ← exists_elementsOf_iff xs]
    simp only [exists_bind_eq_ok_iff]
    simp [pure, Except.pure, exists_and_right]

end

/-- An element is read from a value exactly if the value describes one. From any other value, wherever in it
the fault is, there comes a fault of a value, of a type or of a key. -/
theorem ofJson_grammar (v : Json) : ((∃ e, ofJson v = .ok e) ↔ v.DescribesElement) ∧
    (v.DescribesElement ∨ ∃ f, ofJson v = .error f ∧ f.family ∈ [Family.value, .type, .key]) := by
  refine ⟨exists_ofJson_iff v, ?_⟩
  rcases hread : ofJson v with f | e
  · have hfamily := failsOnly_ofJson v f hread
    exact Or.inr ⟨f, rfl, by simpa [or_comm] using hfamily⟩
  · exact Or.inl ((exists_ofJson_iff v).mp ⟨e, hread⟩)

end Element

end TitleClasses
