import Mathlib.Tactic.SplitIfs
import TitleClasses.Document.Json
import TitleClasses.Proofs.Document.Element
import TitleClasses.Proofs.Json.RoundTrip

/-!
# What is kept of a document

`kept` says of a value that describes an element what the program keeps of it: the type as a text, the
mark of an anchor, type and value of each metadata entry as texts, and the children, if there are any.
`withClasses` says of such a value what assigning classes changes in it: the class entries of the
logical element, and nothing else. Reading an element and writing it again is `kept` (`toJson_ofJson`),
and changing its class entries in between is `withClasses` (`toJson_updateLogical`).
-/

namespace TitleClasses

namespace Json

/-! ### What is kept -/

/-- A text under which a member stands in a document. -/
def typeKey : Text := "type"

/-- The key of the mark of an anchor. -/
def anchorKey : Text := "anchor"

/-- The key of the metadata of an element. -/
def metadataKey : Text := "metadata"

/-- The key of the value of a metadata entry. -/
def valueKey : Text := "value"

/-- The key of the children of an element. -/
def childrenKey : Text := "children"

/-- A metadata entry with a value of some type. -/
def entry (type : Json) (value : Text) : Json := .object [(typeKey, type), (valueKey, .text value)]

/-- The member of an object, if it has one of the key. -/
def member? (key : Text) : Json → Option Json
  | .object ms => Members.get? ms key
  | _ => none

/-- The items of a list; a value of another kind has none. -/
def listed : Json → List Json
  | .list xs => xs
  | _ => []

/-- What is kept of a metadata entry: its type and its value, as texts. -/
def keptEntry (item : Json) : Json :=
  entry (.text ((item.member? typeKey).getD .null).display)
    ((item.member? valueKey).getD (.text [])).display

/-- What is kept of an element, its children being kept already. -/
def keptObject (ms : Members) (children : List Json) : Json :=
  .object (
    [(typeKey, .text ((Members.get? ms typeKey).getD .null).display)] ++
    (if ((Members.get? ms anchorKey).getD (.bool false)).holds then [(anchorKey, .bool true)] else []) ++
    [(metadataKey, .list ((((Members.get? ms metadataKey).getD (.list [])).listed).map keptEntry))] ++
    (if children.isEmpty then [] else [(childrenKey, .list children)]))

mutual

/-- What is kept of a value that describes an element. -/
def kept : Json → Json
  | .object ms => keptObject ms (keptIn ms)
  | v => v

/-- What is kept of the children among the members of an object. -/
def keptIn : List (Text × Json) → List Json
  | [] => []
  | (key, v) :: ms => if key = childrenKey then keptOf v else keptIn ms

/-- What is kept of the children that a value lists. -/
def keptOf : Json → List Json
  | .list xs => keptItems xs
  | _ => []

/-- What is kept of the items of a list. -/
def keptItems : List Json → List Json
  | [] => []
  | x :: xs => kept x :: keptItems xs

end

/-! ### What assigning classes changes -/

/-- An object with the value of a key changed. -/
def updateMember (key : Text) (f : Json → Json) : Json → Json
  | .object ms => .object (ms.map fun m => if m.1 = key then (m.1, f m.2) else m)
  | v => v

/-- A list of metadata entries without those of a type, and with one for each label after all others. -/
def replaceEntries (type : Json) (labels : List Text) (entries : List Json) : List Json :=
  (entries.filter fun e => e.member? typeKey ≠ some type) ++ labels.map (entry type)

/-- An element whose entries of a type are replaced by one for each label. -/
def replaceClasses (type : Json) (labels : List Text) : Json → Json :=
  updateMember metadataKey fun v => .list (replaceEntries type labels v.listed)

/-- A document whose logical element is changed: the first child of an anchor that has children, and the
root of any other document. -/
def updateLogical (f : Json → Json) (root : Json) : Json :=
  match ((root.member? anchorKey).getD (.bool false)).holds,
      ((root.member? childrenKey).getD (.list [])).listed with
  | true, first :: others => updateMember childrenKey (fun _ => .list (f first :: others)) root
  | _, _ => f root

/-- A document in whose logical element the entries of a type are replaced by one for each label. -/
def withClasses (root type : Json) (labels : List Text) : Json :=
  root.updateLogical (replaceClasses type labels)

end Json

namespace Element

open Json

/-! ### Reading and writing an element -/

theorem entryOfJson_ok {item : Json} {e : Entry} (h : entryOfJson item = .ok e) :
    entryToJson e = keptEntry item ∧ ∃ t, e.type = .text t := by
  unfold entryOfJson at h
  cases item with
  | object ms =>
    cases ht : Members.get? ms "type" with
    | none => simp [required, ht, bind, Except.bind] at h
    | some type =>
      simp only [required, ht, member, membersFor, bind, Except.bind, Except.map, pure,
        Except.pure] at h
      obtain rfl := Except.ok.inj h
      refine ⟨?_, _, rfl⟩
      have htype : (object ms).member? typeKey = some type := ht
      rw [keptEntry, htype]
      rfl
  | null => simp [required, bind, Except.bind] at h
  | bool b => simp [required, bind, Except.bind] at h
  | int n => simp [required, bind, Except.bind] at h
  | float x => simp [required, bind, Except.bind] at h
  | text t => simp [required, bind, Except.bind] at h
  | list xs => simp [required, bind, Except.bind] at h

theorem mapM_entryOfJson_ok {items : List Json} {entries : List Entry}
    (h : items.mapM entryOfJson = .ok entries) :
    entries.map entryToJson = items.map keptEntry ∧ ∀ e ∈ entries, ∃ t, e.type = .text t := by
  induction items generalizing entries with
  | nil =>
    obtain rfl := Except.ok.inj h
    exact ⟨rfl, by simp⟩
  | cons item items ih =>
    rw [List.mapM_cons] at h
    cases he : entryOfJson item with
    | error f => simp [he, bind, Except.bind] at h
    | ok e =>
      cases hes : items.mapM entryOfJson with
      | error f => simp [he, hes, bind, Except.bind] at h
      | ok es =>
        simp only [he, hes, bind, Except.bind, pure, Except.pure] at h
        obtain rfl := Except.ok.inj h
        obtain ⟨hkept, htype⟩ := entryOfJson_ok he
        obtain ⟨hkepts, htypes⟩ := ih hes
        exact ⟨by rw [List.map_cons, List.map_cons, hkept, hkepts],
          List.forall_mem_cons.mpr ⟨htype, htypes⟩⟩

/-- The metadata of an object are the items of a list, or there are none. -/
theorem entriesOf_ok {ms : Members} {entries : List Entry} (h : entriesOf ms = .ok entries) :
    entries.map entryToJson = (((Members.get? ms metadataKey).getD (.list [])).listed).map keptEntry ∧
      ∀ e ∈ entries, ∃ t, e.type = .text t := by
  -- A text or an object in the place of the list has items only if it is not empty, and these are texts.
  have hnone {item : Json} (hi : ∀ us, item ≠ .object us) (e : Entry) : entryOfJson item ≠ .ok e := by
    intro he
    unfold entryOfJson at he
    cases item with
    | object us => exact hi us rfl
    | _ => simp [required, bind, Except.bind] at he
  change (((Members.get? ms metadataKey).getD (.list [])).items >>= fun items =>
    items.mapM entryOfJson) = .ok entries at h
  cases hv : (Members.get? ms metadataKey).getD (.list []) with
  | list xs =>
    rw [hv] at h
    exact mapM_entryOfJson_ok h
  | text t =>
    rw [hv] at h
    cases t with
    | nil =>
      obtain rfl := Except.ok.inj h
      exact ⟨rfl, by simp⟩
    | cons c r =>
      simp only [items, List.map_cons, bind, Except.bind, List.mapM_cons] at h
      cases he : entryOfJson (.text [c]) with
      | ok e => exact absurd he (hnone (by simp) e)
      | error f => simp [he] at h
  | object us =>
    rw [hv] at h
    cases us with
    | nil =>
      obtain rfl := Except.ok.inj h
      exact ⟨rfl, by simp⟩
    | cons m us =>
      simp only [items, List.map_cons, bind, Except.bind, List.mapM_cons] at h
      cases he : entryOfJson (.text m.1) with
      | ok e => exact absurd he (hnone (by simp) e)
      | error f => simp [he] at h
  | null => simp [hv, items, bind, Except.bind] at h
  | bool b => simp [hv, items, bind, Except.bind] at h
  | int n => simp [hv, items, bind, Except.bind] at h
  | float x => simp [hv, items, bind, Except.bind] at h

/-- Whether all entries in a tree have texts as their types, as those have that were read. -/
def TextTypes : Element → Prop := AllTypes fun type => ∃ t, type = .text t

mutual

/-- An element that was read is written as what is kept of the value. -/
theorem toJson_ofJson : ∀ (v : Json) (e : Element), ofJson v = .ok e →
    e.toJson = v.kept ∧ e.TextTypes
  | .object ms, e, h => by
    rw [ofJson] at h
    cases ht : Members.get? ms "type" with
    | none => simp [ht] at h
    | some type =>
      simp only [ht] at h
      cases hm : entriesOf ms with
      | error f => simp [hm, bind, Except.bind] at h
      | ok metadata =>
        cases hc : childrenIn ms with
        | error f => simp [hm, hc, bind, Except.bind] at h
        | ok children =>
          simp only [hm, hc, bind, Except.bind, pure, Except.pure] at h
          obtain rfl := Except.ok.inj h
          obtain ⟨hkept, htypes⟩ := entriesOf_ok hm
          obtain ⟨hbelow, htexts⟩ := toJsonAll_childrenIn ms children hc
          refine ⟨?_, ?_⟩
          · have htype : Members.get? ms typeKey = some type := ht
            rw [toJson, toObject, hbelow, hkept, kept, keptObject, htype]
            rfl
          · rw [TextTypes, AllTypes]
            exact ⟨htypes, htexts⟩
  | .null, e, h => by simp [ofJson] at h
  | .bool b, e, h => by simp [ofJson] at h
  | .int n, e, h => by simp [ofJson] at h
  | .float x, e, h => by simp [ofJson] at h
  | .text t, e, h => by simp [ofJson] at h
  | .list xs, e, h => by simp [ofJson] at h

theorem toJsonAll_childrenIn : ∀ (ms : List (Text × Json)) (es : List Element),
    childrenIn ms = .ok es → toJsonAll es = keptIn ms ∧ ∀ e ∈ es, e.TextTypes
  | [], es, h => by
    obtain rfl := Except.ok.inj h
    exact ⟨rfl, by simp⟩
  | (key, v) :: ms, es, h => by
    change (if key = childrenKey then childrenOf v else childrenIn ms) = .ok es at h
    rw [keptIn]
    split_ifs at h ⊢ with hk
    · exact toJsonAll_childrenOf v es h
    · exact toJsonAll_childrenIn ms es h

theorem toJsonAll_childrenOf : ∀ (v : Json) (es : List Element),
    childrenOf v = .ok es → toJsonAll es = keptOf v ∧ ∀ e ∈ es, e.TextTypes
  | .list xs, es, h => toJsonAll_elementsOf xs es h
  | .text t, es, h => by
    rw [childrenOf] at h
    split_ifs at h
    obtain rfl := Except.ok.inj h
    exact ⟨rfl, by simp⟩
  | .object ms, es, h => by
    rw [childrenOf] at h
    split_ifs at h
    obtain rfl := Except.ok.inj h
    exact ⟨rfl, by simp⟩
  | .null, es, h => by simp [childrenOf] at h
  | .bool b, es, h => by simp [childrenOf] at h
  | .int n, es, h => by simp [childrenOf] at h
  | .float x, es, h => by simp [childrenOf] at h

theorem toJsonAll_elementsOf : ∀ (xs : List Json) (es : List Element),
    elementsOf xs = .ok es → toJsonAll es = keptItems xs ∧ ∀ e ∈ es, e.TextTypes
  | [], es, h => by
    obtain rfl := Except.ok.inj h
    exact ⟨rfl, by simp⟩
  | x :: xs, es, h => by
    rw [elementsOf] at h
    cases hx : ofJson x with
    | error f => simp [hx, bind, Except.bind] at h
    | ok e =>
      cases hxs : elementsOf xs with
      | error f => simp [hx, hxs, bind, Except.bind] at h
      | ok es' =>
        simp only [hx, hxs, bind, Except.bind, pure, Except.pure] at h
        obtain rfl := Except.ok.inj h
        obtain ⟨hkept, htype⟩ := toJson_ofJson x e hx
        obtain ⟨hkepts, htypes⟩ := toJsonAll_elementsOf xs es' hxs
        exact ⟨by rw [toJsonAll, keptItems, hkept, hkepts],
          List.forall_mem_cons.mpr ⟨htype, htypes⟩⟩

end

/-! ### The members of a written element -/

/-- The members of a written element. -/
def membersOf (type : Text) (anchor : Bool) (metadata : List Entry) (children : List Json) : Members :=
  [(typeKey, Json.text type)] ++ (if anchor then [(anchorKey, .bool true)] else []) ++
    [(metadataKey, .list (metadata.map entryToJson))] ++
    (if children.isEmpty then [] else [(childrenKey, .list children)])

theorem toObject_eq (type : Text) (anchor : Bool) (metadata : List Entry) (children : List Json) :
    toObject type anchor metadata children = .object (membersOf type anchor metadata children) := rfl

section Members

variable (type : Text) (anchor : Bool) (metadata : List Entry) (children : List Json)

theorem get?_type :
    Members.get? (membersOf type anchor metadata children) typeKey = some (.text type) := rfl

theorem get?_anchor : ((Members.get? (membersOf type anchor metadata children) anchorKey).getD
    (.bool false)).holds = anchor := by
  cases anchor <;> cases children <;> rfl

theorem get?_metadata : Members.get? (membersOf type anchor metadata children) metadataKey =
    some (.list (metadata.map entryToJson)) := by
  cases anchor <;> cases children <;> rfl

theorem get?_children : ((Members.get? (membersOf type anchor metadata children) childrenKey).getD
    (.list [])).listed = children := by
  cases anchor <;> cases children <;> rfl

theorem childrenIn_membersOf : childrenIn (membersOf type anchor metadata children) =
    elementsOf children := by
  cases anchor <;> cases children <;> rfl

theorem keys_membersOf : ((membersOf type anchor metadata children).map Prod.fst).Nodup := by
  have hall : [typeKey, anchorKey, metadataKey, childrenKey].Nodup := by decide
  have hsub : ((membersOf type anchor metadata children).map Prod.fst).Sublist
      [typeKey, anchorKey, metadataKey, childrenKey] := by
    cases anchor <;> cases children <;> simp [membersOf]
  exact hall.sublist hsub

end Members

/-! ### Reading what was written -/

theorem mapM_entryOfJson_toJson {entries : List Entry} (h : ∀ e ∈ entries, ∃ t, e.type = .text t) :
    (entries.map entryToJson).mapM entryOfJson = .ok entries := by
  induction entries with
  | nil => rfl
  | cons e entries ih =>
    obtain ⟨⟨t, ht⟩, hes⟩ := List.forall_mem_cons.mp h
    have he : entryOfJson (entryToJson e) = .ok e := by
      obtain ⟨type, value⟩ := e
      obtain rfl : type = .text t := ht
      rfl
    rw [List.map_cons, List.mapM_cons, he, ih hes]
    rfl

mutual

/-- An element all of whose types are texts is read back as it was. -/
theorem ofJson_toJson : ∀ e : Element, e.TextTypes → ofJson e.toJson = .ok e
  | ⟨type, anchor, metadata, children⟩, h => by
    rw [TextTypes, AllTypes] at h
    have hmetadata : entriesOf (membersOf type anchor metadata (toJsonAll children)) =
        .ok metadata := by
      change (((Members.get? (membersOf type anchor metadata (toJsonAll children)) metadataKey).getD
        (.list [])).items >>= fun items => items.mapM entryOfJson) = _
      rw [get?_metadata]
      exact mapM_entryOfJson_toJson h.1
    have htype : Members.get? (membersOf type anchor metadata (toJsonAll children)) "type" =
        some (.text type) := get?_type ..
    have hanchor : ((Members.get? (membersOf type anchor metadata (toJsonAll children)) "anchor").getD
        (.bool false)).holds = anchor := get?_anchor ..
    rw [toJson, toObject_eq, ofJson, htype]
    simp only [hmetadata, childrenIn_membersOf, elementsOf_toJsonAll children h.2, hanchor, bind,
      Except.bind, pure, Except.pure]
    rfl

theorem elementsOf_toJsonAll : ∀ es : List Element, (∀ e ∈ es, e.TextTypes) →
    elementsOf (toJsonAll es) = .ok es
  | [], _ => rfl
  | e :: es, h => by
    obtain ⟨he, hes⟩ := List.forall_mem_cons.mp h
    rw [toJsonAll, elementsOf, ofJson_toJson e he, elementsOf_toJsonAll es hes]
    rfl

end

/-! ### Changing the classes of what was written -/

/-- The metadata of a written element are changed in their place. -/
theorem replaceClasses_toObject (cf : Json) (labels : List Text) (type : Text) (anchor : Bool)
    (metadata : List Entry) (children : List Json) :
    replaceClasses cf labels (toObject type anchor metadata children) =
      toObject type anchor
        ((metadata.filter fun e : Entry => e.type ≠ cf) ++ labels.map fun l => (⟨cf, l⟩ : Entry))
        children := by
  have hentries : replaceEntries cf labels (metadata.map entryToJson) =
      ((metadata.filter fun e : Entry => e.type ≠ cf) ++
        labels.map fun l => (⟨cf, l⟩ : Entry)).map entryToJson := by
    unfold replaceEntries
    rw [List.map_append, List.map_map, List.filter_map]
    congr 2
    refine List.filter_congr fun e _ => ?_
    show (decide ((entryToJson e).member? typeKey ≠ some cf)) = decide (e.type ≠ cf)
    have htype : (entryToJson e).member? typeKey = some e.type := rfl
    rw [htype]
    simp
  rw [toObject_eq, toObject_eq]
  unfold replaceClasses updateMember
  unfold membersOf
  rw [← hentries]
  cases anchor <;> cases children <;> rfl

theorem updateChildren_toObject (cs : List Json) (type : Text) (anchor : Bool)
    (metadata : List Entry) (c : Json) (children : List Json) (hcs : cs ≠ []) :
    updateMember childrenKey (fun _ => .list cs) (toObject type anchor metadata (c :: children)) =
      toObject type anchor metadata cs := by
  obtain ⟨d, ds, rfl⟩ := List.exists_cons_of_ne_nil hcs
  cases anchor <;> rfl

/-- Replacing the class entries of the logical element and writing is the same as writing and replacing
them in what is written. -/
theorem toJson_updateLogical (root : Element) (cf : Json) (labels : List Text) :
    (root.updateLogical fun e => e.replaceValues cf labels).toJson =
      root.toJson.withClasses cf (Text.sortDistinct labels) := by
  have hreplace (e : Element) : (e.replaceValues cf labels).toJson =
      replaceClasses cf (Text.sortDistinct labels) e.toJson := by
    obtain ⟨type, anchor, metadata, children⟩ := e
    rw [toJson, replaceClasses_toObject]
    rfl
  obtain ⟨type, anchor, metadata, children⟩ := root
  have hroot : toJson ⟨type, anchor, metadata, children⟩ =
      .object (membersOf type anchor metadata (toJsonAll children)) := by rw [toJson, toObject_eq]
  have hanchor : (((toJson ⟨type, anchor, metadata, children⟩).member? anchorKey).getD
      (.bool false)).holds = anchor := by
    rw [hroot]
    exact get?_anchor ..
  have hchildren : (((toJson ⟨type, anchor, metadata, children⟩).member? childrenKey).getD
      (.list [])).listed = toJsonAll children := by
    rw [hroot]
    exact get?_children ..
  unfold withClasses Json.updateLogical
  rw [hanchor, hchildren]
  -- The logical element of an anchor is its first child, if it has one.
  cases anchor with
  | false => exact hreplace _
  | true =>
    cases children with
    | nil => exact hreplace _
    | cons first others =>
      show toJson ⟨type, true, metadata, first.replaceValues cf labels :: others⟩ = _
      rw [toJson, toJsonAll, hreplace, toJsonAll]
      show _ = updateMember childrenKey _ (toJson ⟨type, true, metadata, first :: others⟩)
      rw [toJson, toJsonAll, updateChildren_toObject _ _ _ _ _ _ (by simp)]

/-! ### Written elements can be read back -/

theorem readable_entries {entries : List Entry} (h : ∀ e ∈ entries, Readable false e.type) :
    ReadableItems false (entries.map entryToJson) := by
  induction entries with
  | nil => trivial
  | cons e entries ih =>
    obtain ⟨he, hes⟩ := List.forall_mem_cons.mp h
    have hkeys : [typeKey, valueKey].Nodup := by decide
    exact ⟨⟨hkeys, by simp, he, by simp, by simp [Readable], trivial⟩, ih hes⟩

mutual

/-- What is written for an element can be read back if the types of its entries can. -/
theorem readable_toJson : ∀ e : Element, e.AllTypes (Readable false) → Readable false e.toJson
  | ⟨type, anchor, metadata, children⟩, h => by
    rw [AllTypes] at h
    have hmetadata := readable_entries h.1
    have hchildren := readable_toJsonAll children h.2
    have htext (t : Text) : Readable false (.text t) := by simp [Readable]
    have hfree {k : Text} : false = true → k.Unpaired := by simp
    rw [toJson, toObject_eq, Readable]
    refine ⟨keys_membersOf .., ?_⟩
    unfold membersOf
    cases anchor <;> cases hc : toJsonAll children with
      | nil => exact ⟨hfree, htext type, by simp_all [ReadableMembers, Readable]⟩
      | cons c cs => exact ⟨hfree, htext type, by simp_all [ReadableMembers, Readable]⟩

theorem readable_toJsonAll : ∀ es : List Element, (∀ e ∈ es, e.AllTypes (Readable false)) →
    ReadableItems false (toJsonAll es)
  | [], _ => trivial
  | e :: es, h => by
    obtain ⟨he, hes⟩ := List.forall_mem_cons.mp h
    exact ⟨readable_toJson e he, readable_toJsonAll es hes⟩

end

end Element

end TitleClasses
