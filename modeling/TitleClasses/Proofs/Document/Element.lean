import Mathlib.Tactic.SplitIfs
import TitleClasses.Document.Element
import TitleClasses.Proofs.Text.Distinct

/-!
# Changing the classes of an element

Replacing the class entries of the logical element leaves its entries of other types, its place in the
tree and everything around it as they are. Of two replacements only the second counts, and the subject stays
the same as long as it is not itself held by class entries.
-/

namespace TitleClasses.Element

variable {e root : Element} {cf : Json} {labels : List Text}

/-- Whether the types of all entries in a tree have a property. -/
def AllTypes (P : Json → Prop) : Element → Prop
  | ⟨_, _, metadata, children⟩ => (∀ e ∈ metadata, P e.type) ∧ ∀ c ∈ children, c.AllTypes P

theorem allTypes_iff {P : Json → Prop} : e.AllTypes P ↔
    (∀ entry ∈ e.metadata, P entry.type) ∧ ∀ c ∈ e.children, c.AllTypes P := by
  obtain ⟨type, anchor, metadata, children⟩ := e
  rw [AllTypes]

theorem AllTypes.mono {P Q : Json → Prop} : ∀ {e : Element}, e.AllTypes P →
    (∀ type, P type → Q type) → e.AllTypes Q
  | ⟨_, _, metadata, children⟩, h, hpq => by
    rw [AllTypes] at h ⊢
    exact ⟨fun entry hentry => hpq _ (h.1 entry hentry), fun c hc => (h.2 c hc).mono hpq⟩

/-! ### One element -/

/-- Of entries of one type a test of types keeps all or none. -/
theorem filter_entries (p : Json → Bool) (type : Json) (values : List Text) :
    ((values.map fun v => (⟨type, v⟩ : Entry)).filter fun entry => p entry.type) =
      if p type then values.map fun v => ⟨type, v⟩ else [] := by
  split_ifs with h
  · rw [List.filter_eq_self]
    simp [h]
  · rw [List.filter_eq_nil_iff]
    simp [h]

/-- Without the entries of the type an element is the same as before they were replaced. -/
theorem removeValues_replaceValues_self :
    (e.replaceValues cf labels).removeValues cf = e.removeValues cf := by
  unfold replaceValues removeValues
  simp only [List.filter_append, List.filter_filter, Bool.and_self]
  rw [filter_entries (fun type => type ≠ cf)]
  simp

/-- Replacing values depends on nothing but what an element is without those that it had. -/
theorem replaceValues_congr {e' : Element} (h : e.removeValues cf = e'.removeValues cf) :
    e.replaceValues cf labels = e'.replaceValues cf labels := by
  show { e.removeValues cf with metadata := (e.removeValues cf).metadata ++
    (Text.sortDistinct labels).map fun v => ⟨cf, v⟩ } = e'.replaceValues cf labels
  rw [h]
  rfl

theorem replaceValues_replaceValues {earlier : List Text} :
    (e.replaceValues cf earlier).replaceValues cf labels = e.replaceValues cf labels :=
  replaceValues_congr removeValues_replaceValues_self

/-- Entries of other types are not touched. -/
theorem valuesOf_replaceValues {type : Json} (h : type ≠ cf) :
    (e.replaceValues cf labels).valuesOf type = e.valuesOf type := by
  have hnew := filter_entries (fun t => t = type) cf (Text.sortDistinct labels)
  rw [if_neg (by simpa using Ne.symm h)] at hnew
  have hold : (e.metadata.filter fun entry => entry.type ≠ cf).filter
      (fun entry => entry.type = type) = e.metadata.filter fun entry => entry.type = type := by
    rw [List.filter_filter]
    refine List.filter_congr fun entry _ => ?_
    by_cases ht : entry.type = type
    · simp [ht, h]
    · simp [ht]
  unfold valuesOf replaceValues removeValues
  rw [List.filter_append, hnew, List.append_nil, hold]

theorem subject_replaceValues {type : Json} (h : type ≠ cf) :
    (e.replaceValues cf labels).subject type = e.subject type := by
  unfold subject
  rw [valuesOf_replaceValues h]

/-- The values of the type are the given ones, each once and in increasing order. -/
theorem valuesOf_replaceValues_self :
    (e.replaceValues cf labels).valuesOf cf = Text.sortDistinct labels := by
  have hnew := filter_entries (fun t => t = cf) cf (Text.sortDistinct labels)
  rw [if_pos (decide_eq_true rfl)] at hnew
  have hold : (e.metadata.filter fun entry => entry.type ≠ cf).filter
      (fun entry => entry.type = cf) = [] := by
    rw [List.filter_filter, List.filter_eq_nil_iff]
    simp
  unfold valuesOf replaceValues removeValues
  rw [List.filter_append, hnew, hold, List.nil_append, List.map_map]
  exact List.map_id _

/-- There is one entry of the type for each value. -/
theorem countOf_replaceValues :
    (e.replaceValues cf labels).countOf cf = (Text.sortDistinct labels).length := by
  rw [← valuesOf_replaceValues_self (e := e), valuesOf, List.length_map]
  rfl

theorem allTypes_replaceValues {P : Json → Prop} (he : e.AllTypes P) (hcf : P cf) :
    (e.replaceValues cf labels).AllTypes P := by
  obtain ⟨hmetadata, hchildren⟩ := allTypes_iff.mp he
  refine allTypes_iff.mpr ⟨?_, hchildren⟩
  intro entry hentry
  rcases List.mem_append.mp hentry with hold | hnew
  · exact hmetadata entry (List.mem_filter.mp hold).1
  · obtain ⟨v, -, rfl⟩ := List.mem_map.mp hnew
    exact hcf

/-! ### The logical element -/

/-- The logical element is the one that was changed. -/
theorem logical_updateLogical :
    (root.updateLogical fun e => e.replaceValues cf labels).logical =
      root.logical.replaceValues cf labels := by
  obtain ⟨type, anchor, metadata, children⟩ := root
  cases anchor with
  | false => rfl
  | true => cases children <;> rfl

theorem updateLogical_updateLogical :
    (root.updateLogical fun e => e.replaceValues cf labels).updateLogical
        (fun e => e.replaceValues cf labels) =
      root.updateLogical fun e => e.replaceValues cf labels := by
  obtain ⟨type, anchor, metadata, children⟩ := root
  cases anchor with
  | false => exact replaceValues_replaceValues
  | true =>
    cases children with
    | nil => exact replaceValues_replaceValues
    | cons first others =>
      show Element.mk type true metadata
        ((first.replaceValues cf labels).replaceValues cf labels :: others) = _
      rw [replaceValues_replaceValues]
      rfl

theorem allTypes_updateLogical {P : Json → Prop} (hroot : root.AllTypes P) (hcf : P cf) :
    (root.updateLogical fun e => e.replaceValues cf labels).AllTypes P := by
  obtain ⟨type, anchor, metadata, children⟩ := root
  cases anchor with
  | false => exact allTypes_replaceValues hroot hcf
  | true =>
    cases children with
    | nil => exact allTypes_replaceValues hroot hcf
    | cons first others =>
      obtain ⟨hmetadata, hchildren⟩ := allTypes_iff.mp hroot
      obtain ⟨hfirst, hothers⟩ := List.forall_mem_cons.mp hchildren
      exact allTypes_iff.mpr
        ⟨hmetadata, List.forall_mem_cons.mpr ⟨allTypes_replaceValues hfirst hcf, hothers⟩⟩

end TitleClasses.Element
