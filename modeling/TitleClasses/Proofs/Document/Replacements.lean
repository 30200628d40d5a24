import Mathlib.Data.List.Basic
import Mathlib.Data.List.Induction
import TitleClasses.Proofs.Document.Element

/-!
# Replacing values again and again

Each replacement of the values of a type leaves everything else of an element as it was (`replaces`). What
an element is without the entries of a type carries several of them: what comes after a replacement of that
type depends on nothing else (`removeValues_replaceAll`), so that the next one of the type overrides it
completely, whatever is replaced between them (`replaceAll_overrides`). The values of each type in the end
are those of its last replacement (`valuesOf_replaceAll`).
-/

namespace TitleClasses

/-- A replacement to be made: a type, and the values that it is to have. -/
structure Replacement where
  type : Json
  values : List Text

/-- The values of the last replacement of a type, if there is one. -/
def Replacement.last? (type : Json) (steps : List Replacement) : Option (List Text) :=
  (steps.filter fun step => step.type = type).getLast?.map Replacement.values

namespace Element

variable {e e' : Element} {type : Json} {values : List Text} {steps : List Replacement}

/-- The element after replacements, one after another. -/
def replaceAll (e : Element) (steps : List Replacement) : Element :=
  steps.foldl (fun e step => e.replaceValues step.type step.values) e

/-! ### One replacement -/

/-- Whether an element is another one with the values of a type replaced: the old entries of other types in
their old order, and behind them one entry of the type for each of the values, which are in increasing order.
Nothing else of it is touched. -/
structure Replaces (e : Element) (type : Json) (values : List Text) (e' : Element) : Prop where
  metadata : e'.metadata = (e.metadata.filter fun entry => entry.type ≠ type) ++
    (e'.valuesOf type).map fun value => ⟨type, value⟩
  increasing : Text.Increasing (e'.valuesOf type)
  mem_values : ∀ value, value ∈ e'.valuesOf type ↔ value ∈ values
  others : ∀ other, other ≠ type → e'.valuesOf other = e.valuesOf other ∧ e'.subject other = e.subject other
  frame : e'.type = e.type ∧ e'.anchor = e.anchor ∧ e'.children = e.children

theorem replaces (e : Element) (type : Json) (values : List Text) :
    Replaces e type values (e.replaceValues type values) where
  metadata := by
    rw [valuesOf_replaceValues_self]
    rfl
  increasing := by
    rw [valuesOf_replaceValues_self]
    exact Text.sortDistinct_increasing values
  mem_values value := by rw [valuesOf_replaceValues_self, Text.mem_sortDistinct]
  others _ h := ⟨valuesOf_replaceValues h, subject_replaceValues h⟩
  frame := ⟨rfl, rfl, rfl⟩

/-- The entries of a type are as many as are missing without them. -/
theorem countOf_eq_sub (e : Element) (type : Json) :
    e.countOf type = e.metadata.length - (e.removeValues type).metadata.length := by
  have hsplit := e.metadata.length_eq_length_filter_add fun entry => entry.type = type
  have hrest : (e.removeValues type).metadata =
      e.metadata.filter fun entry => !decide (entry.type = type) := by
    unfold removeValues
    simp only [ne_eq, decide_not]
  rw [hrest]
  unfold countOf
  omega

/-! ### Several replacements -/

theorem replaceAll_append (e : Element) (before after : List Replacement) :
    e.replaceAll (before ++ after) = (e.replaceAll before).replaceAll after :=
  List.foldl_append

theorem replaceAll_concat (e : Element) (steps : List Replacement) (step : Replacement) :
    e.replaceAll (steps ++ [step]) = (e.replaceAll steps).replaceValues step.type step.values :=
  replaceAll_append e steps [step]

/-- The entries of a type can be taken away before those of another one are replaced or after that. -/
theorem removeValues_replaceValues {other : Json} (h : other ≠ type) :
    (e.replaceValues other values).removeValues type = (e.removeValues type).replaceValues other values := by
  have hnew := filter_entries (fun t => t ≠ type) other (Text.sortDistinct values)
  rw [if_pos (decide_eq_true h)] at hnew
  unfold replaceValues removeValues
  simp only [List.filter_append, hnew]
  rw [List.filter_comm]

/-- Elements that are the same without the entries of a type stay so when values are replaced, be it those
of the type or of another one. -/
theorem removeValues_step (h : e.removeValues type = e'.removeValues type) (step : Replacement) :
    (e.replaceValues step.type step.values).removeValues type =
      (e'.replaceValues step.type step.values).removeValues type := by
  by_cases hstep : step.type = type
  · subst hstep
    rw [removeValues_replaceValues_self, removeValues_replaceValues_self, h]
  · rw [removeValues_replaceValues hstep, removeValues_replaceValues hstep, h]

theorem removeValues_replaceAll (h : e.removeValues type = e'.removeValues type) (steps : List Replacement) :
    (e.replaceAll steps).removeValues type = (e'.replaceAll steps).removeValues type := by
  induction steps generalizing e e' with
  | nil => exact h
  | cons step steps ih => exact ih (removeValues_step h step)

/-- Of a replacement nothing is left after a later one of its type. -/
theorem replaceAll_overrides (e : Element) (type : Json) (earlier : List Text) (between : List Replacement)
    (later : List Text) : ((e.replaceValues type earlier).replaceAll between).replaceValues type later =
      (e.replaceAll between).replaceValues type later :=
  replaceValues_congr (removeValues_replaceAll removeValues_replaceValues_self between)

theorem frame_replaceAll (e : Element) (steps : List Replacement) : (e.replaceAll steps).type = e.type ∧
    (e.replaceAll steps).anchor = e.anchor ∧ (e.replaceAll steps).children = e.children := by
  induction steps generalizing e with
  | nil => exact ⟨rfl, rfl, rfl⟩
  | cons step steps ih => exact ih (e.replaceValues step.type step.values)

/-- The values of a type after replacements are those of its last one, each once and in increasing order. -/
theorem valuesOf_replaceAll (e : Element) (steps : List Replacement) (type : Json) :
    (e.replaceAll steps).valuesOf type =
      ((Replacement.last? type steps).map Text.sortDistinct).getD (e.valuesOf type) := by
  -- The last of all replacements either is the one in question or leaves the values as they are.
  induction steps using List.reverseRecOn with
  | nil => rfl
  | append_singleton steps step ih =>
    rw [replaceAll_concat]
    unfold Replacement.last? at ih ⊢
    by_cases h : step.type = type
    · subst h
      rw [valuesOf_replaceValues_self, List.filter_append]
      simp
    · rw [valuesOf_replaceValues (Ne.symm h), ih, List.filter_append]
      simp [h]

/-- What replacing values does to an element, once and again and again. Once, it takes away as many entries
as the element had of the type, and leaves the old ones of other types in their old order, one entry of the
type for each value in increasing order behind them, and everything else as it was. Whatever is replaced
between two replacements of a type, nothing is left of the earlier one. And after any replacements the values
of each type are those of its last one, or the old ones, with the old subject, if it has none. -/
theorem last_replacement_stands (e : Element) :
    (∀ (type : Json) (values : List Text),
      e.countOf type = e.metadata.length - (e.removeValues type).metadata.length ∧
      e.countOf type = e.metadata.countP (fun entry => entry.type = type) ∧
      Replaces e type values (e.replaceValues type values)) ∧
    (∀ (type : Json) (earlier : List Text) (between : List Replacement) (later : List Text),
      ((e.replaceValues type earlier).replaceAll between).replaceValues type later =
        (e.replaceAll between).replaceValues type later) ∧
    ∀ steps : List Replacement,
      ((e.replaceAll steps).type = e.type ∧ (e.replaceAll steps).anchor = e.anchor ∧
        (e.replaceAll steps).children = e.children) ∧
      ∀ type : Json,
        (∀ values, Replacement.last? type steps = some values →
          Text.Increasing ((e.replaceAll steps).valuesOf type) ∧
            ∀ value, value ∈ (e.replaceAll steps).valuesOf type ↔ value ∈ values) ∧
        (Replacement.last? type steps = none → (e.replaceAll steps).valuesOf type = e.valuesOf type ∧
          (e.replaceAll steps).subject type = e.subject type) := by
  have hcount (type : Json) : e.countOf type = e.metadata.countP (fun entry => entry.type = type) := by
    rw [List.countP_eq_length_filter]
    rfl
  refine ⟨fun type values => ⟨countOf_eq_sub e type, hcount type, replaces e type values⟩,
    replaceAll_overrides e, fun steps => ⟨frame_replaceAll e steps, fun type => ⟨fun values hlast => ?_,
      fun hlast => ?_⟩⟩⟩
  · have hvalues : (e.replaceAll steps).valuesOf type = Text.sortDistinct values := by
      rw [valuesOf_replaceAll, hlast]
      rfl
    rw [hvalues]
    exact ⟨Text.sortDistinct_increasing values, fun value => Text.mem_sortDistinct value values⟩
  · have hvalues : (e.replaceAll steps).valuesOf type = e.valuesOf type := by
      rw [valuesOf_replaceAll, hlast]
      rfl
    refine ⟨hvalues, ?_⟩
    unfold subject
    rw [hvalues]

/-- An element with class entries between its titles, whose classes are replaced twice and a note between. -/
theorem last_replacement_stands_poem :
    let title : Json := .text "Title"
    let cls : Json := .text "Class"
    let note : Json := .text "Note"
    let e : Element := ⟨"Poem", false, [⟨cls, "Old"⟩, ⟨title, "Sea"⟩, ⟨cls, "Older"⟩, ⟨title, "Storm"⟩], []⟩
    let steps : List Replacement := [⟨cls, ["B"]⟩, ⟨note, ["seen"]⟩, ⟨cls, ["B", "A", "B"]⟩]
    title ≠ cls ∧ e.countOf cls = 2 ∧ (e.replaceValues cls ["B"]).valuesOf title = ["Sea", "Storm"] ∧
      (e.replaceAll steps).subject title = "Storm" ∧
      ∀ value, value ∈ (e.replaceAll steps).valuesOf cls ↔ value ∈ (["B", "A", "B"] : List Text) := by
  intro title cls note e steps
  obtain ⟨honce, -, hsteps⟩ := last_replacement_stands e
  obtain ⟨-, hend⟩ := hsteps steps
  obtain ⟨-, hcount, hreplaces⟩ := honce cls ["B"]
  have hne : title ≠ cls := by decide
  refine ⟨hne, hcount, (hreplaces.others title hne).1, ?_, ((hend cls).1 _ (by decide)).2⟩
  exact ((hend title).2 (by decide)).2.trans (by decide)

end Element

end TitleClasses
