import TitleClasses.Json.Value

/-!
# Structure elements

A metadata document is a tree of structure elements. Each has a type, metadata entries and children;
an anchor stands for a work in several volumes and carries the volume at hand as its first child. What
is classified is the logical element: that child, or the root where there is none.
-/

namespace TitleClasses

/-- A metadata entry. The type is a text in every document that was read; a profile may name any value
as the type of the entries to be written. -/
structure Entry where
  type : Json
  value : Text
deriving DecidableEq

/-- A structure element. -/
structure Element where
  type : Text
  anchor : Bool
  metadata : List Entry
  children : List Element
deriving Inhabited

namespace Element

/-- The values of the entries of a type, in order. -/
def valuesOf (e : Element) (type : Json) : List Text :=
  (e.metadata.filter fun entry => entry.type = type).map Entry.value

/-- The value of the last entry of a type, or the empty text. -/
def subject (e : Element) (type : Json) : Text := (e.valuesOf type).getLast?.getD []

/-- How many entries of a type there are. -/
def countOf (e : Element) (type : Json) : Nat :=
  (e.metadata.filter fun entry => entry.type = type).length

/-- The element without the entries of a type. -/
def removeValues (e : Element) (type : Json) : Element :=
  { e with metadata := e.metadata.filter fun entry => entry.type ≠ type }

/-- The element with an entry more, after all others. -/
def addEntry (e : Element) (entry : Entry) : Element :=
  { e with metadata := e.metadata ++ [entry] }

/-- The element with entries of a type for the given values, each once and in increasing order, after
all entries of other types and in the place of those of this type. -/
def replaceValues (e : Element) (type : Json) (values : List Text) : Element :=
  { e with metadata := (e.removeValues type).metadata ++
      (Text.sortDistinct values).map fun v => ⟨type, v⟩ }

/-- The element of the root that is classified. -/
def logical (root : Element) : Element :=
  match root.anchor, root.children with
  | true, first :: _ => first
  | _, _ => root

/-- The root with its logical element changed. -/
def updateLogical (f : Element → Element) (root : Element) : Element :=
  match root.anchor, root.children with
  | true, first :: others => { root with children := f first :: others }
  | _, _ => f root

end Element

end TitleClasses
