import TitleClasses.Document.Element
import TitleClasses.Json.Printer
import TitleClasses.Json.Shape

/-!
# Elements as JSON

An element is read from an object with a type; metadata and children may be missing. Types and values
are texts, and any other value stands as its text. An element is written with its type, the mark of an
anchor if it is one, all of its metadata, and its children if it has any. Nothing else that was in the
object is kept.
-/

namespace TitleClasses.Element

/-- A metadata entry from an item of the metadata of an object. -/
def entryOfJson (item : Json) : Except Fault Entry := do
  let type ← item.required "type"
  let value ← item.member "value" (.text [])
  return ⟨.text type.display, value.display⟩

/-- The metadata of an object. -/
def entriesOf (ms : Members) : Except Fault (List Entry) := do
  let items ← ((ms.get? "metadata").getD (.list [])).items
  items.mapM entryOfJson

mutual

/-- The element that a value describes. -/
def ofJson : Json → Except Fault Element
  | .object ms =>
    match Members.get? ms "type" with
    | none => .error .notElement
    | some type => do
      let metadata ← entriesOf ms
      let children ← childrenIn ms
      return {
        type := type.display
        anchor := ((Members.get? ms "anchor").getD (.bool false)).holds
        metadata := metadata
        children := children }
  | _ => .error .notElement

/-- The children among the members of an object. -/
def childrenIn : List (Text × Json) → Except Fault (List Element)
  | [] => .ok []
  | (key, v) :: ms => if key = "children" then childrenOf v else childrenIn ms

/-- The children that a value lists. The characters of a text and the keys of an object are no
elements. -/
def childrenOf : Json → Except Fault (List Element)
  | .list xs => elementsOf xs
  | .text t => if t.isEmpty then .ok [] else .error .notElement
  | .object ms => if ms.isEmpty then .ok [] else .error .notElement
  | .null => .error (.shape (.notIterable .null))
  | .bool _ => .error (.shape (.notIterable .bool))
  | .int _ => .error (.shape (.notIterable .int))
  | .float _ => .error (.shape (.notIterable .float))

/-- The elements that the items of a list describe. -/
def elementsOf : List Json → Except Fault (List Element)
  | [] => .ok []
  | x :: xs => do
    let e ← ofJson x
    let es ← elementsOf xs
    return e :: es

end

/-- A metadata entry as an object. -/
def entryToJson (e : Entry) : Json := .object [("type", e.type), ("value", .text e.value)]

/-- The object of an element, the objects of its children given. -/
def toObject (type : Text) (anchor : Bool) (metadata : List Entry) (children : List Json) : Json :=
  let mark : Members := if anchor then [("anchor", .bool true)] else []
  let below : Members := if children.isEmpty then [] else [("children", .list children)]
  .object ([(("type" : Text), Json.text type)] ++ mark ++
    [(("metadata" : Text), Json.list (metadata.map entryToJson))] ++ below)

mutual

/-- The object that describes an element. -/
def toJson : Element → Json
  | ⟨type, anchor, metadata, children⟩ => toObject type anchor metadata (toJsonAll children)

/-- The objects that describe elements. -/
def toJsonAll : List Element → List Json
  | [] => []
  | e :: es => toJson e :: toJsonAll es

end

/-- The text of a document with the given root. -/
def render (root : Element) : Text := root.toJson.write .document

end TitleClasses.Element
