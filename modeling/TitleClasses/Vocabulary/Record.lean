import TitleClasses.Fault

/-!
# Vocabulary records

A record is one entry of a vocabulary: an identifier and named texts. A field that is absent, null or
blank has no value.
-/

namespace TitleClasses

/-- A vocabulary record. -/
structure Record where
  id : Text
  fields : List (Text × Text)
deriving DecidableEq, Repr

namespace Record

/-- The record of an identifier and the members of an object: null is left out, and every other value
stands as its text. -/
def ofMembers (id : Text) (ms : Members) : Record where
  id := id
  fields := ms.filterMap fun (key, v) =>
    match v with
    | .null => none
    | v => some (key, v.display)

/-- The value of a field that a profile names. Only a text names a field a record can have; a list or an
object names none at all. -/
def fieldValue (r : Record) (name : Json) : Except Fault Text :=
  match name with
  | .list _ => .error (.shape (.unhashable .list))
  | .object _ => .error (.shape (.unhashable .object))
  | .text key =>
    match r.fields.lookup key with
    | some v => if v.isBlank then .error (.missingField r.id key) else .ok v
    | none => .error (.missingField r.id key)
  | name => .error (.missingField r.id name.display)

end Record

end TitleClasses
