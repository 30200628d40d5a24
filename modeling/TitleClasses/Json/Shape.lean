import TitleClasses.Fault

/-!
# Values of any shape

A file may hold any value where an object, a list or a text is expected. Each access below answers for
the kinds that allow it and tells the fault for all others: members are asked of objects only, but
texts and objects have items too, their characters and their keys.
-/

namespace TitleClasses.Json

/-- The members of an object; a value of another kind lacks the property that was asked for. -/
def membersFor (property : Text) : Json → Except Fault Members
  | .object ms => .ok ms
  | v => .error (.shape (.noAttribute v.kind property))

/-- A member of an object, or the default when there is none. -/
def member (v : Json) (key : Text) (default : Json) : Except Fault Json :=
  (v.membersFor "get").map fun ms => (ms.get? key).getD default

/-- The items of a list, the characters of a text, or the keys of an object. -/
def items : Json → Except Fault (List Json)
  | .list xs => .ok xs
  | .text t => .ok (t.map fun c => .text [c])
  | .object ms => .ok (ms.map fun m => .text m.1)
  | v => .error (.shape (.notIterable v.kind))

/-- A member that must be there. -/
def required (key : Text) : Json → Except Fault Json
  | .object ms =>
    match Members.get? ms key with
    | some v => .ok v
    | none => .error (.shape (.absentKey key))
  | .text _ => .error (.shape (.indexedByText .text))
  | .list _ => .error (.shape (.indexedByText .list))
  | v => .error (.shape (.notSubscriptable v.kind))

/-- Lists and objects cannot be keys. -/
def asKey : Json → Except Fault Json
  | .list _ => .error (.shape (.unhashable .list))
  | .object _ => .error (.shape (.unhashable .object))
  | v => .ok v

end TitleClasses.Json
