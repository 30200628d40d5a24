import TitleClasses.Number.Shortest
import TitleClasses.Text.Quoted

/-!
# JSON values

The values of vocabulary, metadata, profile and statistics files. Objects keep the order of their
members; integers have any size. Every value has a text of its own, which messages show and which
stands for it where a text is needed: a text stands for itself, inside lists and objects texts are
quoted.
-/

namespace TitleClasses

/-- A JSON value. -/
inductive Json where
  | null
  | bool (b : Bool)
  | int (n : Int)
  | float (x : Binary64)
  | text (t : Text)
  | list (items : List Json)
  | object (members : List (Text × Json))
deriving Inhabited

/-- The members of an object: keys with values, in order. -/
abbrev Members := List (Text × Json)

/-- The kinds of values, which errors about a wrong shape name. -/
inductive Kind where
  | null
  | bool
  | int
  | float
  | text
  | list
  | object
deriving DecidableEq, Repr

/-- The word for a kind of values. -/
def Kind.name : Kind → Text
  | .null => "NoneType"
  | .bool => "bool"
  | .int => "int"
  | .float => "float"
  | .text => "str"
  | .list => "list"
  | .object => "dict"

namespace Json

/-- The kind of a value. -/
def kind : Json → Kind
  | .null => .null
  | .bool _ => .bool
  | .int _ => .int
  | .float _ => .float
  | .text _ => .text
  | .list _ => .list
  | .object _ => .object

/-- Null, false, zero and what is empty do not hold; all else does. -/
def holds : Json → Bool
  | .null => false
  | .bool b => b
  | .int n => n != 0
  | .float x => !x.isZero
  | .text t => !t.isEmpty
  | .list xs => !xs.isEmpty
  | .object ms => !ms.isEmpty

mutual

/-- Equality of values, members in the same order. -/
def beq : Json → Json → Bool
  | .null, .null => true
  | .bool a, .bool b => a == b
  | .int a, .int b => a == b
  | .float a, .float b => decide (a = b)
  | .text a, .text b => a == b
  | .list a, .list b => beqItems a b
  | .object a, .object b => beqMembers a b
  | _, _ => false

/-- Equality of lists, item by item. -/
def beqItems : List Json → List Json → Bool
  | [], [] => true
  | a :: as, b :: bs => beq a b && beqItems as bs
  | _, _ => false

/-- Equality of objects, member by member. -/
def beqMembers : List (Text × Json) → List (Text × Json) → Bool
  | [], [] => true
  | (k, a) :: as, (l, b) :: bs => k == l && beq a b && beqMembers as bs
  | _, _ => false

end

mutual

theorem beq_iff : (a b : Json) → (beq a b = true ↔ a = b)
  | .null, b => by cases b <;> simp [beq]
  | .bool a, b => by cases b <;> simp [beq]
  | .int a, b => by cases b <;> simp [beq]
  | .float a, b => by cases b <;> simp [beq]
  | .text a, b => by cases b <;> simp [beq]
  | .list a, b => by
    cases b with
    | list b => simp [beq, beqItems_iff a b]
    | _ => simp [beq]
  | .object a, b => by
    cases b with
    | object b => simp [beq, beqMembers_iff a b]
    | _ => simp [beq]

theorem beqItems_iff : (as bs : List Json) → (beqItems as bs = true ↔ as = bs)
  | [], [] => by simp [beqItems]
  | [], b :: bs => by simp [beqItems]
  | a :: as, [] => by simp [beqItems]
  | a :: as, b :: bs => by simp [beqItems, beq_iff a b, beqItems_iff as bs]

theorem beqMembers_iff : (as bs : List (Text × Json)) → (beqMembers as bs = true ↔ as = bs)
  | [], [] => by simp [beqMembers]
  | [], b :: bs => by simp [beqMembers]
  | (k, a) :: as, [] => by simp [beqMembers]
  | (k, a) :: as, (l, b) :: bs => by
    simp [beqMembers, beq_iff a b, beqMembers_iff as bs]

end

instance : DecidableEq Json := fun a b => decidable_of_iff _ (beq_iff a b)

mutual

/-- The text of a value inside a list or an object. -/
def quoted : Json → Text
  | .null => "None"
  | .bool b => if b then "True" else "False"
  | .int n => Text.ofInt n
  | .float x => x.text
  | .text t => t.quoted
  | .list xs => Text.bracketed (quotedItems xs)
  | .object ms => "\x7b" ++ Text.join ", " (quotedMembers ms) ++ "\x7d"

/-- The texts of the items of a list. -/
def quotedItems : List Json → List Text
  | [] => []
  | x :: xs => quoted x :: quotedItems xs

/-- The texts of the members of an object. -/
def quotedMembers : List (Text × Json) → List Text
  | [] => []
  | (k, v) :: ms => Text.concat [k.quoted, ": ", quoted v] :: quotedMembers ms

end

/-- The text of a value. -/
def display : Json → Text
  | .text t => t
  | v => quoted v

end Json

namespace Members

/-- The value of a key. -/
def get? (ms : Members) (key : Text) : Option Json := List.lookup key ms

/-- Gives a key a value: in its place if it is there already, else at the end. -/
def set : Members → Text → Json → Members
  | [], key, v => [(key, v)]
  | (k, w) :: ms, key, v => if k = key then (k, v) :: ms else (k, w) :: set ms key v

end Members

end TitleClasses
