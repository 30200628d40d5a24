import TitleClasses.Fault
import TitleClasses.Text.Capital

/-!
# The environment

Named texts that settings are taken from. A variable that is set counts as set even when its text is
empty. A text may name variables, each between a dollar sign with a brace and a closing brace; a
default may follow the name after a colon and a hyphen.
-/

namespace TitleClasses

/-- Variables with their texts. -/
abbrev Environment := List (Text × Text)

namespace Environment

/-- The text of a variable. -/
def get? (env : Environment) (name : Text) : Option Text := List.lookup name env

/-- The text of a variable, or the default when it is not set. -/
def getD (env : Environment) (name default : Text) : Text := (env.get? name).getD default

/-- The words for yes. -/
def yesWords : List Text := ["1", "TRUE", "T", "YES", "Y"]

/-- Whether a variable is set to a word for yes, in capital or small letters. -/
def isYes (env : Environment) (name : Text) : Bool :=
  (env.get? name).any fun t => yesWords.contains t.capitals

/-- Sets a variable that is not set yet. A name cannot hold an equals sign, and neither part a null. -/
def offer (env : Environment) (name text : Text) : Except Fault Environment :=
  if (env.get? name).isSome then .ok env
  else if (name ++ text).any fun c => c.val = 0 then .error .nullByte
  else if name.contains ('=' : CodePoint) then .error .variableName
  else .ok (env ++ [(name, text)])

/-- A variable that a text names, with the default it gives. -/
structure Reference where
  name : Text
  default : Option Text
deriving DecidableEq, Repr

/-- The sign that ends a reference. -/
def closing : CodePoint := '\x7d'

/-- The reference whose name begins at the front of a text, and what follows it. -/
def readReference (t : Text) : Option (Reference × Text) :=
  let isName (c : CodePoint) : Bool := c ≠ closing && c ≠ (':' : CodePoint)
  let name := t.takeWhile isName
  match t.dropWhile isName with
  | [] => none
  | c :: r =>
    if c = closing then some (⟨name, none⟩, r)
    else match r with
      | [] => none
      | d :: s =>
        if d ≠ ('-' : CodePoint) then none
        else match s.dropWhile fun c => c ≠ closing with
          | [] => none
          | _ :: rest => some (⟨name, some (s.takeWhile fun c => c ≠ closing)⟩, rest)

/-- A text with every reference replaced; at most `n` code points or references are passed. -/
def expandFrom (find : Reference → Text) : Nat → Text → Text
  | 0, t => t
  | _, [] => []
  | n + 1, c :: r =>
    match (if c = ('$' : CodePoint) && r.head? = some ('\x7b' : CodePoint) then
      readReference r.tail else none) with
    | some (reference, rest) => find reference ++ expandFrom find n rest
    | none => c :: expandFrom find n r

/-- A text with every reference replaced. -/
def expand (find : Reference → Text) (t : Text) : Text := expandFrom find t.length t

end Environment

end TitleClasses
