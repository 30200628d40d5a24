import TitleClasses.Json.Value

/-!
# Written JSON

A value is written on one line, or with every item and member on a line of its own; and with all
characters kept, or with everything outside printable ASCII written by escapes. Empty lists and
objects are written without anything between their brackets in either layout.
-/

namespace TitleClasses.Json

/-- How values are written: the number of blanks each level is indented by, or none for one line; and
whether only printable ASCII is kept. -/
structure Style where
  indent : Option Nat
  ascii : Bool
deriving DecidableEq, Repr

/-- Documents are written with an indentation of two and all their characters. -/
def Style.document : Style := ⟨some 2, false⟩

/-- Statistics are written with an indentation of two in ASCII. -/
def Style.statistics : Style := ⟨some 2, true⟩

/-- What is hashed or stored in a table is written on one line in ASCII. -/
def Style.line : Style := ⟨none, true⟩

/-- A sixteen-bit unit as an escape. -/
def unitEscape (n : Nat) : Text := "\\u" ++ Text.padded 16 4 n

/-- A code point by its escapes: one, or a pair of surrogates above the sixteen-bit range. -/
def codeEscape (c : CodePoint) : Text :=
  if c.val < 0x10000 then unitEscape c.val
  else unitEscape (0xd800 + (c.val - 0x10000) / 0x400) ++ unitEscape (0xdc00 + c.val % 0x400)

/-- How one code point stands in a written string. -/
def writeOne (ascii : Bool) (c : CodePoint) : Text :=
  if c = ('"' : CodePoint) then "\\\""
  else if c = ('\\' : CodePoint) then "\\\\"
  else if c = ('\n' : CodePoint) then "\\n"
  else if c = ('\r' : CodePoint) then "\\r"
  else if c = ('\t' : CodePoint) then "\\t"
  else if c.val = 0xc then "\\f"
  else if c.val = 0x8 then "\\b"
  else if c.val < 0x20 then unitEscape c.val
  else if ascii && 0x7e < c.val then codeEscape c
  else [c]

/-- A text as a string between double quotes. -/
def writeText (ascii : Bool) (t : Text) : Text :=
  "\"" ++ t.flatMap (writeOne ascii) ++ "\""

/-- What stands before an item at a level where each has a line of its own. -/
def lineBreak (style : Style) (level : Nat) : Text :=
  match style.indent with
  | none => []
  | some n => '\n' :: List.replicate (n * level) (' ' : CodePoint)

/-- What stands between two items at a level. -/
def separator (style : Style) (level : Nat) : Text :=
  if style.indent.isNone then ", " else "," ++ lineBreak style level

mutual

/-- A value as it stands at a level of nesting, and after it a text that follows. -/
def writeAt (style : Style) (level : Nat) : Json → Text → Text
  | .null, rest => "null" ++ rest
  | .bool b, rest => (if b then "true" else "false" : Text) ++ rest
  | .int n, rest => Text.ofInt n ++ rest
  | .float x, rest => x.textWith "NaN" "Infinity" ++ rest
  | .text t, rest => writeText style.ascii t ++ rest
  | .list [], rest => "[]" ++ rest
  | .list (x :: xs), rest =>
    "[" ++ (lineBreak style (level + 1) ++ writeAt style (level + 1) x
      (writeItems style (level + 1) xs (lineBreak style level ++ ("]" ++ rest))))
  | .object [], rest => "\x7b\x7d" ++ rest
  | .object (m :: ms), rest =>
    "\x7b" ++ (lineBreak style (level + 1) ++ writeMember style (level + 1) m
      (writeMembers style (level + 1) ms (lineBreak style level ++ ("\x7d" ++ rest))))

/-- The items of a list that stand after its first. -/
def writeItems (style : Style) (level : Nat) : List Json → Text → Text
  | [], rest => rest
  | x :: xs, rest =>
    separator style level ++ writeAt style level x (writeItems style level xs rest)

/-- A member of an object: the key, a colon, a blank and the value. -/
def writeMember (style : Style) (level : Nat) : Text × Json → Text → Text
  | (k, v), rest => writeText style.ascii k ++ (": " ++ writeAt style level v rest)

/-- The members of an object that stand after its first. -/
def writeMembers (style : Style) (level : Nat) : List (Text × Json) → Text → Text
  | [], rest => rest
  | m :: ms, rest =>
    separator style level ++ writeMember style level m (writeMembers style level ms rest)

end

/-- A value written in a style. -/
def write (style : Style) (v : Json) : Text := writeAt style 0 v []

end TitleClasses.Json
