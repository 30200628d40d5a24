import TitleClasses.Text.Printable

/-!
# Quoted texts

A quoted text is written between single quotes, or between double quotes when it holds a single and
no double quote. Inside, the quote in use and the backslash follow a backslash, tab, line feed and
carriage return have escapes of their own, and any other unprintable code point is written by two,
four or eight hexadecimal digits. Messages and log lines show data in this form.
-/

namespace TitleClasses.Text

/-- The mark a text is quoted with. -/
def quoteMark (t : Text) : CodePoint :=
  if t.contains ('\'' : CodePoint) && !t.contains ('"' : CodePoint) then '"' else '\''

/-- How one code point stands between quotes of the given kind. -/
def quoteOne (mark c : CodePoint) : Text :=
  if c = mark || c = ('\\' : CodePoint) then ['\\', c]
  else if c = ('\t' : CodePoint) then "\\t"
  else if c = ('\n' : CodePoint) then "\\n"
  else if c = ('\r' : CodePoint) then "\\r"
  else if c.isPrintable then [c]
  else if c.val < 0x100 then "\\x" ++ padded 16 2 c.val
  else if c.val < 0x10000 then "\\u" ++ padded 16 4 c.val
  else "\\U" ++ padded 16 8 c.val

/-- The quoted form of a text. -/
def quoted (t : Text) : Text :=
  let mark := quoteMark t
  mark :: t.flatMap (quoteOne mark) ++ [mark]

/-- The quoted form of a text that may be absent. -/
def quotedOption : Option Text → Text
  | none => "None"
  | some t => quoted t

/-- The parts between square brackets, separated by commas. -/
def bracketed (parts : List Text) : Text := "[" ++ join ", " parts ++ "]"

/-- A list of texts, each of them quoted. -/
def quotedList (ts : List Text) : Text := bracketed (ts.map quoted)

end TitleClasses.Text
