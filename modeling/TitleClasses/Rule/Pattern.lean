import TitleClasses.Text.Basic

/-!
# Patterns

A pattern is what a term asks of a text: pieces that follow one another. Its written form is a regular
expression, in which every literal character that could be an operator is escaped.
-/

namespace TitleClasses

/-- One piece of a pattern: a character up to case, a run of blanks, or any run of word characters. -/
inductive Piece where
  | literal (c : CodePoint)
  | blanks
  | wildcard
deriving DecidableEq, Repr

/-- The pieces of a term or of a part of it, in order. -/
abbrev Pattern := List Piece

namespace Pattern

/-- The sign for any run of word characters. -/
def wildcardSign : CodePoint := '*'

/-- The pieces of a term. A run of white space is one piece. -/
def ofTerm : Text → Pattern
  | [] => []
  | c :: r =>
    let rest := ofTerm r
    if c = wildcardSign then .wildcard :: rest
    else if c.isBlank then
      match rest with
      | .blanks :: ps => .blanks :: ps
      | ps => .blanks :: ps
    else .literal c :: rest

/-- Whether a piece is a literal character. -/
def isLiteral : Piece → Bool
  | .literal _ => true
  | _ => false

/-- Whether a pattern asks for any character in particular. -/
def hasLiteral (ps : Pattern) : Bool := ps.any isLiteral

/-- The characters that are escaped in the written form: operators, and the ASCII blanks. -/
def escapedCharacters : Text := "()[]\x7b\x7d?*+-|^$\\.&~# \t\n\r\x0b\x0c"

/-- The written form of a piece. -/
def Piece.regex : Piece → Text
  | .literal c => if escapedCharacters.contains c then ['\\', c] else [c]
  | .blanks => "\\s+"
  | .wildcard => "\\w*"

/-- The written form of a pattern, between the two look-arounds that keep it from beginning or ending
inside a word. -/
def regex (ps : Pattern) : Text :=
  Text.concat ["(?<!\\w)", ps.flatMap Piece.regex, "(?!\\w)"]

end Pattern

end TitleClasses
