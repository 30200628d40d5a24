import TitleClasses.Text.Basic

/-!
# The parts of a rule

A rule is a list of alternatives between semicolons; an alternative is a list of parts between plus
signs. One scan from left to right finds them all. A blank alternative at the very end is no
alternative, so that a rule may end in a semicolon, unless it is the only one.
-/

namespace TitleClasses.Rule

/-- The sign between alternatives. -/
def orSign : CodePoint := ';'

/-- The sign between the parts of an alternative. -/
def andSign : CodePoint := '+'

/-- The alternatives of a rule of which a beginning was read: `done` are those before the one at hand,
`parts` the parts of that one before the one at hand, and `part` is what was read of that part, each
of them last one first. -/
def scan (done : List (List Text)) (parts : List Text) (part : Text) : Text → List (List Text)
  | [] => ((part.reverse :: parts).reverse :: done).reverse
  | c :: r =>
    if c = orSign then scan ((part.reverse :: parts).reverse :: done) [] [] r
    else if c = andSign then scan done (part.reverse :: parts) [] r
    else scan done parts (c :: part) r

/-- Whether an alternative is a single part of white space. -/
def isBlank (parts : List Text) : Bool := parts.map Text.strip = [[]]

/-- The alternatives without the last one if that is blank and not the only one. -/
def dropBlankLast (alternatives : List (List Text)) : List (List Text) :=
  if 1 < alternatives.length && alternatives.getLast?.any isBlank then alternatives.dropLast
  else alternatives

/-- The parts of each alternative of a rule. -/
def split (rule : Text) : List (List Text) := dropBlankLast (scan [] [] [] rule)

end TitleClasses.Rule
