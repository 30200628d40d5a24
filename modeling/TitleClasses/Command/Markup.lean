import TitleClasses.Text.Basic

/-!
# Markup

The console reads words between square brackets as markup. Data is escaped before it is shown: a
bracket that would open a tag has a backslash before it, and the backslashes that were there already
are doubled, so that every one of them is shown.
-/

namespace TitleClasses.Markup

/-- The sign between the parts of an escape. -/
def backslash : CodePoint := '\\'

/-- Whether a code point can be the first one of a tag. -/
def isTagStart (c : CodePoint) : Bool :=
  (0x61 ≤ c.val && c.val ≤ 0x7a) ||
    c = ('#' : CodePoint) || c = ('/' : CodePoint) || c = ('@' : CodePoint)

/-- Whether what follows an opening bracket makes it a tag: a first sign of a tag, and a closing bracket
before any other opening one. -/
def opensTag : Text → Bool
  | [] => false
  | c :: r =>
    isTagStart c &&
      (r.dropWhile fun d => d ≠ ('[' : CodePoint) && d ≠ (']' : CodePoint)).head? =
        some (']' : CodePoint)

/-- A text with its tags escaped; `run` is the number of backslashes right before it. -/
def escapeTags (run : Nat) : Text → Text
  | [] => []
  | c :: r =>
    if c = backslash then c :: escapeTags (run + 1) r
    else if c = ('[' : CodePoint) && opensTag r then
      List.replicate (run + 1) backslash ++ c :: escapeTags 0 r
    else c :: escapeTags 0 r

/-- Whether a text ends in one backslash and not in two. -/
def endsInBackslash (t : Text) : Bool :=
  t.getLast? = some backslash && t.dropLast.getLast? ≠ some backslash

/-- The text as it is shown without being read as markup. A single backslash at the end is doubled, lest
it escape what follows. -/
def escape (t : Text) : Text :=
  let escaped := escapeTags 0 t
  if endsInBackslash escaped then escaped ++ [backslash] else escaped

/-- The escaped text, or another one if there is nothing to show. -/
def escapeOr (other t : Text) : Text := if (escape t).isEmpty then other else escape t

/-- What is left to show of a text when its tags are taken out; `run` is the number of backslashes right
before it, which are held back until it is known whether a tag follows them. Of the backslashes before
a bracket that opens a tag every second one is shown, and if their number is odd the bracket too. -/
def plainFrom (inTag : Bool) (run : Nat) : Text → Text
  | [] => List.replicate run backslash
  | c :: r =>
    if inTag then plainFrom (c ≠ (']' : CodePoint)) 0 r
    else if c = backslash then plainFrom false (run + 1) r
    else if c = ('[' : CodePoint) && opensTag r then
      if run % 2 = 0 then List.replicate (run / 2) backslash ++ plainFrom true 0 r
      else List.replicate (run / 2) backslash ++ c :: plainFrom false 0 r
    else List.replicate run backslash ++ c :: plainFrom false 0 r

/-- What is left to show of a text when its tags are taken out. -/
def plain (t : Text) : Text := plainFrom false 0 t

end TitleClasses.Markup
