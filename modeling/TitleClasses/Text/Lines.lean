import TitleClasses.Text.Basic

/-!
# Line ends

A file may end its lines with a line feed, a carriage return, or both; reading makes each of these one
line feed. Positions in a text are told by line and column, both counted from one.
-/

namespace TitleClasses.Text

/-- Every line end as one line feed; `after` tells whether a carriage return was read last, whose
line feed is then dropped, and `done` is what has been read, last code point first. -/
def unifyFrom (after : Bool) (done : Text) : Text → Text
  | [] => done.reverse
  | c :: r =>
    if c = ('\r' : CodePoint) then unifyFrom true ('\n' :: done) r
    else if c = ('\n' : CodePoint) && after then unifyFrom false done r
    else unifyFrom false (c :: done) r

/-- The text with every line end made a line feed. -/
def unifyLineEnds (t : Text) : Text := unifyFrom false [] t

/-- A place in a text: the line, the column, and the number of code points before it. -/
structure Place where
  line : Nat
  column : Nat
  position : Nat
deriving DecidableEq, Repr

/-- The place after the first `position` code points. -/
def placeAt (t : Text) (position : Nat) : Place :=
  let before := t.take position
  let tail := before.reverse.takeWhile fun c => c ≠ ('\n' : CodePoint)
  ⟨before.count ('\n' : CodePoint) + 1, tail.length + 1, position⟩

/-- The words for a place. -/
def Place.message (p : Place) : Text :=
  concat ["line ", ofNat p.line, " column ", ofNat p.column, " (char ", ofNat p.position, ")"]

end TitleClasses.Text
