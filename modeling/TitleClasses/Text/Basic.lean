/-!
# Texts

A text is a sequence of Unicode code points. Surrogate code points are allowed, since a metadata
document may name one by an escape and must be able to pass through the program unchanged; only
encoding a text as bytes refuses them. Texts are ordered by code point.
-/

namespace TitleClasses

/-- A Unicode code point, surrogates included. -/
abbrev CodePoint := Fin 0x110000

/-- The code point of a character. -/
def CodePoint.ofChar (c : Char) : CodePoint :=
  ⟨c.toNat, by
    have h := c.valid
    simp only [UInt32.isValidChar, Nat.isValidChar] at h
    have e : c.toNat = c.val.toNat := rfl
    omega⟩

/-- The code point of a number, counted on from zero after the last one. -/
def CodePoint.ofNat (n : Nat) : CodePoint := ⟨n % 0x110000, Nat.mod_lt _ (by decide)⟩

instance : Coe Char CodePoint := ⟨CodePoint.ofChar⟩

/-- A sequence of code points. -/
abbrev Text := List CodePoint

/-- The code points of a string. -/
def Text.ofString (s : String) : Text := s.toList.map CodePoint.ofChar

instance : Coe String Text := ⟨Text.ofString⟩

/-- Membership in ranges that are given in increasing order, both ends included. -/
def inRanges : List (Nat × Nat) → Nat → Bool
  | [], _ => false
  | (low, high) :: rs, n => if n < low then false else if n ≤ high then true else inRanges rs n

/-- White space: what separates the words of a term, and what is stripped from labels. -/
def blankRanges : List (Nat × Nat) := [
  (0x9, 0xd), (0x1c, 0x20), (0x85, 0x85), (0xa0, 0xa0), (0x1680, 0x1680), (0x2000, 0x200a),
  (0x2028, 0x2029), (0x202f, 0x202f), (0x205f, 0x205f), (0x3000, 0x3000)]

/-- Whether a code point is white space. -/
def CodePoint.isBlank (c : CodePoint) : Bool := inRanges blankRanges c.val

/-- A surrogate is one half of a pair of sixteen-bit units and no character of its own. -/
def CodePoint.isSurrogate (c : CodePoint) : Bool := 0xd800 ≤ c.val && c.val ≤ 0xdfff

namespace Text

/-- Whether a text is empty or white space throughout. -/
def isBlank (t : Text) : Bool := t.all CodePoint.isBlank

/-- The text without white space at its end. -/
def stripEnd (t : Text) : Text := (t.reverse.dropWhile CodePoint.isBlank).reverse

/-- The text without white space at either end. -/
def strip (t : Text) : Text := stripEnd (t.dropWhile CodePoint.isBlank)

/-- The white-space separated words of a text. -/
def words : Text → List Text
  | [] => []
  | c :: r =>
    if c.isBlank then words r
    else match r, words r with
      | d :: _, w :: ws => if d.isBlank then [c] :: w :: ws else (c :: w) :: ws
      | _, ws => [c] :: ws

/-- The parts in order, with the separator between neighbours. -/
def join (separator : Text) (parts : List Text) : Text := separator.intercalate parts

/-- The parts in order. -/
def concat (parts : List Text) : Text := parts.flatten

/-- The parts of a text between the occurrences of one code point; there is at least one part. -/
def splitAt (separator : CodePoint) : Text → List Text
  | [] => [[]]
  | c :: r =>
    if c = separator then [] :: splitAt separator r
    else match splitAt separator r with
      | [] => [[c]]
      | p :: ps => (c :: p) :: ps

/-- The decimal numeral of a natural number. -/
def ofNat (n : Nat) : Text := (Nat.toDigits 10 n).map CodePoint.ofChar

/-- The decimal numeral of an integer. -/
def ofInt : Int → Text
  | .ofNat n => ofNat n
  | .negSucc n => '-' :: ofNat (n + 1)

/-- A numeral of at least `width` digits in the given base, filled up with zeros in front. -/
def padded (base width n : Nat) : Text :=
  let digits := (Nat.toDigits base n).map CodePoint.ofChar
  List.replicate (width - digits.length) ('0' : CodePoint) ++ digits

/-- Whether a text begins with another one. -/
def startsWith (t beginning : Text) : Bool := beginning.isPrefixOf t

/-- Insertion into a strictly increasing list; a text that is there already is not repeated. -/
def insertDistinct (t : Text) : List Text → List Text
  | [] => [t]
  | u :: us =>
    if t < u then t :: u :: us
    else if t = u then u :: us
    else u :: insertDistinct t us

/-- The distinct texts of a list in increasing order: the form in which sets of texts are kept. -/
def sortDistinct (ts : List Text) : List Text := ts.foldr insertDistinct []

/-- Whether a text does not come after another one. -/
def notAfter (t u : Text) : Bool := !decide (u < t)

/-- The texts of a list in increasing order, repetitions kept. -/
def sorted (ts : List Text) : List Text := ts.mergeSort notAfter

/-- The decoded string; surrogates, which no string can hold, become the replacement character. -/
def toString (t : Text) : String :=
  String.ofList (t.map fun c => if c.isSurrogate then '\ufffd' else Char.ofNat c.val)

end Text

end TitleClasses
