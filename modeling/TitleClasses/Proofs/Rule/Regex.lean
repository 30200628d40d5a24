import TitleClasses.Rule.Pattern

/-!
# Reading the written form of a pattern

`ofRegex` reads a regular expression token by token: the look-around at the front, then wildcards, runs
of blanks, escaped characters and plain ones, and the look-around at the end. An operator outside these
tokens is refused. `ofRegex_regex` says that the written form of a pattern is read back as that pattern,
so that nothing in it is an operator but what stands for a piece.
-/

namespace TitleClasses.Pattern

/-- The look-around at the front of a written pattern. -/
def wordStart : Text := "(?<!\\w)"

/-- The look-around at the end of a written pattern. -/
def wordEnd : Text := "(?!\\w)"

/-- The characters that are operators of a regular expression where they are not escaped. -/
def operators : Text := ".^$*+?\x7b\x7d[]\\|()"

/-- Puts a piece in front of those that are read. -/
def prepend (p : Piece) (ps : Option Pattern) : Option Pattern := ps.map (p :: ·)

/-- The pieces of a written pattern up to the look-around at the end. A backslash before a letter or a
digit is no escape: two such tokens stand for pieces, the others are refused. -/
def readPieces : Text → Option Pattern
  | [] => none
  | c :: r =>
    if c :: r = wordEnd then some []
    else if c = '\\' then
      match r with
      | [] => none
      | d :: s =>
        if d = 'w' then
          match s with
          | [] => none
          | e :: u => if e = '*' then prepend .wildcard (readPieces u) else none
        else if d = 's' then
          match s with
          | [] => none
          | e :: u => if e = '+' then prepend .blanks (readPieces u) else none
        else if escapedCharacters.contains d then prepend (.literal d) (readPieces s)
        else none
    else if operators.contains c then none
    else prepend (.literal c) (readPieces r)

/-- The pieces of a written pattern, if it is one. -/
def ofRegex (t : Text) : Option Pattern :=
  if wordStart.isPrefixOf t then readPieces (t.drop wordStart.length) else none

/-- All operators are among the characters that are escaped. -/
theorem contains_escapedCharacters_of_operators {c : CodePoint} (h : operators.contains c = true) :
    escapedCharacters.contains c = true := by
  have hall : operators.all escapedCharacters.contains = true := by decide +kernel
  exact List.all_eq_true.mp hall c (List.contains_iff_mem.mp h)

/-- The written form of a piece is read as that piece. -/
theorem readPieces_piece (p : Piece) (t : Text) :
    readPieces (Piece.regex p ++ t) = prepend p (readPieces t) := by
  -- No token begins like the look-around at the end.
  have hne (c : CodePoint) (r : Text) (h : c ≠ '(') : c :: r ≠ wordEnd := by
    intro heq
    exact h (List.cons.inj heq).1
  have hback : ('\\' : Char) ≠ ('(' : CodePoint) := by decide
  cases p with
  | literal c =>
    show readPieces ((if escapedCharacters.contains c then (['\\', c] : Text) else [c]) ++ t) = _
    by_cases he : escapedCharacters.contains c = true
    · have hw : c ≠ 'w' := by
        rintro rfl
        exact absurd he (by decide)
      have hs : c ≠ 's' := by
        rintro rfl
        exact absurd he (by decide)
      rw [if_pos he]
      show readPieces ('\\' :: c :: t) = _
      rw [readPieces.eq_def]
      simp only [hne _ _ hback, hw, hs, he, if_true, if_false]
    · have hc : c ≠ '(' := by
        rintro rfl
        exact he (by decide)
      have hb : c ≠ '\\' := by
        rintro rfl
        exact he (by decide)
      have ho : operators.contains c ≠ true := fun h =>
        he (contains_escapedCharacters_of_operators h)
      rw [if_neg he]
      show readPieces (c :: t) = _
      rw [readPieces.eq_def]
      simp only [hne _ _ hc, hb, ho, Bool.false_eq_true, if_false]
  | blanks =>
    show readPieces ('\\' :: 's' :: '+' :: t) = _
    rw [readPieces, if_neg (hne _ _ hback), if_pos rfl]
    rfl
  | wildcard =>
    show readPieces ('\\' :: 'w' :: '*' :: t) = _
    rw [readPieces, if_neg (hne _ _ hback), if_pos rfl]
    rfl

/-- The written form of a pattern is read back as the pattern. -/
theorem ofRegex_regex (ps : Pattern) : ofRegex (regex ps) = some ps := by
  have hpieces : readPieces (ps.flatMap Piece.regex ++ wordEnd) = some ps := by
    induction ps with
    | nil => rfl
    | cons p ps ih =>
      rw [List.flatMap_cons, List.append_assoc, readPieces_piece, ih]
      rfl
  have hregex : regex ps = wordStart ++ (ps.flatMap Piece.regex ++ wordEnd) := by
    simp [regex, Text.concat, wordStart, wordEnd]
  rw [ofRegex, hregex, if_pos (by simp), List.drop_left, hpieces]

end TitleClasses.Pattern
