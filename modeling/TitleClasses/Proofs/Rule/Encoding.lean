import TitleClasses.Proofs.Rule.Occurrence

/-!
# The written form of a pattern encodes the term

A written pattern can be read without knowing what it was written from: `tokens` takes any text apart, a
wildcard or a run of blanks where it stands, a backslash together with the character behind it, and any
other character alone. What is written of a pattern comes apart into one token for each piece
(`tokens_regex`), and in a term with single spaces each token is one character of the term. So the
written form gives the term back, and no two terms have the same one. That no token means anything but
its character to a regular expression is `Token.literal_ofPiece`: what is not escaped is no operator, and
what is escaped is no letter or digit, which a backslash would make a class, a back-reference or an
assertion. `regex_encodes` puts this together.
-/

namespace TitleClasses.Pattern

/-- What a written pattern is made of: the two operators with their repetitions, a character behind a
backslash, and any other character. -/
inductive Token where
  | wildcard
  | blanks
  | escaped (c : CodePoint)
  | plain (c : CodePoint)
deriving DecidableEq, Repr

namespace Token

/-- The text of a token. -/
def written : Token → Text
  | .wildcard => "\\w*"
  | .blanks => "\\s+"
  | .escaped c => ['\\', c]
  | .plain c => [c]

/-- The character of a term that a token stands for. -/
def character : Token → CodePoint
  | .wildcard => wildcardSign
  | .blanks => (' ' : Char)
  | .escaped c => c
  | .plain c => c

/-- Whether a token, if it stands for a single character, means that one to a regular expression: one
that is not escaped is no operator, and one that is escaped is no word character. -/
def Literal : Token → Prop
  | .wildcard => True
  | .blanks => True
  | .escaped c => c.isWord = false
  | .plain c => operators.contains c = false

/-- The token of a character that stands for itself. -/
def ofCharacter (c : CodePoint) : Token :=
  if escapedCharacters.contains c then .escaped c else .plain c

/-- The token of a piece. -/
def ofPiece : Piece → Token
  | .literal c => ofCharacter c
  | .blanks => .blanks
  | .wildcard => .wildcard

theorem character_ofCharacter (c : CodePoint) : (ofCharacter c).character = c := by
  unfold ofCharacter
  split_ifs <;> rfl

/-- The token of a character of a normal term stands for that character. -/
theorem character_ofPiece {c : CodePoint} (h : c.isBlank = true → c = (' ' : Char)) :
    (ofPiece (pieceOf c)).character = c := by
  unfold pieceOf
  split_ifs with hwild hblank
  · exact hwild.symm
  · exact (h hblank).symm
  · exact character_ofCharacter c

/-- What is escaped is no word character. -/
theorem isWord_of_escaped {c : CodePoint} (h : escapedCharacters.contains c = true) :
    c.isWord = false := by
  have hall : escapedCharacters.all (fun d => !d.isWord) = true := by decide +kernel
  simpa using List.all_eq_true.mp hall c (List.contains_iff_mem.mp h)

theorem literal_ofPiece (p : Piece) : (ofPiece p).Literal := by
  cases p with
  | literal c =>
    show (ofCharacter c).Literal
    unfold ofCharacter
    split_ifs with hc
    · exact isWord_of_escaped hc
    · exact Bool.eq_false_iff.mpr fun ho => hc (contains_escapedCharacters_of_operators ho)
  | blanks => trivial
  | wildcard => trivial

end Token

/-- The tokens of a text, read from left to right. A backslash at the very end stands alone. -/
def tokens : Text → List Token
  | [] => []
  | c :: r =>
    if c = '\\' then
      match r with
      | [] => [.plain c]
      | d :: s =>
        match s with
        | [] => [.escaped d]
        | e :: u =>
          if d = 'w' ∧ e = '*' then .wildcard :: tokens u
          else if d = 's' ∧ e = '+' then .blanks :: tokens u
          else .escaped d :: tokens (e :: u)
    else .plain c :: tokens r

/-- Nothing of a text is lost when it is taken apart. -/
theorem flatMap_written_tokens (t : Text) : (tokens t).flatMap Token.written = t := by
  fun_induction tokens t with
  | case1 => rfl
  | case2 => rfl
  | case3 d => rfl
  | case4 d e u h ih =>
    obtain ⟨rfl, rfl⟩ := h
    rw [List.flatMap_cons, ih]
    rfl
  | case5 d e u _ h ih =>
    obtain ⟨rfl, rfl⟩ := h
    rw [List.flatMap_cons, ih]
    rfl
  | case6 d e u _ _ ih =>
    rw [List.flatMap_cons, ih]
    rfl
  | case7 c r _ ih =>
    rw [List.flatMap_cons, ih]
    rfl

/-- What is written of a piece is one token, whatever follows it. -/
theorem tokens_piece (p : Piece) (t : Text) :
    tokens (Piece.regex p ++ t) = Token.ofPiece p :: tokens t := by
  cases p with
  | literal c =>
    show tokens ((if escapedCharacters.contains c then (['\\', c] : Text) else [c]) ++ t) =
      Token.ofCharacter c :: tokens t
    unfold Token.ofCharacter
    by_cases he : escapedCharacters.contains c = true
    · -- The letters that make an operator of a backslash are not escaped.
      have hw : c ≠ 'w' := by
        rintro rfl
        exact absurd he (by decide)
      have hs : c ≠ 's' := by
        rintro rfl
        exact absurd he (by decide)
      rw [if_pos he, if_pos he]
      show tokens ('\\' :: c :: t) = _
      cases t <;> simp [tokens, hw, hs]
    · have hb : c ≠ '\\' := by
        rintro rfl
        exact he (by decide)
      rw [if_neg he, if_neg he]
      show tokens (c :: t) = _
      rw [tokens.eq_def]
      simp only [hb, if_false]
  | blanks =>
    show tokens ('\\' :: 's' :: '+' :: t) = _
    rw [tokens, if_pos rfl, if_neg (by decide), if_pos ⟨rfl, rfl⟩]
    rfl
  | wildcard =>
    show tokens ('\\' :: 'w' :: '*' :: t) = _
    rw [tokens, if_pos rfl, if_pos ⟨rfl, rfl⟩]
    rfl

/-- What is written of a pattern has one token for each piece. -/
theorem tokens_regex (ps : Pattern) : tokens (ps.flatMap Piece.regex) = ps.map Token.ofPiece := by
  induction ps with
  | nil => rfl
  | cons p ps ih => rw [List.flatMap_cons, tokens_piece, ih, List.map_cons]

/-- The characters that repeat what stands before them, or make a repetition lazy or possessive. -/
def quantifiers : Text := "*+?\x7b"

/-- No quantifier stands in front of tokens that mean their characters, or of the look-around at the end
of a pattern where there is none. -/
theorem not_quantifier_of_literal {ts : List Token} (h : ∀ token ∈ ts, token.Literal) {c : CodePoint}
    (hc : (ts.flatMap Token.written ++ wordEnd).head? = some c) : quantifiers.contains c = false := by
  have hback : quantifiers.contains ('\\' : Char) = false := by decide
  cases ts with
  | nil =>
    obtain rfl : (('(' : Char) : CodePoint) = c := Option.some.inj hc
    decide
  | cons token ts =>
    have htoken := h token List.mem_cons_self
    cases token with
    | wildcard => exact Option.some.inj hc ▸ hback
    | blanks => exact Option.some.inj hc ▸ hback
    | escaped d => exact Option.some.inj hc ▸ hback
    | plain d =>
      -- A quantifier that is not escaped is an operator.
      have hall : quantifiers.all operators.contains = true := by decide
      obtain rfl : d = c := Option.some.inj hc
      rw [Bool.eq_false_iff]
      intro hq
      have ho := List.all_eq_true.mp hall d (List.contains_iff_mem.mp hq)
      rw [htoken] at ho
      cases ho

/-- The tokens of a text with single spaces stand for its characters. -/
theorem map_character_of_spaced {t : Text} (h : t.Spaced) :
    ((t.map pieceOf).map Token.ofPiece).map Token.character = t := by
  have hself (c : CodePoint) (hc : c ∈ t) : (Token.ofPiece (pieceOf c)).character = c :=
    Token.character_ofPiece (Term.eq_space_of_spaced h hc)
  rw [List.map_map, List.map_map]
  exact (List.map_congr_left hself).trans (List.map_id t)

/-- The written form of a term with single spaces and a character of its own: what stands between the
look-arounds is written of the pieces. -/
theorem regexOf_of_spaced {t : Text} (h : t.Spaced)
    (hown : ∃ c ∈ t, c ≠ wildcardSign ∧ c.isBlank = false) :
    Term.regexOf t = some (wordStart ++ (t.map pieceOf).flatMap Piece.regex ++ wordEnd) := by
  have hany : t.any isOwn = true := (any_isOwn_iff t).mpr hown
  unfold Term.regexOf Term.regex
  rw [Term.pattern_of_spaced (t := ⟨t⟩) h, if_pos hany, Option.map_some]
  simp [regex, Text.concat, wordStart, wordEnd]

/-- The written form of a term with single spaces and a character of its own stands between the two
look-arounds. Read token by token it gives back the term, nothing is left out, every token that stands
for a single character means that one, and no quantifier follows the look-around at the front or any
token. So different terms have different written forms. The text of every term has single spaces. -/
theorem regex_encodes :
    (∀ t : Text, t.Spaced → (∃ c ∈ t, c ≠ wildcardSign ∧ c.isBlank = false) →
      ∃ body, Term.regexOf t = some (wordStart ++ body ++ wordEnd) ∧
        (tokens body).map Token.character = t ∧
        (tokens body).flatMap Token.written = body ∧
        (∀ token ∈ tokens body, token.Literal) ∧
        ∀ front rest, tokens body = front ++ rest →
          ∀ c, (rest.flatMap Token.written ++ wordEnd).head? = some c →
            quantifiers.contains c = false) ∧
    (∀ t u : Text, t.Spaced → u.Spaced → (∃ c ∈ t, c ≠ wildcardSign ∧ c.isBlank = false) →
      (∃ c ∈ u, c ≠ wildcardSign ∧ c.isBlank = false) → Term.regexOf t = Term.regexOf u → t = u) ∧
    ∀ part : Text, (Term.ofPart part).text.Spaced := by
  have hchars (t : Text) (h : t.Spaced) :
      (tokens ((t.map pieceOf).flatMap Piece.regex)).map Token.character = t := by
    rw [tokens_regex, map_character_of_spaced h]
  refine ⟨fun t h hown => ?_, fun t u ht hu hownt hownu heq => ?_, Term.text_ofPart_spaced⟩
  · have hliteral : ∀ token ∈ tokens ((t.map pieceOf).flatMap Piece.regex), token.Literal := by
      rw [tokens_regex]
      intro token htoken
      obtain ⟨p, -, rfl⟩ := List.mem_map.mp htoken
      exact Token.literal_ofPiece p
    refine ⟨_, regexOf_of_spaced h hown, hchars t h, flatMap_written_tokens _, hliteral, ?_⟩
    intro front rest hsplit c hc
    refine not_quantifier_of_literal (fun token htoken => hliteral token ?_) hc
    rw [hsplit]
    exact List.mem_append_right front htoken
  · -- The look-arounds are the same, and what stands between them is read alike.
    rw [regexOf_of_spaced ht hownt, regexOf_of_spaced hu hownu] at heq
    have hbody := List.append_cancel_left (List.append_cancel_right (Option.some.inj heq))
    rw [← hchars t ht, hbody, hchars u hu]

/-- A backslash, the letters that make an operator of one, quantifiers behind a wildcard and behind a
space: the characters come back as they are. -/
theorem regex_encodes_backslash :
    let t : Text := "\\w*? +\\s\x7b2"
    Term.regexOf t = some "(?<!\\w)\\\\w\\w*\\?\\s+\\+\\\\s\\\x7b2(?!\\w)" ∧
      ∃ body, Term.regexOf t = some (wordStart ++ body ++ wordEnd) ∧
        (tokens body).map Token.character = t ∧ ∀ u : Text, u.Spaced →
          (∃ c ∈ u, c ≠ wildcardSign ∧ c.isBlank = false) → Term.regexOf t = Term.regexOf u → t = u := by
  intro t
  have hspaced : t.Spaced := by
    have hcollapse : t.collapse = t := by decide
    exact hcollapse ▸ Text.collapse_spaced t
  have hown : ∃ c ∈ t, c ≠ wildcardSign ∧ c.isBlank = false := ⟨'w', by decide, by decide, by decide⟩
  obtain ⟨body, hbody, hchars, -⟩ := regex_encodes.1 t hspaced hown
  exact ⟨by decide, body, hbody, hchars, fun u hu hownu => regex_encodes.2.1 t u hspaced hu hown hownu⟩

end TitleClasses.Pattern
