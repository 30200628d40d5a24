import TitleClasses.Proofs.Text.Words
import TitleClasses.Rule.Predicate

/-!
# The pattern of a term

In the normal text of a term every character is a piece of its pattern: `ofTerm_eq_map`. So a term has a
pattern exactly when the part it comes from has a character that is neither the wildcard sign nor white
space: `satisfiable_ofPart_iff`.
-/

namespace TitleClasses

namespace Pattern

/-- The piece that one character of a normal term stands for. -/
def pieceOf (c : CodePoint) : Piece :=
  if c = wildcardSign then .wildcard else if c.isBlank then .blanks else .literal c

/-- Whether a character stands for itself in a term. -/
def isOwn (c : CodePoint) : Bool := c ≠ wildcardSign && !c.isBlank

/-- The wildcard sign is not white space. -/
theorem isBlank_wildcardSign : wildcardSign.isBlank = false := by decide

theorem isOwn_iff (c : CodePoint) : isOwn c = true ↔ c ≠ wildcardSign ∧ c.isBlank = false := by
  simp [isOwn]

theorem any_isOwn_iff (t : Text) :
    t.any isOwn = true ↔ ∃ c ∈ t, c ≠ wildcardSign ∧ c.isBlank = false := by
  simp only [List.any_eq_true, isOwn_iff]

theorem pieceOf_wildcardSign : pieceOf wildcardSign = .wildcard := if_pos rfl

/-- The piece of a character that stands for itself is that character. -/
theorem pieceOf_of_isOwn {c : CodePoint} (h : isOwn c = true) : pieceOf c = .literal c := by
  obtain ⟨hwild, hblank⟩ := (isOwn_iff c).mp h
  unfold pieceOf
  rw [if_neg hwild, if_neg (by simp [hblank])]

theorem isLiteral_pieceOf (c : CodePoint) : isLiteral (pieceOf c) = isOwn c := by
  unfold pieceOf isOwn
  by_cases hw : c = wildcardSign
  · simp [hw, isLiteral]
  · cases hb : c.isBlank <;> simp [hw, isLiteral]

/-- A piece is a run of blanks exactly when its character is white space. -/
theorem pieceOf_eq_blanks_iff (c : CodePoint) : pieceOf c = .blanks ↔ c.isBlank = true := by
  unfold pieceOf
  by_cases hw : c = wildcardSign
  · simp [hw, isBlank_wildcardSign]
  · cases hb : c.isBlank <;> simp [hw]

/-- A character in front of a text that does not bring two blanks together is one more piece. -/
theorem ofTerm_cons {c : CodePoint} {r : Text}
    (h : c.isBlank = true → ∀ ps, ofTerm r ≠ .blanks :: ps) :
    ofTerm (c :: r) = pieceOf c :: ofTerm r := by
  rw [ofTerm, pieceOf]
  by_cases hw : c = wildcardSign
  · simp [hw]
  · cases hb : c.isBlank with
    | false => simp [hw]
    | true =>
      simp only [hw, if_false, if_true]
      split
      · rename_i ps heq
        exact absurd heq (h hb ps)
      · rfl

/-- In a text in which white space is single spaces, every character is a piece. -/
theorem ofTerm_eq_map {t : Text} (h : t.Spaced) : ofTerm t = t.map pieceOf := by
  induction t with
  | nil => rfl
  | cons c r ih =>
    obtain ⟨hc, hr⟩ := h
    have hmap := ih hr
    rw [ofTerm_cons, hmap, List.map_cons]
    intro hb ps heq
    rw [hmap] at heq
    cases r with
    | nil => cases heq
    | cons d s =>
      have hd : d.isBlank = true := (pieceOf_eq_blanks_iff d).mp (List.cons.inj heq).1
      have := (hc hb).2
      simp [hd] at this

end Pattern

namespace Term

open Pattern

/-- The text of a term is its part without white space at the ends, with single spaces inside. -/
theorem text_ofPart (part : Text) : (ofPart part).text = part.strip.collapse := Text.join_words part

theorem text_ofPart_spaced (part : Text) : (ofPart part).text.Spaced := by
  rw [text_ofPart]
  exact Text.collapse_spaced _

/-- A term in whose text white space is single spaces has the pattern of its pieces, one for each
character, if one of the characters stands for itself. -/
theorem pattern_of_spaced {t : Term} (h : t.text.Spaced) :
    t.pattern = if t.text.any isOwn then some (t.text.map pieceOf) else none := by
  have hany : (t.text.map pieceOf).any isLiteral = t.text.any isOwn := by
    rw [List.any_map]
    exact congrArg t.text.any (funext isLiteral_pieceOf)
  unfold pattern hasLiteral
  rw [ofTerm_eq_map h]
  simp only [hany]

/-- The term of a part has a character that stands for itself exactly if the part has one. -/
theorem any_isOwn_ofPart (part : Text) : (ofPart part).text.any isOwn = part.any isOwn := by
  have hown (c : CodePoint) (h : isOwn c = true) : c ∈ (ofPart part).text ↔ c ∈ part := by
    obtain ⟨-, hb⟩ := (isOwn_iff c).mp h
    rw [text_ofPart, Text.mem_collapse_iff hb, Text.mem_strip_iff hb]
  rw [Bool.eq_iff_iff, List.any_eq_true, List.any_eq_true]
  constructor
  · rintro ⟨c, hc, ho⟩
    exact ⟨c, (hown c ho).mp hc, ho⟩
  · rintro ⟨c, hc, ho⟩
    exact ⟨c, (hown c ho).mpr hc, ho⟩

/-- A term has the pattern of its pieces if one of its characters stands for itself. -/
theorem pattern_ofPart (part : Text) :
    (ofPart part).pattern =
      if part.any isOwn then some ((ofPart part).text.map pieceOf) else none := by
  rw [pattern_of_spaced (text_ofPart_spaced part), any_isOwn_ofPart]

/-- A part of a rule can be found somewhere only if it has a character that is neither the wildcard
sign nor white space. -/
theorem satisfiable_ofPart_iff (part : Text) :
    (ofPart part).satisfiable = true ↔ ∃ c ∈ part, c ≠ wildcardSign ∧ c.isBlank = false := by
  unfold satisfiable
  rw [pattern_ofPart, ← any_isOwn_iff]
  split_ifs with hown
  · simp [hown]
  · simp [hown]

/-- A term without a pattern is found nowhere. -/
theorem satisfiable_of_foundIn {t : Term} {s : Text} (h : t.foundIn s = true) :
    t.satisfiable = true := by
  unfold foundIn at h
  unfold satisfiable
  cases hp : t.pattern with
  | none => simp [hp] at h
  | some ps => rfl

end Term

end TitleClasses
