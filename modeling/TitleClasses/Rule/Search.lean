import TitleClasses.Rule.Pattern
import TitleClasses.Text.Case
import TitleClasses.Text.Word

/-!
# Searching a text for a pattern

A pattern occurs in a text where the text can be cut into consecutive parts that match its pieces, with
no word character right before the first part and none right after the last. The search reads the text
once and keeps, for all the places where the pattern may have begun, what is left of it to find;
`foundIn_eq_occursIn` says that it finds a pattern exactly where it occurs.
-/

namespace TitleClasses.Pattern

/-! ### Where a pattern occurs -/

/-- Whether `k` holds of what is left after some run of word characters, the empty one included. -/
def afterWord (k : Text → Bool) : Text → Bool
  | [] => k []
  | c :: r => k (c :: r) || (c.isWord && afterWord k r)

/-- Whether `k` holds of what is left after some run of at least one blank. -/
def afterBlanks (k : Text → Bool) : Text → Bool
  | [] => false
  | c :: r => c.isBlank && (k r || afterBlanks k r)

/-- Whether no word character stands at the front of a text. -/
def wordEnds : Text → Bool
  | [] => true
  | c :: _ => !c.isWord

/-- Whether some beginning of the text can be cut into parts that match the pieces, and no word
character follows it. -/
def cut : Pattern → Text → Bool
  | [], t => wordEnds t
  | .literal p :: ps, t =>
    match t with
    | [] => false
    | c :: r => p.caseEq c && cut ps r
  | .blanks :: ps, t => afterBlanks (cut ps) t
  | .wildcard :: ps, t => afterWord (cut ps) t

/-- Whether the pattern occurs in a text; `inWord` tells whether a word character stands right before
the text. -/
def occursFrom (ps : Pattern) (inWord : Bool) : Text → Bool
  | [] => !inWord && cut ps []
  | c :: r => (!inWord && cut ps (c :: r)) || occursFrom ps c.isWord r

/-- Whether the pattern occurs anywhere in a text. -/
def occursIn (ps : Pattern) (t : Text) : Bool := occursFrom ps false t

/-! ### The search -/

/-- Whether a pattern asks for nothing any more. -/
def asksNothing (ps : Pattern) : Bool := ps.all fun p => p = .wildcard

/-- What may be left to find of a pattern after a character. -/
def after (c : CodePoint) : Pattern → List Pattern
  | [] => []
  | .literal p :: ps => if p.caseEq c then [ps] else []
  | .blanks :: ps => if c.isBlank then [ps, .blanks :: ps] else []
  | .wildcard :: ps => if c.isWord then (.wildcard :: ps) :: after c ps else after c ps

/-- What is left to find at a place, where the whole pattern may begin too unless it is in a word. -/
def leftAt (ps : Pattern) (inWord : Bool) (begun : List Pattern) : List Pattern :=
  if inWord then begun else ps :: begun

/-- Whether the pattern is found in a text, or what is left of it where it has begun before the
text. -/
def foundFrom (ps : Pattern) (inWord : Bool) (begun : List Pattern) : Text → Bool
  | [] => (leftAt ps inWord begun).any asksNothing
  | c :: r =>
    let left := leftAt ps inWord begun
    (!c.isWord && left.any asksNothing) ||
      foundFrom ps c.isWord (left.flatMap (after c)).eraseDups r

/-- Whether the pattern is found anywhere in a text. -/
def foundIn (ps : Pattern) (t : Text) : Bool := foundFrom ps false [] t

/-! ### The search finds what occurs -/

theorem cut_nil (ps : Pattern) : cut ps [] = asksNothing ps := by
  induction ps with
  | nil => rfl
  | cons p ps ih =>
    cases p with
    | literal q => simp [cut, asksNothing]
    | blanks => simp [cut, afterBlanks, asksNothing]
    | wildcard => simpa [cut, afterWord, asksNothing] using ih

theorem cut_cons (ps : Pattern) (c : CodePoint) (r : Text) :
    cut ps (c :: r) = ((!c.isWord && asksNothing ps) || (after c ps).any (cut · r)) := by
  induction ps with
  | nil => simp [cut, wordEnds, asksNothing, after]
  | cons p ps ih =>
    cases p with
    | literal q => by_cases h : q.caseEq c <;> simp [cut, asksNothing, after, h]
    | blanks => by_cases h : c.isBlank <;> simp [cut, afterBlanks, asksNothing, after, h]
    | wildcard =>
      by_cases h : c.isWord <;> simp_all [cut, afterWord, asksNothing, after, Bool.or_comm]

theorem any_eraseDups (k : Pattern → Bool) (l : List Pattern) : l.eraseDups.any k = l.any k := by
  rw [Bool.eq_iff_iff]
  simp [List.any_eq_true, List.mem_eraseDups]

theorem any_cut_cons (l : List Pattern) (c : CodePoint) (r : Text) :
    l.any (cut · (c :: r)) =
      ((!c.isWord && l.any asksNothing) || (l.flatMap (after c)).any (cut · r)) := by
  induction l with
  | nil => simp
  | cons q l ih =>
    rw [List.any_cons, ih, cut_cons, List.any_cons, List.flatMap_cons, List.any_append]
    cases c.isWord <;> cases asksNothing q <;> cases (after c q).any (cut · r) <;> simp

theorem any_leftAt (k : Pattern → Bool) (ps : Pattern) (inWord : Bool) (begun : List Pattern) :
    (leftAt ps inWord begun).any k = (begun.any k || (!inWord && k ps)) := by
  cases inWord <;> simp [leftAt, Bool.or_comm]

theorem foundFrom_eq (ps : Pattern) (inWord : Bool) (begun : List Pattern) (t : Text) :
    foundFrom ps inWord begun t = (begun.any (cut · t) || occursFrom ps inWord t) := by
  induction t generalizing inWord begun with
  | nil => simp [foundFrom, any_leftAt, occursFrom, cut_nil]
  | cons c r ih =>
    have h := any_cut_cons (leftAt ps inWord begun) c r
    rw [any_leftAt] at h
    rw [foundFrom, ih, any_eraseDups, ← Bool.or_assoc, ← h, occursFrom, Bool.or_assoc]

/-- The search finds a pattern exactly where it occurs. -/
theorem foundIn_eq_occursIn (ps : Pattern) (t : Text) : foundIn ps t = occursIn ps t := by
  simp [foundIn, occursIn, foundFrom_eq]

end TitleClasses.Pattern
