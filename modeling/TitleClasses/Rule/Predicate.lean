import TitleClasses.Log
import TitleClasses.Rule.Search
import TitleClasses.Rule.Split

/-!
# Predicates

A rule compiles to a predicate on texts: an alternative of clauses, each a conjunction of terms. A term
without a literal character has no pattern; it is never found, and its clause never matches. A blank
rule has no clauses and matches nothing.
-/

namespace TitleClasses

/-- One term of a clause, as its normal text: no white space at the ends, single blanks inside. -/
structure Term where
  text : Text
deriving DecidableEq, Repr

namespace Term

/-- The term of a part of a rule. -/
def ofPart (part : Text) : Term := ⟨Text.join " " part.words⟩

/-- The pattern of a term, if it has a literal character. -/
def pattern (t : Term) : Option Pattern :=
  let ps := Pattern.ofTerm t.text
  if ps.hasLiteral then some ps else none

/-- Whether the term has a pattern. -/
def satisfiable (t : Term) : Bool := t.pattern.isSome

/-- The written form of the pattern. -/
def regex (t : Term) : Option Text := t.pattern.map Pattern.regex

/-- Whether the term is found in a text. -/
def foundIn (t : Term) (s : Text) : Bool := t.pattern.any fun ps => ps.foundIn s

/-- The written form of the pattern of any text, taken as a term without being made normal. -/
def regexOf (text : Text) : Option Text := Term.regex ⟨text⟩

end Term

/-- An alternative: every term must be found. -/
structure Clause where
  terms : List Term
deriving DecidableEq, Repr

namespace Clause

/-- Whether the clause has terms and all of them have patterns. -/
def satisfiable (c : Clause) : Bool := !c.terms.isEmpty && c.terms.all Term.satisfiable

/-- Whether every term of the clause is found in a text. -/
def holdsOf (c : Clause) (s : Text) : Bool := c.satisfiable && c.terms.all (·.foundIn s)

/-- The clause in words. -/
def describe (c : Clause) : Text :=
  let terms := c.terms.map fun t => if t.text.isEmpty then "<empty>" else t.text
  let inner := Text.join " AND " terms
  if 1 < c.terms.length then Text.concat ["(", inner, ")"] else inner

end Clause

/-- What a rule compiles to, together with the rule. -/
structure Predicate where
  clauses : List Clause
  rule : Text
deriving DecidableEq, Repr

namespace Predicate

/-- Predicates are equivalent when their clauses are the same, whatever the rules looked like. -/
def equivalent (p q : Predicate) : Bool := p.clauses = q.clauses

/-- Whether there are no clauses. -/
def isEmpty (p : Predicate) : Bool := p.clauses.isEmpty

/-- Whether some clause holds of the text. Nothing matches a text that is empty or absent. -/
def holdsOf (p : Predicate) : Option Text → Bool
  | none => false
  | some s => !s.isEmpty && p.clauses.any (·.holdsOf s)

/-- The predicate in words. -/
def describe (p : Predicate) : Text :=
  if p.clauses.isEmpty then "<never>" else Text.join " OR " (p.clauses.map Clause.describe)

/-- The predicate of a rule; an absent rule is a blank one. -/
def ofRule (rule : Option Text) : Predicate :=
  let text := rule.getD []
  if text.isBlank then ⟨[], text⟩
  else ⟨(Rule.split text).map fun parts => ⟨parts.map Term.ofPart⟩, text⟩

/-- One warning for each term that can never be found. -/
def warnings (p : Predicate) : Log :=
  (p.clauses.flatMap Clause.terms).filterMap fun t =>
    if t.satisfiable then none
    else some ⟨.warning, .compiler, Text.concat
      ["Rule '", p.rule, "' contains an empty term; its clause will never match"]⟩

end Predicate

end TitleClasses
