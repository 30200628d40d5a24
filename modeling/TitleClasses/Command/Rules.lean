import TitleClasses.Command.Markup
import TitleClasses.Command.Session

/-!
# Commands on a single rule

One command tells whether a rule matches a text, and ends with zero only if it does; the other shows
the patterns that the rule compiles to. A rule that does not compile is a notice.
-/

namespace TitleClasses.Command

/-- Goes on with the answer of the engine; that a rule does not compile is told as a notice. -/
def withRule {α : Type} (command : CommandName) (ask : Action Engine α)
    (next : α → Action Session Ending) : Action Session Ending := do
  match ← Action.attempt (Session.onEngine ask) with
  | .ok x => next x
  | .error (.uncompilable e) => pure (.notice ⟨.badValue "RULE" e.message, command⟩)
  | .error f => Action.fail f

/-- Tells whether a rule matches a text. -/
def matching (rule text : Text) : Action Session Ending :=
  withRule .matching (Engine.matchRule (some rule) (some text)) fun found => do
    if found then
      Session.say "[bold green]match[/bold green]"
      pure (.exit 0)
    else
      Session.say "[yellow]no match[/yellow]"
      pure (.exit 1)

/-- The row for a term: the number of its clause, the term and its pattern. -/
def termRow (number : Nat) (t : Term) : List Text :=
  [Text.ofNat number, Markup.escapeOr "<empty>" t.text,
    (t.regex.map Markup.escape).getD "[red]never matches[/red]"]

/-- The table of a predicate, with a row for each term of each clause. -/
def predicateTable (p : Predicate) : PrintedTable where
  title := Markup.escape p.describe
  columns := ["Clause", "Term", "Pattern"]
  rows := (p.clauses.zipIdx 1).flatMap fun (c, number) => c.terms.map (termRow number)

/-- Shows what a rule compiles to. -/
def explain (rule : Text) : Action Session Ending :=
  withRule .explain (Engine.predicateFor (some rule)) fun m => do
    if m.predicate.isEmpty then Session.say "[yellow]Empty rule, it never matches.[/yellow]"
    else Session.print (.table (predicateTable m.predicate))
    pure (.exit 0)

end TitleClasses.Command
