import TitleClasses.Action
import TitleClasses.Rule.Predicate

/-!
# The rule engine

An engine compiles each rule once and keeps the predicate. A rule that does not compile is not kept.
The work on one rule is three atomic parts, which workers that share an engine may interleave: looking
the rule up, compiling it, and keeping the predicate unless another one was kept meanwhile.
-/

namespace TitleClasses

/-- A predicate together with the number under which it was made; two predicates made for one rule are
told apart by it. -/
structure Made where
  predicate : Predicate
  serial : Nat
deriving DecidableEq, Repr

/-- An engine: which rules do not compile, the predicates that are kept, the latest last, and how many
were made. -/
structure Engine where
  refusal : Option Text → Option CompileError
  kept : List (Option Text × Made)
  made : Nat

/-- An engine keeps no log records. -/
instance : LogKeeper Engine where
  keep _ e := e

namespace Engine

/-- An engine that keeps nothing yet. -/
def new (refusal : Option Text → Option CompileError) : Engine := ⟨refusal, [], 0⟩

/-- How many rules have a predicate that is kept. -/
def size (e : Engine) : Nat := e.kept.length

/-- The predicate that is kept for a rule. -/
def find? (e : Engine) (rule : Option Text) : Option Made := e.kept.lookup rule

/-- Compiles a rule, without keeping the predicate. -/
def compile (rule : Option Text) : Action Engine Made := do
  let e ← Action.state
  match e.refusal rule with
  | some error => Action.fail (.uncompilable error)
  | none =>
    let p := Predicate.ofRule rule
    Action.tell p.warnings
    Action.replace { e with made := e.made + 1 }
    pure ⟨p, e.made⟩

/-- Keeps a predicate for a rule unless there is one, and gives the one that is kept. -/
def keep (rule : Option Text) (m : Made) : Action Engine Made := do
  let e ← Action.state
  match e.find? rule with
  | some old => pure old
  | none =>
    Action.replace { e with kept := e.kept ++ [(rule, m)] }
    pure m

/-- The predicate of a rule, compiled if none is kept. -/
def predicateFor (rule : Option Text) : Action Engine Made := do
  let e ← Action.state
  match e.find? rule with
  | some m => pure m
  | none => do
    let m ← compile rule
    keep rule m

/-- Whether the rule matches the text. -/
def matchRule (rule : Option Text) (text : Option Text) : Action Engine Bool := do
  let m ← predicateFor rule
  let found := m.predicate.holdsOf text
  let verb : Text := if found then "matches" else "does not match"
  Action.note .debug .engine (Text.concat
    ["Rule ", Text.quotedOption rule, " ", verb, " ", Text.quotedOption text])
  pure found

/-- Forgets all predicates. -/
def clear : Action Engine Unit := Action.update fun e => { e with kept := [] }

end Engine

/-- Whether a rule matches a text, by an engine of its own. -/
def ruleMatches (rule text : Option Text) : Bool := (Predicate.ofRule rule).holdsOf text

end TitleClasses
