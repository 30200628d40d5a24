import TitleClasses.Fault
import TitleClasses.Log

/-!
# Actions

An action works on a state. It answers with a value or a fault, and in either case leaves a state and
a log behind: what was done before a fault stays done, and a state that keeps log records has those that
were made. The state is as small as the action allows, so
that its type tells what the action can change; `Action.within` lets an action on a part of a state
act on the whole.
-/

namespace TitleClasses

/-- What an action leaves behind. -/
structure Outcome (σ α : Type) where
  result : Except Fault α
  state : σ
  log : Log

/-- Something done to a state. -/
def Action (σ α : Type) : Type := σ → Outcome σ α

namespace Action

variable {σ τ α β : Type}

/-- What the action leaves behind when it begins in the given state. -/
def run (a : Action σ α) (s : σ) : Outcome σ α := a s

/-- The action that only answers. -/
def answer (x : α) : Action σ α := fun s => ⟨.ok x, s, []⟩

/-- The action that only fails. -/
def fail (f : Fault) : Action σ α := fun s => ⟨.error f, s, []⟩

/-- One action after another, the second only if the first gives an answer. -/
def andThen (a : Action σ α) (b : α → Action σ β) : Action σ β := fun s =>
  match a s with
  | ⟨.ok x, s', l⟩ =>
    let o := b x s'
    ⟨o.result, o.state, l ++ o.log⟩
  | ⟨.error f, s', l⟩ => ⟨.error f, s', l⟩

instance : Monad (Action σ) where
  pure := answer
  bind := andThen

/-- The present state. -/
def state : Action σ σ := fun s => ⟨.ok s, s, []⟩

/-- Puts another state in the place of the present one. -/
def replace (s : σ) : Action σ Unit := fun _ => ⟨.ok (), s, []⟩

/-- Changes the state. -/
def update (f : σ → σ) : Action σ Unit := fun s => ⟨.ok (), f s, []⟩

/-- Makes log records. -/
def tell [LogKeeper σ] (l : Log) : Action σ Unit := fun s => ⟨.ok (), LogKeeper.keep l s, l⟩

/-- Makes one log record. -/
def note [LogKeeper σ] (level : Level) (source : LogSource) (message : Text) : Action σ Unit :=
  tell [⟨level, source, message⟩]

/-- The answer, or the fault, if there is one, as a value; the action itself does not fail. -/
def attempt (a : Action σ α) : Action σ (Except Fault α) := fun s =>
  let o := a s
  ⟨.ok o.result, o.state, o.log⟩

/-- The action without its log. -/
def unlogged (a : Action σ α) : Action σ α := fun s => { a s with log := [] }

/-- The action of a value or a fault that is known. -/
def ofExcept : Except Fault α → Action σ α
  | .ok x => answer x
  | .error f => fail f

/-- An action on a part of the state, as one on the whole. The part keeps the records that are made. -/
def within (get : τ → σ) (set : σ → τ → τ) (a : Action σ α) : Action τ α := fun t =>
  let o := a (get t)
  ⟨o.result, set o.state t, o.log⟩

/-- Does an action for each item in order, until one fails, and gives the answers. -/
def each (f : α → Action σ β) : List α → Action σ (List β)
  | [] => answer []
  | x :: xs => do
    let y ← f x
    let ys ← each f xs
    answer (y :: ys)

end Action

end TitleClasses
