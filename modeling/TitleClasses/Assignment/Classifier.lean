import TitleClasses.Assignment.Policy
import TitleClasses.Document.Element

/-!
# Classification

A strategy gives labels for an element, or fails. Classifying joins the labels of all strategies,
stripped and without blank ones, into one increasing list; it fails with the first strategy that
fails, so that an answer is never the labels of a part of the strategies.
-/

namespace TitleClasses

/-- A way to find labels for an element, with the name it has in the log. -/
structure Strategy (σ : Type) where
  name : Text
  labels : Element → Action σ (List (Option Text))

namespace Strategy

variable {σ : Type}

/-- Matches the subject of the element against the records of a vocabulary. An element without a
subject has no labels, and its vocabulary is not asked for. -/
def ofVocabulary [LogKeeper σ] (policy : Policy) (records : Action σ (List Record))
    (engine : Action Engine (List Text) → Action σ (List Text)) (subjectField : Json) : Strategy σ where
  name := "VocabularyStrategy"
  labels element := do
    let subject := element.subject subjectField
    if subject.isEmpty then
      Action.note .info .strategy (Text.concat
        ["No ", subjectField.display, " metadata found, nothing to classify"])
      pure []
    else
      let found ← engine (policy.assignRecords (← records) (some subject))
      pure (found.map some)

/-- The labels in the order in which the log shows them: increasing, absent ones last. -/
def shown (labels : List (Option Text)) : List Text :=
  (Text.sorted (labels.filterMap id)).map Text.quoted ++
    (labels.filter Option.isNone).map Text.quotedOption

end Strategy

namespace Classifier

variable {σ : Type} [LogKeeper σ]

/-- The distinct labels that are there and not blank, stripped and in increasing order. -/
def clean (labels : List (Option Text)) : List Text :=
  Text.sortDistinct ((labels.filterMap Policy.usable?).map Text.strip)

/-- The labels of one strategy. -/
def ask (element : Element) (s : Strategy σ) : Action σ (List (Option Text)) := do
  let found ← s.labels element
  Action.note .debug .classifier (Text.concat
    [s.name, " labels: ", Text.bracketed (Strategy.shown found)])
  pure found

/-- The labels of all strategies. -/
def classify (strategies : List (Strategy σ)) (element : Element) : Action σ (List Text) := do
  let found ← Action.each (ask element) strategies
  let labels := clean found.flatten
  Action.note .info .classifier (Text.concat
    [element.type, " classified as ", Text.quotedList labels])
  pure labels

end Classifier

end TitleClasses
