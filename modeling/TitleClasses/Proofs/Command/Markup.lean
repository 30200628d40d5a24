import Mathlib.Tactic.SplitIfs
import TitleClasses.Command.Markup

/-!
# Texts that are escaped as they are

Escaping only ever adds backslashes (`Markup.length_le_escape`). It adds none exactly where there is nothing to
escape (`Markup.escape_eq_self_iff`): no bracket opens a tag, and the text does not end in a single
backslash. Any other text is changed by escaping it, so it makes a difference whether it is.
-/

namespace TitleClasses.Markup

/-- Whether there is nothing in a text that has to be escaped. -/
structure Inert (t : Text) : Prop where
  noTag : ∀ before after, t = before ++ ('[' : CodePoint) :: after → opensTag after = false
  ending : endsInBackslash t = false

theorem inert_nil : Inert [] where
  noTag before after h := by simp at h
  ending := rfl

theorem length_le_escapeTags (run : Nat) (t : Text) : t.length ≤ (escapeTags run t).length := by
  induction t generalizing run with
  | nil => exact Nat.le_refl 0
  | cons c r ih =>
    rw [escapeTags]
    split_ifs
    · exact Nat.succ_le_succ (ih _)
    · rw [List.length_append, List.length_cons, List.length_cons, List.length_replicate]
      have := ih 0
      omega
    · exact Nat.succ_le_succ (ih _)

/-- Escaping only adds to a text. -/
theorem length_le_escape (t : Text) : t.length ≤ (escape t).length := by
  have hle := length_le_escapeTags 0 t
  unfold escape
  dsimp only
  split_ifs
  · rw [List.length_append]
    exact Nat.le_add_right_of_le hle
  · exact hle

/-- The tags of a text are escaped by adding nothing exactly if there are none. -/
theorem escapeTags_eq_self_iff {run : Nat} {t : Text} : escapeTags run t = t ↔
    ∀ before after, t = before ++ ('[' : CodePoint) :: after → opensTag after = false := by
  induction t generalizing run with
  | nil =>
    refine ⟨fun _ before after h => ?_, fun _ => rfl⟩
    simp at h
  | cons c r ih =>
    -- The brackets of the text are the first character, if it is one, and those of the rest.
    have hsplit :
        (∀ before after, c :: r = before ++ ('[' : CodePoint) :: after → opensTag after = false) ↔
        (c = ('[' : CodePoint) → opensTag r = false) ∧
          ∀ before after, r = before ++ ('[' : CodePoint) :: after → opensTag after = false := by
      constructor
      · exact fun h => ⟨fun hc => h [] r (by rw [hc, List.nil_append]),
          fun before after hr => h (c :: before) after (by rw [hr, List.cons_append])⟩
      · rintro ⟨hfirst, hrest⟩ before after h
        cases before with
        | nil =>
          obtain ⟨hc, rfl⟩ := List.cons.inj h
          exact hfirst hc
        | cons d before => exact hrest before after (List.cons.inj h).2
    rw [hsplit, escapeTags]
    split_ifs with hback htag
    · rw [List.cons.injEq, ih]
      have hne : c ≠ ('[' : CodePoint) := by
        rw [hback]
        decide
      exact ⟨fun h => ⟨fun hc => absurd hc hne, h.2⟩, fun h => ⟨rfl, h.2⟩⟩
    · -- There are more characters than before.
      simp only [Bool.and_eq_true, decide_eq_true_eq] at htag
      refine ⟨fun h => ?_, fun h => ?_⟩
      · have hlength := congrArg List.length h
        have hle := length_le_escapeTags 0 r
        simp only [List.length_append, List.length_replicate, List.length_cons] at hlength
        omega
      · rw [h.1 htag.1] at htag
        cases htag.2
    · rw [List.cons.injEq, ih]
      have hfirst : c = ('[' : CodePoint) → opensTag r = false := fun hc => by
        simpa [hc] using htag
      exact ⟨fun h => ⟨hfirst, h.2⟩, fun h => ⟨rfl, h.2⟩⟩

/-- A text is escaped as it is exactly if there is nothing to escape. -/
theorem escape_eq_self_iff {t : Text} : escape t = t ↔ Inert t := by
  unfold escape
  dsimp only
  constructor
  · intro h
    have hle := length_le_escapeTags 0 t
    split_ifs at h with hend
    · have hlength := congrArg List.length h
      rw [List.length_append, List.length_singleton] at hlength
      omega
    · refine ⟨escapeTags_eq_self_iff.mp h, ?_⟩
      rw [h] at hend
      exact eq_false_of_ne_true hend
  · intro h
    rw [escapeTags_eq_self_iff.mpr h.noTag, h.ending, if_neg Bool.false_ne_true]

end TitleClasses.Markup
