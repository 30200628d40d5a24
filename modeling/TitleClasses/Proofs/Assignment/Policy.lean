import TitleClasses.Assignment.Policy
import TitleClasses.Proofs.Rule.Engine

/-!
# What a policy finds does not depend on the engine

An action on an engine is `Steady` when it does with the engine what callers may do, and answers alike
in any two sound engines that refuse the same rules. Each way of building an action keeps this, so it
holds of all that a policy does (`steady_assignRecords`). What a policy finds in records depends on
nothing but their pairs of rule and label (`assignRecords_congr`).
-/

namespace TitleClasses

namespace Engine

variable {α β : Type}

/-- Whether an action answers alike in sound engines that refuse the same rules, and leaves an engine
behind some calls. -/
structure Steady (a : Action Engine α) : Prop where
  agrees : ∀ {e e' : Engine}, e.Sound → e'.Sound → e.refusal = e'.refusal →
    (a.run e).result = (a.run e').result
  calls : ∀ e : Engine, ∃ calls : List Call, (a.run e).state = calls.foldl Call.effect e

/-- A sound engine stays sound, with the same rules refused. -/
theorem Steady.sound {a : Action Engine α} (ha : Steady a) {e : Engine} (he : e.Sound) :
    (a.run e).state.Sound ∧ (a.run e).state.refusal = e.refusal := by
  obtain ⟨calls, hcalls⟩ := ha.calls e
  rw [hcalls]
  exact foldl_sound he calls

/-- An action that leaves every engine as it is and answers the same in all of them. -/
theorem steady_of_const {a : Action Engine α} {x : Except Fault α}
    (h : ∀ e, (a.run e).result = x ∧ (a.run e).state = e) : Steady a where
  agrees := fun {e e'} _ _ _ => (h e).1.trans (h e').1.symm
  calls := fun e => ⟨[], (h e).2⟩

theorem steady_pure (x : α) : Steady (pure x) := steady_of_const fun _ => ⟨rfl, rfl⟩

theorem steady_fail (f : Fault) : Steady (Action.fail f : Action Engine α) :=
  steady_of_const fun _ => ⟨rfl, rfl⟩

theorem steady_ofExcept (x : Except Fault α) : Steady (Action.ofExcept x) := by
  refine steady_of_const (x := x) fun e => ?_
  rw [Action.run_ofExcept]
  exact ⟨rfl, rfl⟩

theorem steady_note (level : Level) (source : LogSource) (m : Text) :
    Steady (Action.note level source m) := steady_of_const fun _ => ⟨rfl, rfl⟩

/-- One action after another. -/
theorem Steady.bind {a : Action Engine α} {b : α → Action Engine β} (ha : Steady a)
    (hb : ∀ x, Steady (b x)) : Steady (a >>= b) where
  agrees := by
    intro e e' he he' hr
    -- Both engines are sound after the first action, and still refuse the same rules.
    have heq := ha.agrees he he' hr
    obtain ⟨hs, hf⟩ := ha.sound he
    obtain ⟨hs', hf'⟩ := ha.sound he'
    rcases h : (a.run e).result with f | x
    · rw [Action.run_bind_error h, Action.run_bind_error (heq ▸ h)]
    · rw [Action.run_bind_ok h, Action.run_bind_ok (heq ▸ h)]
      exact (hb x).agrees hs hs' (by rw [hf, hf', hr])
  calls := by
    intro e
    obtain ⟨calls, hcalls⟩ := ha.calls e
    rcases h : (a.run e).result with f | x
    · exact ⟨calls, by rw [Action.run_bind_error h, hcalls]⟩
    · obtain ⟨more, hmore⟩ := (hb x).calls (a.run e).state
      exact ⟨calls ++ more, by rw [Action.run_bind_ok h, hmore, hcalls, List.foldl_append]⟩

theorem Steady.attempt {a : Action Engine α} (ha : Steady a) : Steady (Action.attempt a) where
  agrees := fun he he' hr => congrArg Except.ok (ha.agrees he he' hr)
  calls := ha.calls

theorem steady_each {f : α → Action Engine β} (h : ∀ x, Steady (f x)) (xs : List α) :
    Steady (Action.each f xs) := by
  induction xs with
  | nil => exact steady_pure []
  | cons x xs ih =>
    rw [Action.each_cons]
    exact (h x).bind fun y => ih.bind fun ys => steady_pure (y :: ys)

theorem steady_matchRule (rule text : Option Text) : Steady (matchRule rule text) where
  agrees := by
    intro e e' he he' hr
    rw [(matchRule_run he rule text).1, (matchRule_run he' rule text).1, hr]
  calls := fun _ => ⟨[.matching rule text], rfl⟩

end Engine

namespace Policy

open Engine

/-! ### What a policy does -/

theorem steady_evaluate (subject : Option Text) (pair : RulePair) :
    Steady (evaluate subject pair) := by
  unfold evaluate
  split
  · refine (steady_matchRule _ _).attempt.bind fun x => ?_
    split
    · exact steady_pure _
    · exact steady_pure _
    · exact (steady_note _ _ _).bind fun _ => steady_pure _
    · exact steady_fail _
  · exact (steady_note _ _ _).bind fun _ => steady_pure _

theorem steady_assignChunk (subject : Option Text) (pairs : List RulePair) :
    Steady (assignChunk subject pairs) :=
  (steady_each (steady_evaluate subject) pairs).bind fun _ => steady_pure _

theorem steady_assign (p : Policy) (pairs : List RulePair) (subject : Option Text) :
    Steady (p.assign pairs subject) := by
  unfold assign
  split
  · exact steady_assignChunk subject pairs
  · exact (steady_ofExcept _).bind fun chunks =>
      (steady_each (steady_assignChunk subject) chunks).bind fun _ => steady_pure _

theorem steady_pairOrWarning (p : Policy) (r : Record) : Steady (p.pairOrWarning r) := by
  unfold pairOrWarning
  split
  · exact steady_pure _
  · exact (steady_note _ _ _).bind fun _ => steady_pure _
  · exact steady_fail _

/-- What a policy finds in records does not depend on the engine it evaluates their rules with. -/
theorem steady_assignRecords (p : Policy) (records : List Record) (subject : Option Text) :
    Steady (p.assignRecords records subject) :=
  (steady_each p.steady_pairOrWarning records).bind fun _ => p.steady_assign _ subject

/-- A policy that reads its rules and labels from other fields or with other workers is another policy;
records with the same pairs are the same to one policy. -/
theorem assignRecords_congr (p : Policy) {records records' : List Record}
    (h : records.map p.pairOf = records'.map p.pairOf) (subject : Option Text) :
    p.assignRecords records subject = p.assignRecords records' subject := by
  have heach : Action.each p.pairOrWarning records = Action.each p.pairOrWarning records' := by
    induction records generalizing records' with
    | nil =>
      rw [List.map_nil] at h
      rw [List.map_eq_nil_iff.mp h.symm]
    | cons r records ih =>
      obtain ⟨r', rest, rfl, hr, hrest⟩ := List.map_eq_cons_iff.mp h.symm
      have hpair : p.pairOrWarning r = p.pairOrWarning r' := by
        unfold pairOrWarning
        rw [hr]
      rw [Action.each_cons, Action.each_cons, hpair, ih hrest.symm]
  unfold assignRecords
  rw [heach]

end Policy

end TitleClasses
