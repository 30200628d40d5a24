import Mathlib.Tactic.SplitIfs
import TitleClasses.Proofs.Action
import TitleClasses.Rule.Engine

/-!
# The engine's cache is transparent

`Sound` is the invariant of an engine: what it keeps for a rule is the predicate of that rule, and the
rule compiles. `predicateFor_run` and `matchRule_run` say what a request leaves behind in a sound
engine: the answer does not depend on what was kept, and the engine is sound again. `after_sound` takes
this over any sequence of calls on a new engine.
-/

namespace TitleClasses.Engine

/-- An engine is sound when what it keeps for a rule is the predicate of that rule, and the rule
compiles. -/
def Sound (e : Engine) : Prop :=
  ∀ rule m, e.find? rule = some m → m.predicate = Predicate.ofRule rule ∧ e.refusal rule = none

/-- The predicate of a rule, or the fault of a rule that does not compile. -/
def compiled (refusal : Option Text → Option CompileError) (rule : Option Text) :
    Except Fault Predicate :=
  match refusal rule with
  | some error => .error (.uncompilable error)
  | none => .ok (Predicate.ofRule rule)

theorem new_sound (refusal : Option Text → Option CompileError) : (new refusal).Sound := by
  intro rule m h
  simp [new, find?] at h

/-- Making log records does not touch an engine. -/
@[simp] theorem keepLog_eq (l : Log) (e : Engine) : LogKeeper.keep l e = e := rfl

theorem clear_sound {e : Engine} : (clear.run e).state.Sound := by
  intro rule m h
  simp [clear, find?] at h

/-- A predicate that is kept in addition is found for its rule, unless an earlier one is. -/
theorem find?_append (e : Engine) (rule other : Option Text) (m : Made) :
    find? { e with kept := e.kept ++ [(rule, m)] } other =
      (e.find? other).or (if other = rule then some m else none) := by
  unfold find?
  rw [List.lookup_append]
  congr 1
  by_cases h : other = rule
  · simp [h]
  · have hb : (other == rule) = false := by simpa using h
    simp [List.lookup_cons, h, hb]

/-- Keeping the predicate of a rule that compiles leaves a sound engine and gives such a predicate. -/
theorem keep_run {e : Engine} (he : e.Sound) {rule : Option Text} {m : Made}
    (hm : m.predicate = Predicate.ofRule rule) (hc : e.refusal rule = none) :
    let o := (keep rule m).run e
    (∃ n, o.result = .ok n ∧ n.predicate = Predicate.ofRule rule) ∧
      o.state.Sound ∧ o.state.refusal = e.refusal := by
  unfold keep
  rw [Action.run_state_bind]
  cases hf : e.find? rule with
  | some old =>
    -- What was kept before stays, and is right already.
    exact ⟨⟨old, rfl, (he rule old hf).1⟩, he, rfl⟩
  | none =>
    refine ⟨⟨m, rfl, hm⟩, ?_, rfl⟩
    intro other n hn
    change find? { e with kept := e.kept ++ [(rule, m)] } other = some n at hn
    rw [find?_append] at hn
    cases ho : e.find? other with
    | some old =>
      rw [ho, Option.some_or] at hn
      exact he other n (ho.trans hn)
    | none =>
      rw [ho, Option.none_or] at hn
      split_ifs at hn with h
      obtain rfl := Option.some.inj hn
      rw [h]
      exact ⟨hm, hc⟩

/-- Compiling makes the predicate of the rule or gives its fault, and keeps nothing. -/
theorem compile_run (e : Engine) (rule : Option Text) :
    let o := (compile rule).run e
    o.result.map Made.predicate = compiled e.refusal rule ∧
      o.state.kept = e.kept ∧ o.state.refusal = e.refusal := by
  unfold compile compiled
  rw [Action.run_state_bind]
  cases h : e.refusal rule with
  | some error => exact ⟨rfl, rfl, rfl⟩
  | none => exact ⟨rfl, rfl, rfl⟩

/-- A sound engine gives the predicate of a rule that compiles, whatever it keeps, and stays sound. -/
theorem predicateFor_run {e : Engine} (he : e.Sound) (rule : Option Text) :
    let o := (predicateFor rule).run e
    o.result.map Made.predicate = compiled e.refusal rule ∧
      o.state.Sound ∧ o.state.refusal = e.refusal := by
  unfold predicateFor
  rw [Action.run_state_bind]
  cases hf : e.find? rule with
  | some m =>
    obtain ⟨hm, hc⟩ := he rule m hf
    refine ⟨?_, he, rfl⟩
    simp [compiled, hc, hm, Except.map]
  | none =>
    -- Compiling keeps nothing, so that the engine is as sound after it as before.
    obtain ⟨hr, hk, hf⟩ := compile_run e rule
    have hs : ((compile rule).run e).state.Sound := by
      intro other m ho
      rw [hf]
      exact he other m (by rw [← ho, find?, find?, hk])
    cases hm : ((compile rule).run e).result with
    | error f =>
      rw [Action.run_bind_error hm]
      rw [hm] at hr
      exact ⟨hr, hs, hf⟩
    | ok m =>
      rw [Action.run_bind_ok hm]
      rw [hm] at hr
      have hc : e.refusal rule = none ∧ m.predicate = Predicate.ofRule rule := by
        unfold compiled at hr
        cases hx : e.refusal rule with
        | some error => simp [hx, Except.map] at hr
        | none => simpa [hx, Except.map] using hr
      obtain ⟨⟨n, hn, hp⟩, hs', hf'⟩ := keep_run hs hc.2 (by rw [hf]; exact hc.1)
      refine ⟨?_, hs', hf'.trans hf⟩
      simp [hn, hp, compiled, hc.1, Except.map]

/-- Matching with a sound engine answers as the predicate of the rule does, and leaves it sound. -/
theorem matchRule_run {e : Engine} (he : e.Sound) (rule text : Option Text) :
    let o := (matchRule rule text).run e
    o.result = (compiled e.refusal rule).map (·.holdsOf text) ∧
      o.state.Sound ∧ o.state.refusal = e.refusal := by
  obtain ⟨hr, hs, hf⟩ := predicateFor_run he rule
  unfold matchRule
  cases hm : ((predicateFor rule).run e).result with
  | error f =>
    rw [Action.run_bind_error hm]
    rw [hm] at hr
    exact ⟨by rw [← hr]; rfl, hs, hf⟩
  | ok m =>
    rw [Action.run_bind_ok hm]
    rw [hm] at hr
    exact ⟨by rw [← hr]; rfl, hs, hf⟩

/-! ### Calls -/

/-- What callers do with an engine. -/
inductive Call where
  | matching (rule text : Option Text)
  | predicate (rule : Option Text)
  /-- Another worker keeps the predicate it has compiled for a rule, under the number it had made. -/
  | meanwhile (rule : Option Text) (serial : Nat)
  | clear

/-- The engine after a call. -/
def Call.effect (e : Engine) : Call → Engine
  | .matching rule text => ((matchRule rule text).run e).state
  | .predicate rule => ((predicateFor rule).run e).state
  | .meanwhile rule serial =>
    match e.refusal rule with
    | some _ => e
    | none => ((keep rule ⟨Predicate.ofRule rule, serial⟩).run e).state
  | .clear => (Engine.clear.run e).state

/-- A new engine after some calls. -/
def after (refusal : Option Text → Option CompileError) (calls : List Call) : Engine :=
  calls.foldl Call.effect (new refusal)

/-- A call leaves a sound engine sound, with the same rules refused. -/
theorem Call.effect_sound {e : Engine} (he : e.Sound) (c : Call) :
    (c.effect e).Sound ∧ (c.effect e).refusal = e.refusal := by
  cases c with
  | matching rule text => exact (matchRule_run he rule text).2
  | predicate rule => exact (predicateFor_run he rule).2
  | meanwhile rule serial =>
    cases hc : e.refusal rule with
    | some error =>
      simpa only [effect, hc, and_true] using he
    | none =>
      have hp : (⟨Predicate.ofRule rule, serial⟩ : Made).predicate = Predicate.ofRule rule := rfl
      simpa only [effect, hc] using (keep_run he hp hc).2
  | clear => exact ⟨clear_sound, rfl⟩

/-- Calls leave a sound engine sound, with the same rules refused. -/
theorem foldl_sound {e : Engine} (he : e.Sound) (calls : List Call) :
    (calls.foldl Call.effect e).Sound ∧ (calls.foldl Call.effect e).refusal = e.refusal := by
  induction calls generalizing e with
  | nil => exact ⟨he, rfl⟩
  | cons c calls ih =>
    obtain ⟨hs, hf⟩ := Call.effect_sound he c
    obtain ⟨hs', hf'⟩ := ih hs
    exact ⟨hs', hf'.trans hf⟩

/-- Whatever was called, an engine is sound, and refuses what it refused when it was new. -/
theorem after_sound (refusal : Option Text → Option CompileError) (calls : List Call) :
    (after refusal calls).Sound ∧ (after refusal calls).refusal = refusal :=
  foldl_sound (new_sound refusal) calls

end TitleClasses.Engine
