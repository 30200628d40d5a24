import TitleClasses.Proofs.Assignment.Finding

/-!
# Workers that share an engine

A worker goes through the pairs of its chunk. For each it looks up the rule, compiles it if no predicate
is kept, and keeps the predicate it has made unless another one was kept meanwhile; between these parts
the other workers may do theirs. A pool takes one part of one worker after another, by a schedule.

`Worker.step_part` says all that one part can do. A worker that is never interrupted does what a chunk
does (`steps_alone`). In a pool each worker stands behind pairs whose labels it has found and whose rules
have been kept (`Worker.Valid`), whatever the schedule (`Pool.run_valid`). So a pool that has finished has
found the labels of all pairs; and it finishes as soon as each worker has had three turns for each of its
pairs (`Pool.finished_of_turns`).
-/

namespace TitleClasses.Policy

open Engine

/-- What a worker does next for the first of the pairs that are left: it looks the rule up, or compiles
it, or keeps the predicate that it has made. -/
inductive Phase where
  | asking
  | compiling
  | keeping (m : Made)
deriving DecidableEq, Repr

/-- A worker: the pairs of its chunk that are left, what it does next, and the labels it has found. -/
structure Worker where
  left : List RulePair
  phase : Phase
  found : List Text

namespace Worker

/-- A worker that begins with a chunk. -/
def start (chunk : List RulePair) : Worker := ⟨chunk, .asking, []⟩

/-- The worker with its first pair done, for which it has found a label or none. -/
def next (w : Worker) (label : Option Text) : Worker :=
  ⟨w.left.tail, .asking, w.found ++ label.toList⟩

/-- The worker with its first pair done, by the predicate of the rule. -/
def settle (w : Worker) (subject : Option Text) (label : Text) (m : Made) : Worker :=
  w.next (if m.predicate.holdsOf subject then some label.strip else none)

/-- One part of the work of a worker, which nobody interrupts. -/
def step (subject : Option Text) : Worker × Engine → Worker × Engine
  | (w, e) =>
    match w.left with
    | [] => (w, e)
    | pair :: _ =>
      match usable? pair.1, usable? pair.2 with
      | some rule, some label =>
        match w.phase with
        | .asking =>
          match e.find? (some rule) with
          | some m => (w.settle subject label m, e)
          | none => ({ w with phase := .compiling }, e)
        | .compiling =>
          let o := (compile (some rule)).run e
          match o.result with
          | .ok m => ({ w with phase := .keeping m }, o.state)
          | .error _ => (w.next none, o.state)
        | .keeping m =>
          let o := (keep (some rule) m).run e
          match o.result with
          | .ok kept => (w.settle subject label kept, o.state)
          | .error _ => (w.next none, o.state)
      | _, _ => (w.next none, e)

end Worker

/-- Workers with the engine that they share. -/
structure Pool where
  engine : Engine
  workers : List Worker

namespace Pool

/-- A pool that begins with chunks, one for each worker. -/
def start (e : Engine) (chunks : List (List RulePair)) : Pool := ⟨e, chunks.map Worker.start⟩

/-- The pool after a turn of one of its workers. -/
def turn (subject : Option Text) (p : Pool) (i : Nat) : Pool :=
  match p.workers[i]? with
  | none => p
  | some w =>
    let (w', e) := Worker.step subject (w, p.engine)
    ⟨e, p.workers.set i w'⟩

/-- The pool after turns of its workers in the order of a schedule. -/
def run (subject : Option Text) (p : Pool) (schedule : List Nat) : Pool :=
  schedule.foldl (turn subject) p

/-- Whether no worker has anything left to do. -/
def Finished (p : Pool) : Prop := ∀ w ∈ p.workers, w.left = []

/-- The labels of all workers: each has a set, and the sets are joined. -/
def labels (p : Pool) : List Text :=
  Text.sortDistinct (p.workers.map fun w => Text.sortDistinct w.found).flatten

end Pool

/-! ### One pair -/

section Pair

variable {refusal : Option Text → Option CompileError} {pair : RulePair} {rule label : Text}

/-- A pair lacks a rule or a label that is not blank, or has both. -/
theorem usable_cases (pair : RulePair) : (usable? pair.1 = none ∨ usable? pair.2 = none) ∨
    ∃ rule label, usable? pair.1 = some rule ∧ usable? pair.2 = some label := by
  rcases usable? pair.1 with _ | rule
  · exact .inl (.inl rfl)
  · rcases usable? pair.2 with _ | label
    · exact .inl (.inr rfl)
    · exact .inr ⟨rule, label, rfl, rfl⟩

theorem offer?_of_usable (hrule : usable? pair.1 = some rule) (hlabel : usable? pair.2 = some label)
    (hc : refusal (some rule) = none) : offer? refusal pair = some (rule, label) := by
  simp only [offer?, hrule, hlabel, hc, if_true]

theorem offer?_of_refused (hrule : usable? pair.1 = some rule) (hlabel : usable? pair.2 = some label)
    {error : CompileError} (hc : refusal (some rule) = some error) : offer? refusal pair = none := by
  simp [offer?, hrule, hlabel, hc]

theorem offer?_of_unusable (h : usable? pair.1 = none ∨ usable? pair.2 = none) :
    offer? refusal pair = none := by
  rcases h with h | h
  · simp only [offer?, h]
  · cases hrule : usable? pair.1 <;> simp only [offer?, hrule, h]

theorem usable_of_offer? (h : offer? refusal pair = some (rule, label)) :
    usable? pair.1 = some rule ∧ usable? pair.2 = some label := by
  obtain ⟨rfl, hrule, hlabel, -⟩ := offer?_eq_some.mp h
  exact ⟨usable?_eq_some.mpr ⟨rfl, hrule⟩, usable?_eq_some.mpr ⟨rfl, hlabel⟩⟩

end Pair

/-! ### One worker -/

namespace Worker

variable (subject : Option Text) {w : Worker} {e : Engine} {pair : RulePair} {rest : List RulePair}
  {rule label : Text}

/-- A pair without a rule or without a label is done at once. -/
theorem step_skip (hleft : w.left = pair :: rest)
    (h : usable? pair.1 = none ∨ usable? pair.2 = none) :
    step subject (w, e) = (w.next none, e) := by
  rcases h with h | h
  · simp only [step, hleft, h]
  · cases hrule : usable? pair.1 <;> simp only [step, hleft, hrule, h]

section Usable

variable (hleft : w.left = pair :: rest) (hrule : usable? pair.1 = some rule)
  (hlabel : usable? pair.2 = some label)
include hleft hrule hlabel

theorem step_asking_some (hphase : w.phase = .asking) {m : Made} (hf : e.find? (some rule) = some m) :
    step subject (w, e) = (w.settle subject label m, e) := by
  simp only [step, hleft, hrule, hlabel, hphase, hf]

theorem step_asking_none (hphase : w.phase = .asking) (hf : e.find? (some rule) = none) :
    step subject (w, e) = ({ w with phase := .compiling }, e) := by
  simp only [step, hleft, hrule, hlabel, hphase, hf]

theorem step_compiling_refused (hphase : w.phase = .compiling) {error : CompileError}
    (hc : e.refusal (some rule) = some error) : step subject (w, e) = (w.next none, e) := by
  simp only [step, hleft, hrule, hlabel, hphase, compile_of_refused hc]

theorem step_compiling_accepted (hphase : w.phase = .compiling)
    (hc : e.refusal (some rule) = none) :
    step subject (w, e) = ({ w with phase := .keeping ⟨Predicate.ofRule (some rule), e.made⟩ },
      { e with made := e.made + 1 }) := by
  obtain ⟨log, hrun⟩ := compile_of_accepted hc
  simp only [step, hleft, hrule, hlabel, hphase, hrun]

theorem step_keeping_some {m old : Made} (hphase : w.phase = .keeping m)
    (hf : e.find? (some rule) = some old) :
    step subject (w, e) = (w.settle subject label old, e) := by
  simp only [step, hleft, hrule, hlabel, hphase, keep_of_some m hf]

theorem step_keeping_none {m : Made} (hphase : w.phase = .keeping m)
    (hf : e.find? (some rule) = none) :
    step subject (w, e) = (w.settle subject label m, e.keeping (some rule) m) := by
  simp only [step, hleft, hrule, hlabel, hphase, keep_of_none m hf]

end Usable

/-- All that one part of the work of a worker can do to it and to the engine. -/
inductive Part (w : Worker) (e : Engine) : Worker → Engine → Prop
  /-- Nothing is left to do. -/
  | idle (hleft : w.left = []) : Part w e w e
  /-- A pair that cannot be evaluated is done without a label. -/
  | passed {pair : RulePair} {rest : List RulePair} (hleft : w.left = pair :: rest)
      (hoffer : offer? e.refusal pair = none) : Part w e (w.next none) e
  /-- No predicate is kept for the rule, which will be compiled. -/
  | missed {pair : RulePair} {rest : List RulePair} (hleft : w.left = pair :: rest)
      (hphase : w.phase = .asking) : Part w e { w with phase := .compiling } e
  /-- A predicate is made of the rule under the next number. -/
  | compiled {pair : RulePair} {rest : List RulePair} {rule label : Text}
      (hleft : w.left = pair :: rest) (hoffer : offer? e.refusal pair = some (rule, label))
      (hphase : w.phase = .compiling) :
      Part w e { w with phase := .keeping ⟨Predicate.ofRule (some rule), e.made⟩ }
        { e with made := e.made + 1 }
  /-- The pair is settled by a predicate that is kept, whether the worker looks for one or wants to keep
  its own. -/
  | found {pair : RulePair} {rest : List RulePair} {rule label : Text} {m : Made}
      (hleft : w.left = pair :: rest) (hrule : usable? pair.1 = some rule)
      (hlabel : usable? pair.2 = some label) (hf : e.find? (some rule) = some m) :
      Part w e (w.settle subject label m) e
  /-- The predicate of the worker is kept and settles the pair. -/
  | kept {pair : RulePair} {rest : List RulePair} {rule label : Text} {m : Made}
      (hleft : w.left = pair :: rest) (hrule : usable? pair.1 = some rule)
      (hlabel : usable? pair.2 = some label) (hphase : w.phase = .keeping m)
      (hf : e.find? (some rule) = none) :
      Part w e (w.settle subject label m) (e.keeping (some rule) m)

theorem step_part (w : Worker) (e : Engine) :
    Part subject w e (step subject (w, e)).1 (step subject (w, e)).2 := by
  rcases hleft : w.left with _ | ⟨pair, rest⟩
  · have hstep : step subject (w, e) = (w, e) := by simp only [step, hleft]
    rw [hstep]
    exact .idle hleft
  rcases usable_cases pair with h | ⟨rule, label, hrule, hlabel⟩
  · rw [step_skip subject hleft h]
    exact .passed hleft (offer?_of_unusable h)
  rcases hphase : w.phase with _ | _ | m
  · rcases hf : e.find? (some rule) with _ | m
    · rw [step_asking_none subject hleft hrule hlabel hphase hf]
      exact .missed hleft hphase
    · rw [step_asking_some subject hleft hrule hlabel hphase hf]
      exact .found hleft hrule hlabel hf
  · rcases hc : e.refusal (some rule) with _ | error
    · rw [step_compiling_accepted subject hleft hrule hlabel hphase hc]
      exact .compiled hleft (offer?_of_usable hrule hlabel hc) hphase
    · rw [step_compiling_refused subject hleft hrule hlabel hphase hc]
      exact .passed hleft (offer?_of_refused hrule hlabel hc)
  · rcases hf : e.find? (some rule) with _ | old
    · rw [step_keeping_none subject hleft hrule hlabel hphase hf]
      exact .kept hleft hrule hlabel hphase hf
    · rw [step_keeping_some subject hleft hrule hlabel hphase hf]
      exact .found hleft hrule hlabel hf

/-! ### A worker alone -/

/-- A pair without a rule or without a label is told in the log alone. -/
theorem evaluate_of_unusable (e : Engine) (h : usable? pair.1 = none ∨ usable? pair.2 = none) :
    ((evaluate subject pair).run e).result = .ok none ∧ ((evaluate subject pair).run e).state = e := by
  rcases h with h | h
  · simp only [evaluate, h]
    exact ⟨rfl, rfl⟩
  · cases hrule : usable? pair.1 <;> simp only [evaluate, hrule, h] <;> exact ⟨rfl, rfl⟩

section Evaluate

variable (hrule : usable? pair.1 = some rule) (hlabel : usable? pair.2 = some label)
include hrule hlabel

/-- A pair whose rule has a predicate is evaluated by it. -/
theorem evaluate_of_made {m : Made} (h : ((predicateFor (some rule)).run e).result = .ok m) :
    ((evaluate subject pair).run e).result =
        .ok (if m.predicate.holdsOf subject then some label.strip else none) ∧
      ((evaluate subject pair).run e).state = ((predicateFor (some rule)).run e).state := by
  have hmatch : ((matchRule (some rule) subject).run e).result = .ok (m.predicate.holdsOf subject) := by
    unfold matchRule
    rw [Action.run_bind_ok h]
    rfl
  simp only [evaluate, hrule, hlabel]
  rw [Action.run_attempt_bind hmatch, ← matchRule_state e (some rule) subject]
  cases m.predicate.holdsOf subject with
  | true => exact ⟨rfl, rfl⟩
  | false => exact ⟨rfl, rfl⟩

/-- A pair whose rule does not compile has no label. -/
theorem evaluate_of_refused {error : CompileError}
    (h : ((predicateFor (some rule)).run e).result = .error (.uncompilable error)) :
    ((evaluate subject pair).run e).result = .ok none ∧
      ((evaluate subject pair).run e).state = ((predicateFor (some rule)).run e).state := by
  have hmatch : ((matchRule (some rule) subject).run e).result = .error (.uncompilable error) := by
    unfold matchRule
    rw [Action.run_bind_error h]
  simp only [evaluate, hrule, hlabel]
  rw [Action.run_attempt_bind hmatch, ← matchRule_state e (some rule) subject]
  exact ⟨rfl, rfl⟩

end Evaluate

/-- A worker that nobody interrupts does with its first pair what evaluating it does. -/
theorem steps_pair (hleft : w.left = pair :: rest) (hphase : w.phase = .asking) (e : Engine) :
    ∃ turns found, ((evaluate subject pair).run e).result = .ok found ∧
      (step subject)^[turns] (w, e) = (w.next found, ((evaluate subject pair).run e).state) := by
  rcases usable_cases pair with h | ⟨rule, label, hrule, hlabel⟩
  · obtain ⟨hanswer, hstate⟩ := evaluate_of_unusable subject e h
    refine ⟨1, none, hanswer, ?_⟩
    rw [hstate]
    exact step_skip subject hleft h
  rcases predicateFor_cases e (some rule) with ⟨m, hf, hr, hs⟩ | ⟨error, hf, hc, hr, hs⟩ |
    ⟨hf, hc, hr, hs⟩
  · -- The predicate is found at once.
    obtain ⟨hanswer, hstate⟩ := evaluate_of_made subject hrule hlabel hr
    refine ⟨1, _, hanswer, ?_⟩
    rw [hstate, hs]
    exact step_asking_some subject hleft hrule hlabel hphase hf
  · -- The rule is looked up and refused.
    obtain ⟨hanswer, hstate⟩ := evaluate_of_refused subject hrule hlabel hr
    refine ⟨2, _, hanswer, ?_⟩
    rw [hstate, hs, Function.iterate_succ_apply, step_asking_none subject hleft hrule hlabel hphase hf]
    exact step_compiling_refused subject (w := { w with phase := .compiling }) hleft hrule hlabel rfl hc
  · -- The rule is looked up and compiled, and the predicate is kept.
    obtain ⟨hanswer, hstate⟩ := evaluate_of_made subject hrule hlabel hr
    refine ⟨3, _, hanswer, ?_⟩
    rw [hstate, hs, Function.iterate_succ_apply, Function.iterate_succ_apply,
      step_asking_none subject hleft hrule hlabel hphase hf,
      step_compiling_accepted subject (w := { w with phase := .compiling }) hleft hrule hlabel rfl hc]
    exact step_keeping_none subject
      (w := { w with phase := .keeping ⟨Predicate.ofRule (some rule), e.made⟩ })
      (e := { e with made := e.made + 1 }) hleft hrule hlabel rfl hf

/-- A worker that nobody interrupts does with its chunk what the policy does with a chunk. -/
theorem steps_alone (chunk : List RulePair) (e : Engine) :
    ∃ turns found, (step subject)^[turns] (start chunk, e) =
        (⟨[], .asking, found⟩, ((assignChunk subject chunk).run e).state) ∧
      ((assignChunk subject chunk).run e).result = .ok (Text.sortDistinct found) := by
  -- By induction on the pairs that are left, whatever was found before.
  have hall (pairs : List RulePair) (before : List Text) (e : Engine) :
      ∃ turns answers, ((Action.each (evaluate subject) pairs).run e).result = .ok answers ∧
        (step subject)^[turns] (⟨pairs, .asking, before⟩, e) =
          (⟨[], .asking, before ++ answers.filterMap id⟩,
            ((Action.each (evaluate subject) pairs).run e).state) := by
    induction pairs generalizing before e with
    | nil => exact ⟨0, [], rfl, by simp⟩
    | cons pair pairs ih =>
      obtain ⟨turns, found, hfound, hsteps⟩ :=
        steps_pair subject (w := ⟨pair :: pairs, .asking, before⟩) rfl rfl e
      obtain ⟨more, answers, hanswers, hrest⟩ :=
        ih (before ++ found.toList) ((evaluate subject pair).run e).state
      refine ⟨more + turns, found :: answers, ?_, ?_⟩
      · exact (Action.each_cons_ok hfound hanswers).1
      · rw [Function.iterate_add_apply, hsteps, (Action.each_cons_ok hfound hanswers).2]
        refine hrest.trans ?_
        cases found <;> simp
  obtain ⟨turns, answers, hanswers, hsteps⟩ := hall chunk [] e
  refine ⟨turns, answers.filterMap id, ?_, ?_⟩
  · unfold assignChunk
    rw [Action.run_bind_ok hanswers]
    exact hsteps
  · unfold assignChunk
    rw [Action.run_bind_ok hanswers]
    rfl

end Worker

/-! ### What one part preserves -/

/-- Whether an engine has become another one that keeps what it kept and perhaps predicates of some given
rules. -/
structure Grows (rules : List (Option Text)) (e e' : Engine) : Prop where
  sound : e'.Sound
  refusal : e'.refusal = e.refusal
  old : ∀ rule ∈ e.keys, rule ∈ e'.keys
  new : ∀ rule ∈ e'.keys, rule ∈ e.keys ∨ rule ∈ rules

namespace Grows

variable {rules more : List (Option Text)} {e e' e'' : Engine}

theorem refl (h : e.Sound) : Grows rules e e := ⟨h, rfl, fun _ hr => hr, fun _ hr => .inl hr⟩

theorem trans (h : Grows rules e e') (h' : Grows rules e' e'') : Grows rules e e'' where
  sound := h'.sound
  refusal := h'.refusal.trans h.refusal
  old := fun rule hr => h'.old rule (h.old rule hr)
  new := fun rule hr => (h'.new rule hr).elim (h.new rule) .inr

theorem mono (h : Grows rules e e') (hmore : ∀ rule ∈ rules, rule ∈ more) : Grows more e e' :=
  { h with new := fun rule hr => (h.new rule hr).imp_right (hmore rule) }

/-- Keeping the predicate of a rule that compiles. -/
theorem keeping (h : e.Sound) {rule : Option Text} {m : Made} (hf : e.find? rule = none)
    (hm : m.predicate = Predicate.ofRule rule) (hc : e.refusal rule = none) :
    Grows [rule] e (e.keeping rule m) := by
  obtain ⟨-, hsound, hrefusal⟩ := keep_run h hm hc
  rw [keep_of_none m hf] at hsound hrefusal
  refine ⟨hsound, hrefusal, fun other hr => mem_keys_keeping.mpr (.inl hr), fun other hr => ?_⟩
  rw [mem_keys_keeping] at hr
  exact hr.imp_right List.mem_singleton.mpr

end Grows

section Steps

variable {refusal : Option Text → Option CompileError} {subject : Option Text} {e e' : Engine}
  {pair : RulePair} {rule label : Text}

namespace Worker

/-- Whether a worker stands where it should in its chunk: behind it are pairs whose labels it has found
and whose rules are kept, and the predicate that it holds is that of the rule of its next pair. -/
structure Valid (refusal : Option Text → Option CompileError) (subject : Option Text)
    (chunk : List RulePair) (w : Worker) (e : Engine) : Prop where
  past : ∃ past, chunk = past ++ w.left ∧ w.found = past.filterMap (labelOf refusal subject) ∧
    ∀ rule ∈ rulesOf refusal past, rule ∈ e.keys
  made : ∀ m, w.phase = .keeping m → ∃ pair rest rule label, w.left = pair :: rest ∧
    offer? refusal pair = some (rule, label) ∧ m.predicate = Predicate.ofRule (some rule)

variable {chunk rest : List RulePair} {w : Worker}

theorem valid_start (chunk : List RulePair) (e : Engine) : (start chunk).Valid refusal subject chunk e :=
  ⟨⟨[], rfl, rfl, by simp [rulesOf]⟩, fun m hm => by cases hm⟩

/-- What the other workers keep does not disturb a worker. -/
theorem Valid.mono (h : w.Valid refusal subject chunk e) (hkeys : ∀ rule ∈ e.keys, rule ∈ e'.keys) :
    w.Valid refusal subject chunk e' := by
  obtain ⟨past, hchunk, hfound, hrules⟩ := h.past
  exact ⟨⟨past, hchunk, hfound, fun rule hr => hkeys rule (hrules rule hr)⟩, h.made⟩

/-- A worker that has found the label of its first pair, and kept its rule, stands behind it. -/
theorem Valid.next (h : w.Valid refusal subject chunk e) (hleft : w.left = pair :: rest)
    (hrule : ∀ rule, ruleOf refusal pair = some rule → rule ∈ e.keys) :
    (w.next (labelOf refusal subject pair)).Valid refusal subject chunk e := by
  -- The first pair comes after those that were behind the worker before.
  obtain ⟨past, hchunk, hfound, hrules⟩ := h.past
  refine ⟨⟨past ++ [pair], ?_, ?_, ?_⟩, fun m hm => by cases hm⟩
  · rw [hchunk, hleft]
    simp [Worker.next, hleft]
  · show w.found ++ _ = _
    rw [hfound, List.filterMap_append]
    cases hl : labelOf refusal subject pair <;> simp [hl]
  · intro rule hr
    unfold rulesOf at hr
    rw [List.filterMap_append, List.mem_append] at hr
    rcases hr with hr | hr
    · exact hrules rule hr
    · obtain ⟨other, hmem, hother⟩ := List.mem_filterMap.mp hr
      obtain rfl := List.mem_singleton.mp hmem
      exact hrule rule hother

/-- A pair that cannot be evaluated is done without a label. -/
theorem Valid.next_none (h : w.Valid refusal subject chunk e) (hleft : w.left = pair :: rest)
    (hoffer : offer? refusal pair = none) : (w.next none).Valid refusal subject chunk e := by
  have hnext := h.next hleft fun rule hr => by
    unfold ruleOf at hr
    rw [hoffer] at hr
    cases hr
  unfold labelOf at hnext
  rwa [hoffer] at hnext

/-- A pair is settled by the predicate of its rule once that is kept. -/
theorem Valid.settle (h : w.Valid refusal subject chunk e) (hleft : w.left = pair :: rest)
    (hoffer : offer? refusal pair = some (rule, label)) {m : Made}
    (hm : m.predicate = Predicate.ofRule (some rule)) (hkept : some rule ∈ e.keys) :
    (w.settle subject label m).Valid refusal subject chunk e := by
  have hnext := h.next hleft fun other hr => by
    unfold ruleOf at hr
    rw [hoffer] at hr
    obtain rfl := Option.some.inj hr
    exact hkept
  unfold labelOf at hnext
  rw [hoffer] at hnext
  unfold Worker.settle
  rw [hm]
  exact hnext

/-- The predicate that a worker holds was made of the rule of its first pair. -/
theorem Valid.holds (h : w.Valid refusal subject chunk e) (hleft : w.left = pair :: rest)
    (hrule : usable? pair.1 = some rule) (hlabel : usable? pair.2 = some label) {m : Made}
    (hphase : w.phase = .keeping m) :
    offer? refusal pair = some (rule, label) ∧ m.predicate = Predicate.ofRule (some rule) := by
  obtain ⟨pair', rest', rule', label', hleft', hoffer, hm⟩ := h.made m hphase
  rw [hleft] at hleft'
  obtain ⟨rfl, rfl⟩ := List.cons.inj hleft'
  obtain ⟨hrule', hlabel'⟩ := usable_of_offer? hoffer
  obtain rfl := Option.some.inj (hrule.symm.trans hrule')
  obtain rfl := Option.some.inj (hlabel.symm.trans hlabel')
  exact ⟨hoffer, hm⟩

/-- What one part of a worker does: the engine may come to keep the rule of a pair of the chunk, and the
worker stands where it should. -/
theorem step_valid (he : e.Sound) (hrefusal : e.refusal = refusal)
    (h : w.Valid refusal subject chunk e) :
    let x := step subject (w, e)
    Grows (rulesOf refusal chunk) e x.2 ∧ x.1.Valid refusal subject chunk x.2 := by
  have hpart := step_part subject w e
  generalize step subject (w, e) = x at hpart
  obtain ⟨w', e'⟩ := x
  dsimp only at hpart ⊢
  cases hpart with
  | idle hleft => exact ⟨.refl he, h⟩
  | passed hleft hoffer => exact ⟨.refl he, h.next_none hleft (hrefusal ▸ hoffer)⟩
  | missed hleft hphase => exact ⟨.refl he, h.past, fun m hm => by cases hm⟩
  | compiled hleft hoffer hphase =>
    refine ⟨⟨he, rfl, fun _ hr => hr, fun _ hr => .inl hr⟩, h.past, fun m hm => ?_⟩
    obtain rfl := Phase.keeping.inj hm
    exact ⟨_, _, _, _, hleft, hrefusal ▸ hoffer, rfl⟩
  | found hleft hrule hlabel hf =>
    -- What a sound engine keeps for the rule is its predicate.
    obtain ⟨hm, hc⟩ := he _ _ hf
    have hoffer := offer?_of_usable hrule hlabel (hrefusal ▸ hc)
    exact ⟨.refl he, h.settle hleft hoffer hm (mem_keys_of_find? hf)⟩
  | kept hleft hrule hlabel hphase hf =>
    obtain ⟨hoffer, hm⟩ := h.holds hleft hrule hlabel hphase
    obtain ⟨-, -, -, hc⟩ := offer?_eq_some.mp hoffer
    have hgrows := Grows.keeping he hf hm (hrefusal ▸ hc)
    refine ⟨hgrows.mono fun other hr => ?_, ?_⟩
    · obtain ⟨past, hchunk, -, -⟩ := h.past
      obtain rfl := List.mem_singleton.mp hr
      exact mem_rulesOf.mpr ⟨_, _, offers_iff.mpr ⟨_, by rw [hchunk, hleft]; simp, hoffer⟩, rfl⟩
    · exact (h.mono hgrows.old).settle hleft hoffer hm (mem_keys_keeping.mpr (.inr rfl))

/-- How many parts a worker may still have to do. -/
def rank (w : Worker) : Nat :=
  3 * w.left.length - match w.phase with
    | .asking => 0
    | .compiling => 1
    | .keeping _ => 2

theorem rank_next (hleft : w.left = pair :: rest) (found : Option Text) :
    (w.next found).rank ≤ w.rank - 1 := by
  have hphase : (match w.phase with | .asking => 0 | .compiling => 1 | .keeping _ => 2) ≤ 2 := by
    cases w.phase <;> simp
  simp only [rank, next, hleft, List.tail_cons, List.length_cons]
  omega

/-- A part brings a worker nearer to its end. -/
theorem rank_step (subject : Option Text) (w : Worker) (e : Engine) :
    (step subject (w, e)).1.rank ≤ w.rank - 1 := by
  have hpart := step_part subject w e
  generalize step subject (w, e) = x at hpart
  obtain ⟨w', e'⟩ := x
  dsimp only at hpart ⊢
  cases hpart with
  | idle hleft => simp [rank, hleft]
  | passed hleft hoffer => exact rank_next hleft none
  | missed hleft hphase => simp [rank, hphase]
  | compiled hleft hoffer hphase =>
    simp only [rank, hphase]
    omega
  | found hleft hrule hlabel hf => exact rank_next hleft _
  | kept hleft hrule hlabel hphase hf => exact rank_next hleft _

theorem left_of_rank (h : w.rank = 0) : w.left = [] := by
  unfold rank at h
  cases hleft : w.left with
  | nil => rfl
  | cons pair rest =>
    rw [hleft, List.length_cons] at h
    cases hphase : w.phase <;> simp [hphase] at h <;> omega

end Worker

/-! ### Any schedule -/

namespace Pool

variable {chunks : List (List RulePair)} {p : Pool}

/-- Whether a pool that has begun with an engine stands where it should: the engine has grown by rules of
the chunks, and there is a worker for each chunk, which stands where it should. -/
structure Valid (refusal : Option Text → Option CompileError) (subject : Option Text) (e : Engine)
    (chunks : List (List RulePair)) (p : Pool) : Prop where
  grows : Grows (rulesOf refusal chunks.flatten) e p.engine
  length : p.workers.length = chunks.length
  workers : ∀ (i : Nat) chunk w, chunks[i]? = some chunk → p.workers[i]? = some w →
    w.Valid refusal subject chunk p.engine

theorem valid_start (refusal : Option Text → Option CompileError) (subject : Option Text)
    (he : e.Sound) (chunks : List (List RulePair)) :
    (start e chunks).Valid refusal subject e chunks where
  grows := .refl he
  length := List.length_map _
  workers := by
    intro i chunk w hchunk hw
    have hstart : (start e chunks).workers[i]? = chunks[i]?.map Worker.start := List.getElem?_map ..
    rw [hstart, hchunk] at hw
    obtain rfl := Option.some.inj hw
    exact Worker.valid_start chunk _

/-- A turn of one worker leaves all of them where they should stand. -/
theorem turn_valid (hrefusal : e.refusal = refusal) (h : p.Valid refusal subject e chunks) (i : Nat) :
    (p.turn subject i).Valid refusal subject e chunks := by
  unfold turn
  rcases hw : p.workers[i]? with _ | w
  · exact h
  obtain ⟨hi, -⟩ := List.getElem?_eq_some_iff.mp hw
  have hlt : i < chunks.length := h.length ▸ hi
  have hchunk : chunks[i]? = some chunks[i] := List.getElem?_eq_getElem hlt
  have hstep := Worker.step_valid h.grows.sound (h.grows.refusal.trans hrefusal)
    (h.workers i _ w hchunk hw)
  obtain ⟨hgrows, hvalid⟩ := hstep
  -- The rules of one chunk are among those of all chunks.
  have hrules : ∀ rule ∈ rulesOf refusal chunks[i], rule ∈ rulesOf refusal chunks.flatten := by
    intro rule hr
    rw [← rulesOf_flatten]
    exact List.mem_flatMap.mpr ⟨_, List.getElem_mem _, hr⟩
  refine ⟨h.grows.trans (hgrows.mono hrules), ?_, ?_⟩
  · rw [← h.length]
    exact List.length_set
  · intro j chunk w' hj hw'
    dsimp only at hw' ⊢
    rw [List.getElem?_set] at hw'
    split_ifs at hw' with hij
    · subst hij
      rw [hchunk] at hj
      rw [← Option.some.inj hj, ← Option.some.inj hw']
      exact hvalid
    · exact (h.workers j chunk w' hj hw').mono hgrows.old

/-- Whatever the schedule, all workers stand where they should. -/
theorem run_valid (hrefusal : e.refusal = refusal) (h : p.Valid refusal subject e chunks)
    (schedule : List Nat) : (p.run subject schedule).Valid refusal subject e chunks := by
  induction schedule generalizing p with
  | nil => exact h
  | cons i schedule ih => exact ih (turn_valid hrefusal h i)

/-- A pool that has finished has found the labels of all pairs, and keeps their rules. -/
theorem Valid.of_finished (h : p.Valid refusal subject e chunks) (hfinished : p.Finished) :
    p.labels = labelsOf refusal subject chunks.flatten ∧
      ∀ rule, rule ∈ p.engine.keys ↔ rule ∈ e.keys ∨ rule ∈ rulesOf refusal chunks.flatten := by
  -- Behind each worker stands its whole chunk.
  have hdone (i : Nat) (chunk : List RulePair) (w : Worker) (hchunk : chunks[i]? = some chunk)
      (hw : p.workers[i]? = some w) : w.found = chunk.filterMap (labelOf refusal subject) ∧
        ∀ rule ∈ rulesOf refusal chunk, rule ∈ p.engine.keys := by
    obtain ⟨past, hpast, hfound, hrules⟩ := (h.workers i chunk w hchunk hw).past
    rw [hfinished w (List.mem_of_getElem? hw), List.append_nil] at hpast
    rw [hpast]
    exact ⟨hfound, hrules⟩
  constructor
  · have hsets : (p.workers.map fun w => Text.sortDistinct w.found) =
        chunks.map (labelsOf refusal subject) := by
      refine List.ext_getElem (by simp [h.length]) fun i hi hi' => ?_
      rw [List.length_map] at hi hi'
      have hfound := (hdone i _ _ (List.getElem?_eq_getElem hi') (List.getElem?_eq_getElem hi)).1
      rw [List.getElem_map, List.getElem_map, hfound]
      rfl
    unfold labels
    rw [hsets, labelsOf_flatten]
  · intro rule
    refine ⟨h.grows.new rule, ?_⟩
    rintro (hold | hnew)
    · exact h.grows.old rule hold
    · rw [← rulesOf_flatten] at hnew
      obtain ⟨chunk, hmem, hrule⟩ := List.mem_flatMap.mp hnew
      obtain ⟨i, hi, rfl⟩ := List.mem_iff_getElem.mp hmem
      have hlt : i < p.workers.length := h.length.symm ▸ hi
      have hw : p.workers[i]? = some p.workers[i] := List.getElem?_eq_getElem hlt
      exact (hdone i _ _ (List.getElem?_eq_getElem hi) hw).2 rule hrule

/-- Each turn of a worker brings it nearer to its end, and no other one further from its own. -/
theorem rank_run (subject : Option Text) (schedule : List Nat) {i : Nat} {w : Worker}
    (hw : p.workers[i]? = some w) :
    ∃ w', (p.run subject schedule).workers[i]? = some w' ∧ w'.rank ≤ w.rank - schedule.count i := by
  induction schedule generalizing p w with
  | nil => exact ⟨w, hw, by simp⟩
  | cons j schedule ih =>
    rcases hj : p.workers[j]? with _ | other
    · -- A turn of nobody changes nothing.
      have hsame : p.turn subject j = p := by
        unfold turn
        rw [hj]
      have hne : j ≠ i := by
        rintro rfl
        rw [hw] at hj
        cases hj
      obtain ⟨w', hw', hrank⟩ := ih hw
      refine ⟨w', ?_, by rwa [List.count_cons_of_ne hne]⟩
      show ((p.turn subject j).run subject schedule).workers[i]? = _
      rw [hsame]
      exact hw'
    · have hturn : (p.turn subject j).workers =
          p.workers.set j (Worker.step subject (other, p.engine)).1 := by
        unfold turn
        rw [hj]
      by_cases hij : j = i
      · -- Its own turn lowers the rank by one, and that of another worker does not touch it.
        subst hij
        obtain rfl := Option.some.inj (hj.symm.trans hw)
        have hset : (p.turn subject j).workers[j]? =
            some (Worker.step subject (other, p.engine)).1 := by
          obtain ⟨hlt, -⟩ := List.getElem?_eq_some_iff.mp hw
          rw [hturn, List.getElem?_set_self hlt]
        obtain ⟨w', hw', hrank⟩ := ih hset
        refine ⟨w', hw', ?_⟩
        have hstep := Worker.rank_step subject other p.engine
        rw [List.count_cons_self]
        omega
      · have hset : (p.turn subject j).workers[i]? = some w := by
          rw [hturn, List.getElem?_set_ne hij, hw]
        obtain ⟨w', hw', hrank⟩ := ih hset
        exact ⟨w', hw', by rwa [List.count_cons_of_ne hij]⟩

theorem length_run (schedule : List Nat) :
    (p.run subject schedule).workers.length = p.workers.length := by
  induction schedule generalizing p with
  | nil => rfl
  | cons i schedule ih =>
    refine ih.trans ?_
    unfold turn
    rcases p.workers[i]? with _ | w
    · rfl
    · exact List.length_set

/-- A pool finishes when each worker has three turns for each of its pairs. -/
theorem finished_of_turns {schedule : List Nat}
    (h : ∀ (i : Nat) chunk, chunks[i]? = some chunk → 3 * chunk.length ≤ schedule.count i) :
    ((start e chunks).run subject schedule).Finished := by
  intro w hw
  obtain ⟨i, hi⟩ := List.mem_iff_getElem?.mp hw
  obtain ⟨hlt, -⟩ := List.getElem?_eq_some_iff.mp hi
  have hlength : (start e chunks).workers.length = chunks.length := List.length_map _
  rw [length_run, hlength] at hlt
  have hchunk : chunks[i]? = some chunks[i] := List.getElem?_eq_getElem hlt
  have hstart : (start e chunks).workers[i]? = some (Worker.start chunks[i]) := by
    show (chunks.map Worker.start)[i]? = _
    rw [List.getElem?_map, hchunk]
    rfl
  obtain ⟨w', hw', hrank⟩ := rank_run subject schedule hstart
  obtain rfl := Option.some.inj (hi.symm.trans hw')
  have hturns := h i _ hchunk
  have hfirst : (Worker.start chunks[i]).rank = 3 * chunks[i].length := rfl
  exact Worker.left_of_rank (by omega)

end Pool

end Steps

/-! ### What a policy finds -/

/-- What a policy finds among pairs, in increasing order: the labels, stripped, of those with a rule and a
label that are not blank whose rule compiles and matches. Order and repetitions of the pairs do not
matter, nor does what the engine was asked before; the engine comes to keep the rules that were
evaluated and no others. With several workers the chunks are the pairs, cut; whatever the schedule, a
pool of workers that has finished has found the same and keeps the same; and it has finished when each
worker has had three turns for each of its pairs. -/
theorem assign_finds (refusal : Option Text → Option CompileError) (pairs : List RulePair)
    (subject : Option Text) :
    ∃ labels, Text.Increasing labels ∧
      (∀ l, l ∈ labels ↔ ∃ rule label, Offers refusal pairs rule label ∧
        ruleMatches (some rule) subject ∧ l = label.strip) ∧
      ∀ (termsField classField : Json) (workers : Int) (items : List RulePair) (calls : List Call),
        (∀ pair, pair ∈ items ↔ pair ∈ pairs) →
        let e := after refusal calls
        let Kept (e' : Engine) := ∀ rule, rule ∈ e'.keys ↔
          rule ∈ e.keys ∨ ∃ r label, Offers refusal pairs r label ∧ rule = some r
        let o := ((Policy.new termsField classField workers).assign items subject).run e
        o.result = .ok labels ∧ Kept o.state ∧
          (items ≠ [] → ∃ chunks, chunked items (max 1 workers) = .ok chunks ∧
            chunks.flatten = items ∧ ∀ schedule : List Nat,
              let pool := (Pool.start e chunks).run subject schedule
              (pool.Finished → pool.labels = labels ∧ Kept pool.engine) ∧
                ((∀ (i : Nat) chunk, chunks[i]? = some chunk →
                  3 * chunk.length ≤ schedule.count i) → pool.Finished)) := by
  refine ⟨labelsOf refusal subject pairs, labelsOf_increasing pairs, fun l => mem_labelsOf, ?_⟩
  intro termsField classField workers items calls hitems
  obtain ⟨hsound, hrefusal⟩ := after_sound refusal calls
  have hworkers := Policy.new_workers_pos termsField classField workers
  have hkept (e' : Engine) (h : ∀ rule, rule ∈ e'.keys ↔
      rule ∈ (after refusal calls).keys ∨ rule ∈ rulesOf refusal items) (rule : Option Text) :
      rule ∈ e'.keys ↔ rule ∈ (after refusal calls).keys ∨
        ∃ r label, Offers refusal pairs r label ∧ rule = some r := by
    rw [h, mem_rulesOf]
    simp only [offers_congr hitems]
  obtain ⟨hresult, -, -, hkeys⟩ := finds_assign refusal subject hworkers items _ hsound hrefusal
  refine ⟨?_, hkept _ hkeys, fun hne => ?_⟩
  · rw [hresult, labelsOf_congr hitems]
  obtain ⟨chunks, hchunks, hflatten⟩ := chunked_ok hne (show 0 < max 1 workers by omega)
  refine ⟨chunks, hchunks, hflatten, fun schedule => ⟨fun hfinished => ?_, ?_⟩⟩
  · have hvalid := Pool.run_valid hrefusal (Pool.valid_start refusal subject hsound chunks) schedule
    obtain ⟨hlabels, hkeys⟩ := hvalid.of_finished hfinished
    rw [hflatten] at hlabels hkeys
    exact ⟨hlabels.trans (labelsOf_congr hitems), hkept _ hkeys⟩
  · exact Pool.finished_of_turns

/-! Two workers of which each has compiled the rule before the other keeps it: one predicate is kept, and
both find their labels by it. -/

example : ((Pool.start (Engine.new fun _ => none)
    [[(some "sea", some "Nature")], [(some "sea", some "Sea")]]).run
    (some "The sea") [0, 1, 0, 1, 1, 0]).labels = ["Nature", "Sea"] := by decide +kernel

end TitleClasses.Policy
