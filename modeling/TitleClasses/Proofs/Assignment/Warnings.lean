import Mathlib.Data.List.Perm.Basic
import TitleClasses.Proofs.Assignment.Contained
import TitleClasses.Proofs.Assignment.Workers

/-!
# No record is lost silently

A policy warns of every record that it does not evaluate, once. `Policy.told` is what it tells of a pair:
nothing if the pair can be evaluated, and else one warning (`Policy.length_told`). A policy tells of pairs
one by one, among however many workers they are dealt out (`Policy.tells_assign`), and of records what it
tells of each of them alone, up to the order (`Policy.tells_assignRecords`, `Policy.perm_toldOf`).

Workers that share an engine tell the same among them, whatever the schedule: what a pool has told, with
what its workers will still tell, is always the same (`Pool.told_pending`). `Policy.warned_once` puts this
together.
-/

namespace TitleClasses

/-- Whether a record can be evaluated: both fields have values that are not blank, and the rule
compiles. -/
def Record.Evaluable (refusal : Option Text → Option CompileError) (termsField classField : Json)
    (r : Record) : Prop :=
  ∃ rule label, r.Has termsField rule ∧ r.Has classField label ∧ refusal (some rule) = none

namespace Policy

open Engine

variable {refusal : Option Text → Option CompileError} {subject : Option Text} {α β : Type}

/-- The warnings of a policy among log records. -/
def warnings (l : Log) : Log := l.filter fun r => r.level = .warning && r.source = .policy

@[simp] theorem warnings_nil : warnings [] = [] := rfl

@[simp] theorem warnings_append (l l' : Log) : warnings (l ++ l') = warnings l ++ warnings l' :=
  List.filter_append ..

/-! ### What is told -/

/-- Whether an action tells certain warnings in every sound engine that refuses certain rules. -/
def Tells (refusal : Option Text → Option CompileError) (a : Action Engine α) (ws : Log) : Prop :=
  ∀ e : Engine, e.Sound → e.refusal = refusal → warnings (a.run e).log = ws

/-- One action after another. -/
theorem Tells.bind {a : Action Engine α} {b : α → Action Engine β} {x : α}
    {rules : List (Option Text)} {ws ws' : Log} (ha : Tells refusal a ws) (hx : Finds refusal a x rules)
    (hb : Tells refusal (b x) ws') : Tells refusal (a >>= b) (ws ++ ws') := by
  intro e hsound hrefusal
  obtain ⟨hresult, hsound', hrefusal', -⟩ := hx e hsound hrefusal
  rw [Action.run_bind_ok hresult, warnings_append, ha e hsound hrefusal, hb _ hsound' hrefusal']

/-- An answer of which something is made. -/
theorem Tells.map {a : Action Engine α} {ws : Log} (ha : Tells refusal a ws) (f : α → β) :
    Tells refusal (a >>= fun x => pure (f x)) ws := by
  intro e hsound hrefusal
  rw [Action.run_map]
  exact ha e hsound hrefusal

/-- One action for each item. -/
theorem tells_each {f : α → Action Engine β} {answer : α → β} {rules : α → List (Option Text)}
    {ws : α → Log} (xs : List α) (hfinds : ∀ x ∈ xs, Finds refusal (f x) (answer x) (rules x))
    (htells : ∀ x ∈ xs, Tells refusal (f x) (ws x)) :
    Tells refusal (Action.each f xs) (xs.flatMap ws) := by
  induction xs with
  | nil => exact fun _ _ _ => rfl
  | cons x xs ih =>
    obtain ⟨hfirst, hothers⟩ := List.forall_mem_cons.mp hfinds
    obtain ⟨htold, htolds⟩ := List.forall_mem_cons.mp htells
    rw [Action.each_cons, List.flatMap_cons]
    exact htold.bind hfirst ((ih hothers htolds).map (answer x :: ·))

/-! ### Pairs -/

/-- The warning of a pair without a rule or without a label. -/
def incomplete (pair : RulePair) : LogRecord :=
  ⟨.warning, .policy, Text.concat ["Skipping record with missing rule or label: (",
    Text.quotedOption pair.1, ", ", Text.quotedOption pair.2, ")"]⟩

/-- The warning of a pair whose rule does not compile. -/
def refused (label : Text) (error : CompileError) : LogRecord :=
  ⟨.warning, .policy, Text.concat ["Skipping rule for label ", label, ": ", error.message]⟩

/-- What is told of a pair. -/
def told (refusal : Option Text → Option CompileError) (pair : RulePair) : Log :=
  match usable? pair.1, usable? pair.2 with
  | some rule, some label =>
    match refusal (some rule) with
    | some error => [refused label error]
    | none => []
  | _, _ => [incomplete pair]

section Told

variable {pair : RulePair} {rule label : Text}

theorem told_of_unusable (h : usable? pair.1 = none ∨ usable? pair.2 = none) :
    told refusal pair = [incomplete pair] := by
  rcases h with h | h
  · simp only [told, h]
  · cases hrule : usable? pair.1 <;> simp only [told, hrule, h]

theorem told_of_refused (hrule : usable? pair.1 = some rule) (hlabel : usable? pair.2 = some label)
    {error : CompileError} (hc : refusal (some rule) = some error) :
    told refusal pair = [refused label error] := by
  simp only [told, hrule, hlabel, hc]

theorem told_of_accepted (hrule : usable? pair.1 = some rule) (hlabel : usable? pair.2 = some label)
    (hc : refusal (some rule) = none) : told refusal pair = [] := by
  simp only [told, hrule, hlabel, hc]

end Told

/-- A pair that can be evaluated is not warned of, and any other one once. -/
theorem length_told (refusal : Option Text → Option CompileError) (pair : RulePair) :
    (told refusal pair).length = if (offer? refusal pair).isSome then 0 else 1 := by
  rcases usable_cases pair with h | ⟨rule, label, hrule, hlabel⟩
  · rw [told_of_unusable h, offer?_of_unusable h]
    rfl
  cases hc : refusal (some rule) with
  | some error =>
    rw [told_of_refused hrule hlabel hc, offer?_of_refused hrule hlabel hc]
    rfl
  | none =>
    rw [told_of_accepted hrule hlabel hc, offer?_of_usable hrule hlabel hc]
    rfl

/-- A compiler warns in its own name. -/
theorem warnings_compile (rule : Option Text) (e : Engine) :
    warnings ((compile rule).run e).log = [] := by
  unfold compile
  rw [Action.run_state_bind]
  cases e.refusal rule with
  | some error => rfl
  | none =>
    show warnings ((Predicate.ofRule rule).warnings ++ []) = []
    rw [List.append_nil]
    refine List.filter_eq_nil_iff.mpr fun r hr => ?_
    unfold Predicate.warnings at hr
    obtain ⟨t, -, ht⟩ := List.mem_filterMap.mp hr
    split_ifs at ht
    obtain rfl := Option.some.inj ht
    simp

theorem warnings_predicateFor (rule : Option Text) (e : Engine) :
    warnings ((predicateFor rule).run e).log = [] := by
  unfold predicateFor
  rw [Action.run_state_bind]
  cases e.find? rule with
  | some m => rfl
  | none =>
    have hcompile := warnings_compile rule e
    dsimp only
    cases hm : ((compile rule).run e).result with
    | error f =>
      rw [Action.run_bind_error hm]
      exact hcompile
    | ok m =>
      rw [Action.run_bind_ok hm, warnings_append, hcompile, List.nil_append]
      -- Nothing is told of keeping, whether a predicate was kept meanwhile or not.
      unfold keep
      rw [Action.run_state_bind]
      cases ((compile rule).run e).state.find? rule <;> rfl

/-- An engine does not warn in the name of a policy. -/
theorem warnings_matchRule (rule text : Option Text) (e : Engine) :
    warnings ((matchRule rule text).run e).log = [] := by
  have hpredicate := warnings_predicateFor rule e
  unfold matchRule
  cases hm : ((predicateFor rule).run e).result with
  | error f =>
    rw [Action.run_bind_error hm]
    exact hpredicate
  | ok m =>
    rw [Action.run_bind_ok hm, warnings_append, hpredicate]
    rfl

/-- What is told of a pair does not depend on what the engine keeps, nor on the subject. -/
theorem tells_evaluate (refusal : Option Text → Option CompileError) (subject : Option Text)
    (pair : RulePair) : Tells refusal (evaluate subject pair) (told refusal pair) := by
  rcases usable_cases pair with h | ⟨rule, label, hrule, hlabel⟩
  · intro e _ _
    rw [told_of_unusable h]
    rcases h with h | h
    · simp only [evaluate, h]
      rfl
    · cases hrule : usable? pair.1 <;> simp only [evaluate, hrule, h] <;> rfl
  have hmatch : Tells refusal (Action.attempt (matchRule (some rule) subject)) [] :=
    fun e _ _ => warnings_matchRule (some rule) subject e
  simp only [evaluate, hrule, hlabel]
  cases hc : refusal (some rule) with
  | some error =>
    rw [told_of_refused hrule hlabel hc]
    exact hmatch.bind (finds_refused subject hc) fun e _ _ => rfl
  | none =>
    rw [told_of_accepted hrule hlabel hc]
    refine hmatch.bind (finds_matchRule subject hc) ?_
    cases ruleMatches (some rule) subject <;> exact fun e _ _ => rfl

/-- A policy tells of the pairs it is given one by one, among however many workers it deals them out. -/
theorem tells_assign (refusal : Option Text → Option CompileError) (subject : Option Text) {p : Policy}
    (hworkers : 0 < p.workers) (pairs : List RulePair) :
    Tells refusal (p.assign pairs subject) (pairs.flatMap (told refusal)) := by
  have hchunk (chunk : List RulePair) :
      Tells refusal (assignChunk subject chunk) (chunk.flatMap (told refusal)) :=
    (tells_each chunk (fun pair _ => finds_evaluate refusal subject pair)
      fun pair _ => tells_evaluate refusal subject pair).map _
  rcases assign_cases hworkers pairs subject with ⟨-, halone⟩ | ⟨-, -, chunks, -, rfl, hdealt⟩
  · rw [halone]
    exact hchunk pairs
  · rw [hdealt, ← List.flatMap_id, List.flatMap_assoc]
    exact (tells_each chunks (fun chunk _ => finds_assignChunk refusal subject chunk)
      fun chunk _ => hchunk chunk).map _

/-! ### Records -/

section Records

variable {p : Policy} {r : Record}

theorem pairsOf_singleton (p : Policy) (r : Record) : p.pairsOf [r] = (p.pairOf r).toOption.toList := by
  unfold pairsOf
  rw [List.filterMap_eq_flatMap_toList, List.flatMap_singleton]

/-- What a record alone offers. -/
theorem offers_singleton {rule label : Text} : Offers refusal (p.pairsOf [r]) rule label ↔
    r.Has p.termsField rule ∧ r.Has p.classField label ∧ refusal (some rule) = none := by
  rw [offers_pairsOf]
  simp only [List.mem_singleton, exists_eq_left]
  constructor
  · rintro ⟨hc, hrule, hlabel⟩
    exact ⟨hrule, hlabel, hc⟩
  · rintro ⟨hrule, hlabel, hc⟩
    exact ⟨hc, hrule, hlabel⟩

/-- A record can be evaluated if its pair can be. -/
theorem evaluable_iff : r.Evaluable refusal p.termsField p.classField ↔
    ((p.pairOf r).toOption.any fun pair => (offer? refusal pair).isSome) = true := by
  have hoffers : r.Evaluable refusal p.termsField p.classField ↔
      ∃ rule label, Offers refusal (p.pairsOf [r]) rule label := by
    simp only [offers_singleton]
    rfl
  rw [hoffers, pairsOf_singleton]
  simp only [offers_iff]
  rcases p.pairOf r with f | pair
  · simp [Except.toOption]
  · simp [Except.toOption, Option.isSome_iff_exists]

instance (refusal : Option Text → Option CompileError) (termsField classField : Json) (r : Record) :
    Decidable (r.Evaluable refusal termsField classField) :=
  decidable_of_iff _ (evaluable_iff (p := ⟨termsField, classField, 1⟩)).symm

/-- What is told of a record when its pair is read. -/
def unread (p : Policy) (r : Record) : Log :=
  match p.pairOf r with
  | .error (.missingField record field) => [⟨.warning, .policy, Text.concat
      ["Skipping vocabulary record: ", (Fault.missingField record field).message]⟩]
  | _ => []

/-- What is told of a record: when its pair is read, and then of the pair. -/
def toldOf (refusal : Option Text → Option CompileError) (p : Policy) (r : Record) : Log :=
  p.unread r ++ (p.pairsOf [r]).flatMap (told refusal)

theorem tells_pairOrWarning (refusal : Option Text → Option CompileError) (p : Policy) (r : Record) :
    Tells refusal (p.pairOrWarning r) (p.unread r) := by
  intro e _ _
  unfold pairOrWarning unread
  rcases p.pairOf r with f | pair
  · cases f <;> rfl
  · rfl

/-- Records have the pairs that each of them has. -/
theorem flatMap_pairsOf (p : Policy) (records : List Record) :
    (records.flatMap fun r => p.pairsOf [r]) = p.pairsOf records := by
  simp only [pairsOf_singleton]
  exact (List.filterMap_eq_flatMap_toList ..).symm

/-- What is told of records, while their pairs are read and then of the pairs, is what is told of each of
them. -/
theorem perm_toldOf (refusal : Option Text → Option CompileError) (p : Policy) (records : List Record) :
    (records.flatMap p.unread ++ (p.pairsOf records).flatMap (told refusal)).Perm
      (records.flatMap (toldOf refusal p)) := by
  rw [← flatMap_pairsOf, List.flatMap_assoc]
  exact List.flatMap_append_perm ..

/-- The labels of records are those of each of them, put together. -/
theorem labelsOf_pairsOf (refusal : Option Text → Option CompileError) (subject : Option Text)
    (p : Policy) (records : List Record) : labelsOf refusal subject (p.pairsOf records) =
      Text.sortDistinct (records.flatMap fun r => labelsOf refusal subject (p.pairsOf [r])) := by
  rw [← flatMap_pairsOf, List.flatMap_def, ← labelsOf_flatten, List.map_map, ← List.flatMap_def]
  rfl

variable (hterms : p.termsField.IsKey) (hclass : p.classField.IsKey)
include hterms hclass

/-- A record that can be evaluated is not warned of, and any other one once: where its pair is read, or
where the pair is evaluated. -/
theorem length_toldOf (refusal : Option Text → Option CompileError) (r : Record) :
    (toldOf refusal p r).length =
      if r.Evaluable refusal p.termsField p.classField then 0 else 1 := by
  unfold toldOf unread
  rw [pairsOf_singleton]
  rcases pairOf_of_isKey hterms hclass r with ⟨pair, hpair⟩ | ⟨field, hpair⟩
  · have hevaluable : r.Evaluable refusal p.termsField p.classField ↔
        (offer? refusal pair).isSome = true := by
      rw [evaluable_iff, hpair]
      rfl
    rw [if_congr hevaluable rfl rfl, hpair]
    show ([] ++ ([pair].flatMap (told refusal))).length = _
    rw [List.nil_append, List.flatMap_singleton]
    exact length_told refusal pair
  · have hevaluable : ¬ r.Evaluable refusal p.termsField p.classField := by
      rw [evaluable_iff, hpair]
      exact Bool.false_ne_true
    rw [if_neg hevaluable, hpair]
    rfl

/-- What is told of records: first of those without a pair, then of those whose pair is not evaluated. -/
theorem tells_assignRecords (refusal : Option Text → Option CompileError) (subject : Option Text)
    (hworkers : 0 < p.workers) (records : List Record) :
    Tells refusal (p.assignRecords records subject)
      (records.flatMap p.unread ++ (p.pairsOf records).flatMap (told refusal)) := by
  refine Tells.bind (tells_each records (fun r _ => finds_pairOrWarning hterms hclass refusal r)
      fun r _ => tells_pairOrWarning refusal p r)
    (finds_each records fun r _ => finds_pairOrWarning hterms hclass refusal r) ?_
  rw [List.filterMap_map]
  exact tells_assign refusal subject hworkers (p.pairsOf records)

end Records

/-- As many warnings as there are records that cannot be evaluated. -/
theorem length_flatMap_told {termsField classField : Json} {told : Record → Log}
    (h : ∀ r, (told r).length = if r.Evaluable refusal termsField classField then 0 else 1)
    (records : List Record) : (records.flatMap told).length =
      records.countP fun r => ¬ r.Evaluable refusal termsField classField := by
  induction records with
  | nil => rfl
  | cons r records ih =>
    rw [List.flatMap_cons, List.length_append, ih, List.countP_cons, h, Nat.add_comm]
    by_cases hr : r.Evaluable refusal termsField classField
    · simp [hr]
    · simp [hr]

/-! ### Workers that share an engine -/

namespace Worker

/-- What a worker tells in one part of its work. -/
def tells (w : Worker) (e : Engine) : Log :=
  match w.left with
  | [] => []
  | pair :: _ =>
    match usable? pair.1, usable? pair.2 with
    | some rule, some label =>
      match w.phase, ((compile (some rule)).run e).result with
      | .compiling, .error (.uncompilable error) => [refused label error]
      | _, _ => []
    | _, _ => [incomplete pair]

/-- What a worker will still tell. -/
def pending (refusal : Option Text → Option CompileError) (w : Worker) : Log :=
  w.left.flatMap (told refusal)

section Tells

variable {w : Worker} {e : Engine} {chunk rest : List RulePair} {pair : RulePair} {rule label : Text}

theorem pending_cons (hleft : w.left = pair :: rest) :
    w.pending refusal = told refusal pair ++ rest.flatMap (told refusal) := by
  unfold pending
  rw [hleft, List.flatMap_cons]

theorem pending_next (hleft : w.left = pair :: rest) (found : Option Text) :
    (w.next found).pending refusal = rest.flatMap (told refusal) := by
  unfold pending next
  rw [hleft, List.tail_cons]

theorem tells_of_unusable (hleft : w.left = pair :: rest)
    (h : usable? pair.1 = none ∨ usable? pair.2 = none) : w.tells e = [incomplete pair] := by
  rcases h with h | h
  · simp only [tells, hleft, h]
  · cases hrule : usable? pair.1 <;> simp only [tells, hleft, hrule, h]

section Usable

variable (hleft : w.left = pair :: rest) (hrule : usable? pair.1 = some rule)
  (hlabel : usable? pair.2 = some label)
include hleft hrule hlabel

theorem tells_of_phase (hphase : w.phase ≠ .compiling) : w.tells e = [] := by
  simp only [tells, hleft, hrule, hlabel]
  cases hw : w.phase with
  | compiling => exact absurd hw hphase
  | asking => rfl
  | keeping m => rfl

theorem tells_of_refused (hphase : w.phase = .compiling) {error : CompileError}
    (hc : e.refusal (some rule) = some error) : w.tells e = [refused label error] := by
  simp only [tells, hleft, hrule, hlabel, hphase, compile_of_refused hc]

theorem tells_of_accepted (hphase : w.phase = .compiling) (hc : e.refusal (some rule) = none) :
    w.tells e = [] := by
  obtain ⟨log, hrun⟩ := compile_of_accepted hc
  simp only [tells, hleft, hrule, hlabel, hphase, hrun]

end Usable

/-- What a worker tells in one part of its work, it will not tell afterwards. -/
theorem tells_pending (he : e.Sound) (hrefusal : e.refusal = refusal)
    (h : w.Valid refusal subject chunk e) :
    w.tells e ++ (step subject (w, e)).1.pending refusal = w.pending refusal := by
  subst hrefusal
  rcases hleft : w.left with _ | ⟨pair, rest⟩
  · simp only [tells, step, hleft, List.nil_append]
  rcases usable_cases pair with hu | ⟨rule, label, hrule, hlabel⟩
  · rw [tells_of_unusable hleft hu, step_skip subject hleft hu, pending_next hleft,
      pending_cons hleft, told_of_unusable hu]
  -- A pair is told of in the part that compiles its rule, and not at all if a predicate settles it.
  rcases hphase : w.phase with _ | _ | m
  · rw [tells_of_phase hleft hrule hlabel (by simp [hphase]), List.nil_append]
    rcases hf : e.find? (some rule) with _ | m
    · rw [step_asking_none subject hleft hrule hlabel hphase hf]
      rfl
    · obtain ⟨-, hc⟩ := he _ _ hf
      rw [step_asking_some subject hleft hrule hlabel hphase hf, settle, pending_next hleft,
        pending_cons hleft, told_of_accepted hrule hlabel hc, List.nil_append]
  · rcases hc : e.refusal (some rule) with _ | error
    · rw [tells_of_accepted hleft hrule hlabel hphase hc,
        step_compiling_accepted subject hleft hrule hlabel hphase hc]
      rfl
    · rw [tells_of_refused hleft hrule hlabel hphase hc,
        step_compiling_refused subject hleft hrule hlabel hphase hc, pending_next hleft,
        pending_cons hleft, told_of_refused hrule hlabel hc]
  · obtain ⟨hoffer, -⟩ := h.holds hleft hrule hlabel hphase
    obtain ⟨-, -, -, hc⟩ := offer?_eq_some.mp hoffer
    rw [tells_of_phase hleft hrule hlabel (by simp [hphase]), List.nil_append, pending_cons hleft,
      told_of_accepted hrule hlabel hc, List.nil_append]
    rcases hf : e.find? (some rule) with _ | old
    · rw [step_keeping_none subject hleft hrule hlabel hphase hf, settle, pending_next hleft]
    · rw [step_keeping_some subject hleft hrule hlabel hphase hf, settle, pending_next hleft]

end Tells

end Worker

namespace Pool

/-- What a pool tells in a turn of one of its workers. -/
def tells (p : Pool) (i : Nat) : Log :=
  match p.workers[i]? with
  | none => []
  | some w => w.tells p.engine

/-- What a pool tells in turns of its workers in the order of a schedule. -/
def told (subject : Option Text) (p : Pool) : List Nat → Log
  | [] => []
  | i :: schedule => p.tells i ++ (p.turn subject i).told subject schedule

/-- What the workers of a pool will still tell. -/
def pending (refusal : Option Text → Option CompileError) (p : Pool) : Log :=
  p.workers.flatMap (Worker.pending refusal)

variable {p : Pool} {e : Engine} {chunks : List (List RulePair)}

theorem pending_start (refusal : Option Text → Option CompileError) (e : Engine)
    (chunks : List (List RulePair)) :
    (start e chunks).pending refusal = chunks.flatten.flatMap (Policy.told refusal) := by
  unfold pending start
  rw [List.flatMap_map, ← List.flatMap_id, List.flatMap_assoc]
  rfl

theorem pending_of_finished (h : p.Finished) : p.pending refusal = [] := by
  refine List.flatMap_eq_nil_iff.mpr fun w hw => ?_
  unfold Worker.pending
  rw [h w hw, List.flatMap_nil]

/-- What a pool tells in a turn, it will not tell afterwards. -/
theorem tells_pending (hrefusal : e.refusal = refusal) (h : p.Valid refusal subject e chunks) (i : Nat) :
    (p.tells i ++ (p.turn subject i).pending refusal).Perm (p.pending refusal) := by
  unfold tells turn
  rcases hw : p.workers[i]? with _ | w
  · exact .refl _
  obtain ⟨hi, rfl⟩ := List.getElem?_eq_some_iff.mp hw
  have hlt : i < chunks.length := h.length ▸ hi
  have hvalid := h.workers i _ _ (List.getElem?_eq_getElem hlt) hw
  have hstep := Worker.tells_pending h.grows.sound (h.grows.refusal.trans hrefusal) hvalid
  dsimp only
  rcases hpart : Worker.step subject (p.workers[i], p.engine) with ⟨w', e'⟩
  rw [hpart] at hstep
  -- The other workers will tell what they would have told.
  let others := (p.workers.eraseIdx i).flatMap (Worker.pending refusal)
  have hset : ((p.workers.set i w').flatMap (Worker.pending refusal)).Perm
      (w'.pending refusal ++ others) := (List.set_perm_cons_eraseIdx hi w').flatMap_right _
  have hsame : (p.workers[i].pending refusal ++ others).Perm (p.pending refusal) :=
    (List.getElem_cons_eraseIdx_perm hi).flatMap_right _
  refine (hset.append_left _).trans ?_
  rw [← List.append_assoc, hstep]
  exact hsame

/-- Whatever the schedule, what a pool has told and what it will still tell are what it would have told
at first. -/
theorem told_pending (hrefusal : e.refusal = refusal) (h : p.Valid refusal subject e chunks)
    (schedule : List Nat) :
    (p.told subject schedule ++ (p.run subject schedule).pending refusal).Perm (p.pending refusal) := by
  induction schedule generalizing p with
  | nil => exact .refl _
  | cons i schedule ih =>
    have hfirst := tells_pending hrefusal h i
    have hothers := ih (turn_valid hrefusal h i)
    unfold told
    rw [List.append_assoc]
    exact (hothers.append_left _).trans hfirst

/-- A pool that has finished has told of all pairs. -/
theorem told_of_finished (hrefusal : e.refusal = refusal) (hsound : e.Sound)
    (chunks : List (List RulePair)) {schedule : List Nat}
    (h : ((start e chunks).run subject schedule).Finished) :
    ((start e chunks).told subject schedule).Perm (chunks.flatten.flatMap (Policy.told refusal)) := by
  have htold := told_pending hrefusal (valid_start refusal subject hsound chunks) schedule
  rw [pending_of_finished h, List.append_nil, pending_start] at htold
  exact htold

end Pool

/-- No record is lost silently. A policy whose fields can be keys answers for any records, subject and
refused rules, and for any number of workers: with the union of the labels of each record alone. Its
warnings are, up to the order, those of each record alone: none of a record that can be evaluated, and one
of any other one, whether a value is absent, null or blank or the rule does not compile. Workers that share
the engine tell the same and find the same, whatever the schedule. -/
theorem warned_once {termsField classField : Json} (hterms : termsField.IsKey)
    (hclass : classField.IsKey) (refusal : Option Text → Option CompileError)
    (subject : Option Text) :
    ∃ (labels : Record → List Text) (told : Record → Log),
      (∀ r l, l ∈ labels r ↔ ∃ rule label, r.Has termsField rule ∧ r.Has classField label ∧
        refusal (some rule) = none ∧ ruleMatches (some rule) subject ∧ l = label.strip) ∧
      (∀ r, (told r).length = if r.Evaluable refusal termsField classField then 0 else 1) ∧
      ∀ (workers : Int) (calls : List Call),
        let policy := Policy.new termsField classField workers
        let e := after refusal calls
        (∀ r, let alone := (policy.assignRecords [r] subject).run e
          alone.result = .ok (labels r) ∧ warnings alone.log = told r) ∧
        ∀ records : List Record,
          let o := (policy.assignRecords records subject).run e
          o.result = .ok (Text.sortDistinct (records.flatMap labels)) ∧
          (warnings o.log).Perm (records.flatMap told) ∧
          (warnings o.log).length =
            records.countP (fun r => ¬ r.Evaluable refusal termsField classField) ∧
          (policy.pairsOf records ≠ [] → ∃ chunks,
            chunked (policy.pairsOf records) (max 1 workers) = .ok chunks ∧ ∀ schedule : List Nat,
              let pool := (Pool.start e chunks).run subject schedule
              pool.Finished → pool.labels = Text.sortDistinct (records.flatMap labels) ∧
                (warnings ((Action.each policy.pairOrWarning records).run e).log ++
                  (Pool.start e chunks).told subject schedule).Perm (records.flatMap told)) := by
  -- The number of workers does not matter for what is read of a record.
  let one := Policy.new termsField classField 1
  have hlength (r : Record) : (toldOf refusal one r).length =
      if r.Evaluable refusal termsField classField then 0 else 1 :=
    length_toldOf (p := one) hterms hclass refusal r
  refine ⟨fun r => labelsOf refusal subject (one.pairsOf [r]), toldOf refusal one, fun r l => ?_,
    hlength, fun workers calls => ?_⟩
  · simp only [mem_labelsOf, offers_singleton, and_assoc]
    rfl
  intro policy e
  obtain ⟨hsound, hrefusal⟩ := after_sound refusal calls
  have hworkers : 0 < policy.workers := new_workers_pos termsField classField workers
  have hfinds (records : List Record) :
      ((policy.assignRecords records subject).run e).result =
        .ok (labelsOf refusal subject (one.pairsOf records)) :=
    (finds_assignRecords (p := policy) hterms hclass refusal subject hworkers records e hsound
      hrefusal).1
  have htells (records : List Record) :
      warnings ((policy.assignRecords records subject).run e).log =
        records.flatMap one.unread ++ (one.pairsOf records).flatMap (told refusal) :=
    tells_assignRecords (p := policy) hterms hclass refusal subject hworkers records e hsound hrefusal
  refine ⟨fun r => ⟨hfinds [r], ?_⟩, fun records => ?_⟩
  · rw [htells, List.flatMap_singleton]
    rfl
  have htold := perm_toldOf refusal one records
  have hperm := htold
  rw [← htells] at hperm
  refine ⟨?_, hperm, ?_, fun hpairs => ?_⟩
  · rw [hfinds, labelsOf_pairsOf]
  · rw [hperm.length_eq]
    exact length_flatMap_told hlength records
  obtain ⟨chunks, hchunks, hflatten⟩ := chunked_ok hpairs (show 0 < max 1 workers by omega)
  refine ⟨chunks, hchunks, fun schedule => ?_⟩
  intro pool hfinished
  refine ⟨?_, ?_⟩
  · have hvalid := Pool.run_valid hrefusal (Pool.valid_start refusal subject hsound chunks) schedule
    rw [(hvalid.of_finished hfinished).1, hflatten]
    exact labelsOf_pairsOf refusal subject one records
  · have hread : warnings ((Action.each policy.pairOrWarning records).run e).log =
        records.flatMap one.unread :=
      tells_each records (fun r _ => finds_pairOrWarning (p := policy) hterms hclass refusal r)
        (fun r _ => tells_pairOrWarning refusal policy r) e hsound hrefusal
    have hpool := Pool.told_of_finished hrefusal hsound chunks hfinished
    rw [hflatten] at hpool
    rw [hread]
    exact (hpool.append_left _).trans htold

/-- Records of which only the first can be evaluated, if the rule of the last does not compile: one has no
rule, as its value is null, and one has a label that is blank. -/
def landscape : List Record :=
  [.ofMembers "a" [("terms", .text "sea"), ("class", .text " Nature ")],
    .ofMembers "b" [("terms", .null), ("class", .text "Height")],
    .ofMembers "c" [("terms", .text "hill"), ("class", .text " ")],
    .ofMembers "d" [("terms", .text "ice"), ("class", .text "Cold")]]

/-- The rule that does not compile. -/
def iceRefused (rule : Option Text) : Option CompileError :=
  if rule = some "ice" then some ⟨"ice", "ice", "no term"⟩ else none

/-- Two workers have a pair each, and take turns. -/
theorem warned_once_landscape :
    let policy := Policy.new (.text "terms") (.text "class") 2
    let e := Engine.new iceRefused
    let o := (policy.assignRecords landscape (some "The sea")).run e
    let chunks : List (List RulePair) := [[(some "sea", some " Nature ")], [(some "ice", some "Cold")]]
    o.result = .ok ["Nature"] ∧ (warnings o.log).length = 3 ∧
      (warnings ((Action.each policy.pairOrWarning landscape).run e).log ++
        (Pool.start e chunks).told (some "The sea") [0, 1, 0, 1, 0]).Perm (warnings o.log) := by
  intro policy e o chunks
  obtain ⟨labels, told, -, -, hall⟩ := warned_once (Json.isKey_text "terms")
    (Json.isKey_text "class") iceRefused (some "The sea")
  obtain ⟨-, hrecords⟩ := hall 2 []
  obtain ⟨-, hperm, hcount, hpools⟩ := hrecords landscape
  have hresult : o.result = .ok ["Nature"] := by
    apply Except.eq_ok_of_toOption
    decide +kernel
  refine ⟨hresult, hcount.trans (by decide +kernel), ?_⟩
  -- The pairs that were read, in chunks, are those of the workers.
  obtain ⟨cut, hcut, hpool⟩ := hpools (by decide +kernel)
  have hchunks : chunked (policy.pairsOf landscape) (max 1 2) = .ok chunks := by
    apply Except.eq_ok_of_toOption
    decide +kernel
  obtain rfl := Except.ok.inj (hcut.symm.trans hchunks)
  have hfinished : ((Pool.start e chunks).run (some "The sea") [0, 1, 0, 1, 0]).Finished := by
    unfold Pool.Finished
    decide +kernel
  obtain ⟨-, htold⟩ := hpool _ hfinished
  exact htold.trans hperm.symm

end Policy

end TitleClasses
