import TitleClasses.Proofs.Assignment.Chunks
import TitleClasses.Proofs.Rule.Requests
import TitleClasses.Proofs.Text.Distinct

/-!
# What a policy finds

An action on an engine `Finds` an answer when it gives that answer in every sound engine that refuses
certain rules, and adds certain rules to the keys. Each part of a policy does so, up to the whole
(`finds_assign`): its answer is the set of the labels of the pairs it was given, each pair by itself, and
so neither the chunks nor the engine it begins with show in it.
-/

namespace TitleClasses

/-! ### Values of records -/

namespace Record

/-- Whether a record has a value that is not blank for a field. A field has a text for its name. -/
def Has (r : Record) (name : Json) (value : Text) : Prop :=
  ∃ key, name = .text key ∧ r.fields.lookup key = some value ∧ value.isBlank = false

theorem Has.not_blank {r : Record} {name : Json} {value : Text} (h : r.Has name value) :
    value.isBlank = false := by
  obtain ⟨-, -, -, hblank⟩ := h
  exact hblank

theorem fieldValue_eq_ok_iff {r : Record} {name : Json} {value : Text} :
    r.fieldValue name = .ok value ↔ r.Has name value := by
  unfold fieldValue Has
  cases name with
  | text key =>
    simp only [Json.text.injEq, exists_eq_left']
    cases r.fields.lookup key with
    | none => simp
    | some t =>
      dsimp only
      split_ifs with hb
      · simp only [Option.some.injEq, false_iff]
        rintro ⟨rfl, hblank⟩
        rw [hb] at hblank
        cases hblank
      · simp only [Except.ok.injEq, Option.some.injEq]
        refine ⟨?_, fun h => h.1⟩
        rintro rfl
        exact ⟨rfl, by simpa using hb⟩
  | _ => simp

end Record

/-! ### Finding -/

namespace Engine

variable {α β : Type} {refusal : Option Text → Option CompileError}

/-- Whether an action gives an answer in every sound engine that refuses certain rules, adds certain
rules to the keys, and leaves the engine sound. -/
def Finds (refusal : Option Text → Option CompileError) (a : Action Engine α) (x : α)
    (rules : List (Option Text)) : Prop :=
  ∀ e : Engine, e.Sound → e.refusal = refusal →
    let o := a.run e
    o.result = .ok x ∧ o.state.Sound ∧ o.state.refusal = refusal ∧
      ∀ rule, rule ∈ o.state.keys ↔ rule ∈ e.keys ∨ rule ∈ rules

theorem finds_pure (x : α) : Finds refusal (pure x) x [] :=
  fun _ hsound hrefusal => ⟨rfl, hsound, hrefusal, by simp⟩

theorem finds_note (level : Level) (source : LogSource) (m : Text) :
    Finds refusal (Action.note level source m) () [] :=
  fun _ hsound hrefusal => ⟨rfl, hsound, hrefusal, by simp⟩

/-- One action after another. -/
theorem Finds.bind {a : Action Engine α} {b : α → Action Engine β} {x : α} {y : β}
    {rules more : List (Option Text)} (ha : Finds refusal a x rules) (hb : Finds refusal (b x) y more) :
    Finds refusal (a >>= b) y (rules ++ more) := by
  intro e hsound hrefusal
  obtain ⟨hx, hsound', hrefusal', hkeys⟩ := ha e hsound hrefusal
  obtain ⟨hy, hsound'', hrefusal'', hkeys'⟩ := hb _ hsound' hrefusal'
  rw [Action.run_bind_ok hx]
  refine ⟨hy, hsound'', hrefusal'', fun rule => ?_⟩
  rw [hkeys', hkeys, List.mem_append, or_assoc]

/-- An answer of which something is made. -/
theorem Finds.map {a : Action Engine α} {x : α} {rules : List (Option Text)} (f : α → β)
    (ha : Finds refusal a x rules) : Finds refusal (a >>= fun x => pure (f x)) (f x) rules := by
  have h := Finds.bind (b := fun x => pure (f x)) ha (finds_pure (f x))
  rwa [List.append_nil] at h

/-- One action for each item. -/
theorem finds_each {f : α → Action Engine β} {answer : α → β} {rules : α → List (Option Text)}
    (xs : List α) (h : ∀ x ∈ xs, Finds refusal (f x) (answer x) (rules x)) :
    Finds refusal (Action.each f xs) (xs.map answer) (xs.flatMap rules) := by
  induction xs with
  | nil => exact finds_pure []
  | cons x xs ih =>
    obtain ⟨hx, hxs⟩ := List.forall_mem_cons.mp h
    rw [Action.each_cons]
    refine Finds.bind (x := answer x) hx ?_
    exact (ih hxs).map (answer x :: ·)

/-- A rule that compiles is matched, and its predicate is kept. -/
theorem finds_matchRule {rule : Option Text} (text : Option Text) (h : refusal rule = none) :
    Finds refusal (Action.attempt (matchRule rule text)) (.ok (ruleMatches rule text)) [rule] := by
  rintro e hsound rfl
  obtain ⟨hr, hsound', hrefusal'⟩ := matchRule_run hsound rule text
  rw [Action.run_attempt]
  refine ⟨?_, hsound', hrefusal', fun other => ?_⟩
  · dsimp only
    rw [hr, compiled, h]
    rfl
  · dsimp only
    rw [matchRule_state, mem_keys_predicateFor, List.mem_singleton, eq_comm (a := rule)]
    constructor
    · rintro (hin | ⟨hsame, -⟩)
      · exact .inl hin
      · exact .inr hsame
    · rintro (hin | rfl)
      · exact .inl hin
      · exact .inr ⟨rfl, h⟩

/-- A rule that does not compile is not matched, and nothing is kept for it. -/
theorem finds_refused {rule : Option Text} {error : CompileError} (text : Option Text)
    (h : refusal rule = some error) :
    Finds refusal (Action.attempt (matchRule rule text)) (.error (.uncompilable error)) [] := by
  rintro e hsound rfl
  obtain ⟨hr, hsound', hrefusal'⟩ := matchRule_run hsound rule text
  rw [Action.run_attempt]
  refine ⟨?_, hsound', hrefusal', fun other => ?_⟩
  · dsimp only
    rw [hr, compiled, h]
    rfl
  · dsimp only
    rw [matchRule_state, predicateFor_of_refused hsound h]
    simp

end Engine

namespace Policy

open Engine

variable {refusal : Option Text → Option CompileError} {subject : Option Text}

/-! ### Pairs -/

theorem usable?_eq_some {t : Option Text} {u : Text} :
    usable? t = some u ↔ t = some u ∧ u.isBlank = false := by
  cases t with
  | none => simp [usable?]
  | some t =>
    show (if t.isBlank then none else some t) = some u ↔ _
    split_ifs with h
    · simp only [Option.some.injEq, false_iff]
      rintro ⟨rfl, hu⟩
      rw [h] at hu
      cases hu
    · simp only [Option.some.injEq]
      refine ⟨?_, fun hu => hu.1⟩
      rintro rfl
      exact ⟨rfl, by simpa using h⟩

/-- The rule and the label of a pair that can be evaluated: both are there and not blank, and the rule
compiles. -/
def offer? (refusal : Option Text → Option CompileError) (pair : RulePair) : Option (Text × Text) :=
  match usable? pair.1, usable? pair.2 with
  | some rule, some label => if refusal (some rule) = none then some (rule, label) else none
  | _, _ => none

theorem offer?_eq_some {pair : RulePair} {rule label : Text} :
    offer? refusal pair = some (rule, label) ↔ pair = (some rule, some label) ∧
      rule.isBlank = false ∧ label.isBlank = false ∧ refusal (some rule) = none := by
  obtain ⟨first, second⟩ := pair
  unfold offer?
  cases hfirst : usable? first with
  | none =>
    simp only [reduceCtorEq, false_iff]
    rintro ⟨heq, hrule, -⟩
    rw [usable?_eq_some.mpr ⟨congrArg Prod.fst heq, hrule⟩] at hfirst
    cases hfirst
  | some r =>
    obtain ⟨rfl, hr⟩ := usable?_eq_some.mp hfirst
    cases hsecond : usable? second with
    | none =>
      simp only [reduceCtorEq, false_iff]
      rintro ⟨heq, -, hlabel, -⟩
      rw [usable?_eq_some.mpr ⟨congrArg Prod.snd heq, hlabel⟩] at hsecond
      cases hsecond
    | some l =>
      obtain ⟨rfl, hl⟩ := usable?_eq_some.mp hsecond
      dsimp only
      split_ifs with hc
      · simp only [Option.some.injEq, Prod.mk.injEq]
        constructor
        · rintro ⟨rfl, rfl⟩
          exact ⟨⟨rfl, rfl⟩, hr, hl, hc⟩
        · rintro ⟨⟨rfl, rfl⟩, -⟩
          exact ⟨rfl, rfl⟩
      · simp only [Option.some.injEq, Prod.mk.injEq, false_iff]
        rintro ⟨⟨rfl, rfl⟩, -, -, hnone⟩
        exact hc hnone

/-- The label of a pair, if it can be evaluated and its rule matches. -/
def labelOf (refusal : Option Text → Option CompileError) (subject : Option Text) (pair : RulePair) :
    Option Text :=
  match offer? refusal pair with
  | some (rule, label) => if ruleMatches (some rule) subject then some label.strip else none
  | none => none

/-- The rule of a pair, if it can be evaluated. -/
def ruleOf (refusal : Option Text → Option CompileError) (pair : RulePair) : Option (Option Text) :=
  (offer? refusal pair).map (some ·.1)

theorem labelOf_eq_some {pair : RulePair} {l : Text} : labelOf refusal subject pair = some l ↔
    ∃ rule label, offer? refusal pair = some (rule, label) ∧ ruleMatches (some rule) subject ∧
      l = label.strip := by
  unfold labelOf
  rcases offer? refusal pair with _ | ⟨rule, label⟩
  · simp
  · simp [and_assoc, eq_comm (a := l)]

theorem ruleOf_eq_some {pair : RulePair} {r : Option Text} : ruleOf refusal pair = some r ↔
    ∃ rule label, offer? refusal pair = some (rule, label) ∧ r = some rule := by
  unfold ruleOf
  rcases offer? refusal pair with _ | ⟨rule, label⟩
  · simp
  · simp [eq_comm (a := r)]

/-- The set of the labels of pairs. -/
def labelsOf (refusal : Option Text → Option CompileError) (subject : Option Text)
    (pairs : List RulePair) : List Text :=
  Text.sortDistinct (pairs.filterMap (labelOf refusal subject))

/-- The rules of pairs that can be evaluated. -/
def rulesOf (refusal : Option Text → Option CompileError) (pairs : List RulePair) :
    List (Option Text) :=
  pairs.filterMap (ruleOf refusal)

theorem labelsOf_increasing (pairs : List RulePair) :
    Text.Increasing (labelsOf refusal subject pairs) := Text.sortDistinct_increasing _

/-- Whether among pairs there is one of a rule and a label that are not blank, of which the rule
compiles. -/
def Offers (refusal : Option Text → Option CompileError) (pairs : List RulePair)
    (rule label : Text) : Prop :=
  (some rule, some label) ∈ pairs ∧ rule.isBlank = false ∧ label.isBlank = false ∧
    refusal (some rule) = none

theorem offers_iff {pairs : List RulePair} {rule label : Text} :
    Offers refusal pairs rule label ↔ ∃ pair ∈ pairs, offer? refusal pair = some (rule, label) := by
  constructor
  · rintro ⟨hmem, hgood⟩
    exact ⟨_, hmem, offer?_eq_some.mpr ⟨rfl, hgood⟩⟩
  · rintro ⟨pair, hmem, hoffer⟩
    obtain ⟨rfl, hgood⟩ := offer?_eq_some.mp hoffer
    exact ⟨hmem, hgood⟩

theorem mem_labelsOf {pairs : List RulePair} {l : Text} : l ∈ labelsOf refusal subject pairs ↔
    ∃ rule label, Offers refusal pairs rule label ∧ ruleMatches (some rule) subject ∧
      l = label.strip := by
  unfold labelsOf
  simp only [Text.mem_sortDistinct, List.mem_filterMap, labelOf_eq_some, offers_iff]
  constructor
  · rintro ⟨pair, hmem, rule, label, hoffer, hfound⟩
    exact ⟨rule, label, ⟨pair, hmem, hoffer⟩, hfound⟩
  · rintro ⟨rule, label, ⟨pair, hmem, hoffer⟩, hfound⟩
    exact ⟨pair, hmem, rule, label, hoffer, hfound⟩

theorem mem_rulesOf {pairs : List RulePair} {r : Option Text} : r ∈ rulesOf refusal pairs ↔
    ∃ rule label, Offers refusal pairs rule label ∧ r = some rule := by
  unfold rulesOf
  simp only [List.mem_filterMap, ruleOf_eq_some, offers_iff]
  constructor
  · rintro ⟨pair, hmem, rule, label, hoffer, hsame⟩
    exact ⟨rule, label, ⟨pair, hmem, hoffer⟩, hsame⟩
  · rintro ⟨rule, label, ⟨pair, hmem, hoffer⟩, hsame⟩
    exact ⟨pair, hmem, rule, label, hoffer, hsame⟩

/-- Neither order nor repetitions of pairs matter. -/
theorem offers_congr {pairs items : List RulePair} (h : ∀ pair, pair ∈ items ↔ pair ∈ pairs)
    (rule label : Text) : Offers refusal items rule label ↔ Offers refusal pairs rule label := by
  unfold Offers
  rw [h]

theorem labelsOf_congr {pairs items : List RulePair} (h : ∀ pair, pair ∈ items ↔ pair ∈ pairs) :
    labelsOf refusal subject items = labelsOf refusal subject pairs := by
  refine Text.eq_of_mem_iff (labelsOf_increasing items) (labelsOf_increasing pairs) fun l => ?_
  rw [mem_labelsOf, mem_labelsOf]
  simp only [offers_congr h]

/-- The labels of chunks, joined, are those of all pairs. -/
theorem labelsOf_flatten (chunks : List (List RulePair)) :
    Text.sortDistinct (chunks.map (labelsOf refusal subject)).flatten =
      labelsOf refusal subject chunks.flatten := by
  refine Text.sortDistinct_congr fun l => ?_
  unfold labelsOf
  simp only [List.mem_flatten, List.mem_map, List.mem_filterMap]
  constructor
  · rintro ⟨labels, ⟨chunk, hchunk, rfl⟩, hl⟩
    obtain ⟨pair, hpair, hlabel⟩ := List.mem_filterMap.mp ((Text.mem_sortDistinct _ _).mp hl)
    exact ⟨pair, ⟨chunk, hchunk, hpair⟩, hlabel⟩
  · rintro ⟨pair, ⟨chunk, hchunk, hpair⟩, hlabel⟩
    refine ⟨_, ⟨chunk, hchunk, rfl⟩, (Text.mem_sortDistinct _ _).mpr ?_⟩
    exact List.mem_filterMap.mpr ⟨pair, hpair, hlabel⟩

theorem rulesOf_flatten (chunks : List (List RulePair)) :
    chunks.flatMap (rulesOf refusal) = rulesOf refusal chunks.flatten := by
  unfold rulesOf
  induction chunks with
  | nil => rfl
  | cons chunk chunks ih => rw [List.flatMap_cons, ih, List.flatten_cons, List.filterMap_append]

/-! ### What is found -/

/-- A pair has its label or none, and none of its faults is told but in the log. -/
theorem finds_evaluate (refusal : Option Text → Option CompileError) (subject : Option Text)
    (pair : RulePair) :
    Finds refusal (evaluate subject pair) (labelOf refusal subject pair)
      (ruleOf refusal pair).toList := by
  unfold evaluate labelOf ruleOf offer?
  -- The rule is kept as soon as it compiles, whether it matches or not.
  cases usable? pair.1 with
  | none => exact Finds.bind (x := ()) (finds_note _ _ _) (finds_pure none)
  | some rule =>
    cases usable? pair.2 with
    | none => exact Finds.bind (x := ()) (finds_note _ _ _) (finds_pure none)
    | some label =>
      dsimp only
      cases hc : refusal (some rule) with
      | some error =>
        rw [if_neg (by simp)]
        exact Finds.bind (finds_refused subject hc)
          (Finds.bind (x := ()) (finds_note _ _ _) (finds_pure none))
      | none =>
        have hmatch := finds_matchRule subject hc
        rw [if_pos rfl]
        cases hm : ruleMatches (some rule) subject with
        | true =>
          rw [hm] at hmatch
          refine (Finds.bind hmatch ?_ : Finds refusal _ _ ([some rule] ++ []))
          dsimp only
          rw [if_pos hm]
          exact finds_pure (some label.strip)
        | false =>
          rw [hm] at hmatch
          refine (Finds.bind hmatch ?_ : Finds refusal _ _ ([some rule] ++ []))
          dsimp only
          rw [if_neg (by simp [hm])]
          exact finds_pure none

/-- A chunk has the labels of its pairs, one by one. -/
theorem finds_assignChunk (refusal : Option Text → Option CompileError) (subject : Option Text)
    (pairs : List RulePair) :
    Finds refusal (assignChunk subject pairs) (labelsOf refusal subject pairs)
      (rulesOf refusal pairs) := by
  have heach := (finds_each pairs fun pair _ => finds_evaluate refusal subject pair).map
    fun found => Text.sortDistinct (found.filterMap id)
  have hlabels : (pairs.map (labelOf refusal subject)).filterMap id =
      pairs.filterMap (labelOf refusal subject) := by
    rw [List.filterMap_map]
    rfl
  have hrules : (pairs.flatMap fun pair => (ruleOf refusal pair).toList) = rulesOf refusal pairs := by
    unfold rulesOf
    rw [List.filterMap_eq_flatMap_toList]
  rw [hlabels, hrules] at heach
  exact heach

/-- A policy finds the labels of the pairs it is given, among however many workers it deals them out. -/
theorem finds_assign (refusal : Option Text → Option CompileError) (subject : Option Text) {p : Policy}
    (hworkers : 0 < p.workers) (pairs : List RulePair) :
    Finds refusal (p.assign pairs subject) (labelsOf refusal subject pairs) (rulesOf refusal pairs) := by
  rcases assign_cases hworkers pairs subject with ⟨-, halone⟩ | ⟨-, -, chunks, -, hflatten, hdealt⟩
  · -- One worker takes all pairs as they are.
    rw [halone]
    exact finds_assignChunk refusal subject pairs
  · -- Several take a chunk each, and their sets are joined.
    have heach := (finds_each chunks fun chunk _ => finds_assignChunk refusal subject chunk).map
      fun sets => Text.sortDistinct sets.flatten
    rw [labelsOf_flatten, rulesOf_flatten, hflatten] at heach
    rw [hdealt]
    exact heach

/-! ### Records -/

/-- The pairs of the records that have one. -/
def pairsOf (p : Policy) (records : List Record) : List RulePair :=
  records.filterMap fun r => (p.pairOf r).toOption

/-- The pairs of records are read without the engine; a record without one is passed over. -/
theorem each_pairOrWarning_ok (p : Policy) {records : List Record} {e : Engine}
    {found : List (Option RulePair)}
    (h : ((Action.each p.pairOrWarning records).run e).result = .ok found) :
    found.filterMap id = p.pairsOf records ∧
      ((Action.each p.pairOrWarning records).run e).state = e := by
  induction records generalizing found with
  | nil =>
    obtain rfl := Except.ok.inj h
    exact ⟨rfl, rfl⟩
  | cons r records ih =>
    -- One record is read, or passed over, or stops the reading.
    have hone : ((p.pairOrWarning r).run e).state = e ∧
        ∀ x, ((p.pairOrWarning r).run e).result = .ok x → x = (p.pairOf r).toOption := by
      unfold pairOrWarning
      rcases p.pairOf r with f | pair
      · cases f with
        | missingField record field => exact ⟨rfl, fun x hx => (Except.ok.inj hx).symm⟩
        | _ => exact ⟨rfl, fun x hx => by cases hx⟩
      · exact ⟨rfl, fun x hx => (Except.ok.inj hx).symm⟩
    rw [Action.each_cons] at h ⊢
    obtain ⟨x, hx, hrest⟩ := Action.result_bind_eq_ok.mp h
    obtain ⟨xs, hxs, hfound⟩ := Action.result_bind_eq_ok.mp hrest
    rw [hone.1] at hxs
    obtain ⟨hpairs, hstate⟩ := ih hxs
    obtain rfl := hone.2 x hx
    rw [Action.run_bind_ok hx, hone.1, Action.run_bind_ok hxs, hstate]
    refine ⟨?_, rfl⟩
    obtain rfl := Except.ok.inj hfound
    rw [List.filterMap_cons, hpairs]
    show _ = (r :: records).filterMap fun r => (p.pairOf r).toOption
    rw [List.filterMap_cons]
    rfl

/-- What a policy has found in records are the labels of their pairs. -/
theorem assignRecords_ok (refusal : Option Text → Option CompileError) {p : Policy}
    (hworkers : 0 < p.workers) {records : List Record} {e : Engine} {found : List Text}
    (hsound : e.Sound) (hrefusal : e.refusal = refusal)
    (h : ((p.assignRecords records subject).run e).result = .ok found) :
    found = labelsOf refusal subject (p.pairsOf records) := by
  unfold assignRecords at h
  obtain ⟨pairs, hpairs, hfound⟩ := Action.result_bind_eq_ok.mp h
  obtain ⟨hsame, hstate⟩ := each_pairOrWarning_ok p hpairs
  rw [hstate, hsame] at hfound
  obtain ⟨hlabels, -⟩ := finds_assign refusal subject hworkers (p.pairsOf records) e hsound hrefusal
  exact Except.ok.inj (hfound.symm.trans hlabels)

/-- The pairs of records that can be evaluated: both fields have values, and the rule compiles. -/
theorem offers_pairsOf {p : Policy} {records : List Record} {rule label : Text} :
    Offers refusal (p.pairsOf records) rule label ↔ refusal (some rule) = none ∧
      ∃ r ∈ records, r.Has p.termsField rule ∧ r.Has p.classField label := by
  have hpair (r : Record) : (p.pairOf r).toOption = some (some rule, some label) ↔
      r.Has p.termsField rule ∧ r.Has p.classField label := by
    rw [← Record.fieldValue_eq_ok_iff, ← Record.fieldValue_eq_ok_iff]
    unfold pairOf
    rcases r.fieldValue p.termsField with f | t
    · simp [bind, Except.bind, Except.toOption]
    · rcases r.fieldValue p.classField with f | u
      · simp [bind, Except.bind, Except.toOption]
      · simp [bind, Except.bind, pure, Except.pure, Except.toOption]
  unfold Offers pairsOf
  simp only [List.mem_filterMap, hpair]
  constructor
  · rintro ⟨hrecord, -, -, hc⟩
    exact ⟨hc, hrecord⟩
  · rintro ⟨hc, r, hr, hrule, hlabel⟩
    exact ⟨⟨r, hr, hrule, hlabel⟩, hrule.not_blank, hlabel.not_blank, hc⟩

end Policy

end TitleClasses
