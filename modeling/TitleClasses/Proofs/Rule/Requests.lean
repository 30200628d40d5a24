import Mathlib.Data.Finset.Card
import Mathlib.Data.List.DropRight
import TitleClasses.Proofs.Rule.Engine

/-!
# Requests to an engine

An engine serves requests one after another: whether a rule matches, what its predicate is, how many
predicates are kept, and to forget them all. `predicateFor_cases` says all that a request for a predicate
can do. From it follow the rules for which predicates are kept (`served_spec`), and that a predicate
which was given once is given again until the engine is cleared (`find?_foldl`). `served_transparent`
puts together what an engine replies after any requests: what a new one would, but for the predicates
themselves, which stay the same ones.
-/

namespace TitleClasses.Engine

/-! ### What is kept -/

/-- The rules for which predicates are kept. -/
def keys (e : Engine) : List (Option Text) := e.kept.map Prod.fst

theorem find?_eq_none_iff {e : Engine} {rule : Option Text} : e.find? rule = none ↔ rule ∉ e.keys := by
  unfold find? keys
  rw [List.lookup_eq_none_iff, List.mem_map]
  constructor
  · rintro h ⟨entry, hentry, rfl⟩
    simpa using h entry hentry
  · intro h entry hentry
    simpa using fun heq => h ⟨entry, hentry, heq.symm⟩

theorem mem_keys_of_find? {e : Engine} {rule : Option Text} {m : Made} (h : e.find? rule = some m) :
    rule ∈ e.keys := by
  by_contra hnot
  rw [find?_eq_none_iff.mpr hnot] at h
  cases h

/-- The engine with one predicate more. -/
def keeping (e : Engine) (rule : Option Text) (m : Made) : Engine :=
  { e with kept := e.kept ++ [(rule, m)] }

@[simp] theorem mem_keys_keeping {e : Engine} {rule other : Option Text} {m : Made} :
    other ∈ (e.keeping rule m).keys ↔ other ∈ e.keys ∨ other = rule := by
  simp [keys, keeping]

theorem nodup_keys_keeping {e : Engine} {rule : Option Text} (m : Made) (he : e.keys.Nodup)
    (hrule : rule ∉ e.keys) : (e.keeping rule m).keys.Nodup := by
  have hkeys : (e.keeping rule m).keys = e.keys ++ [rule] := by simp [keys, keeping]
  rw [hkeys, List.nodup_append]
  refine ⟨he, List.nodup_singleton rule, ?_⟩
  rintro k hk l hl rfl
  exact hrule (List.mem_singleton.mp hl ▸ hk)

/-- What was found is found in an engine with one predicate more. -/
theorem find?_keeping {e : Engine} {rule other : Option Text} {m n : Made}
    (h : e.find? other = some n) : (e.keeping rule m).find? other = some n := by
  unfold keeping
  rw [find?_append, h, Option.some_or]

theorem find?_keeping_self {e : Engine} {rule : Option Text} (m : Made) (h : e.find? rule = none) :
    (e.keeping rule m).find? rule = some m := by
  unfold keeping
  rw [find?_append, h, Option.none_or, if_pos rfl]

/-! ### One request for a predicate -/

theorem compile_of_refused {e : Engine} {rule : Option Text} {error : CompileError}
    (h : e.refusal rule = some error) :
    (compile rule).run e = ⟨.error (.uncompilable error), e, []⟩ := by
  unfold compile
  rw [Action.run_state_bind, h]
  rfl

/-- A rule that compiles is made a predicate under the next number, which is not kept yet. -/
theorem compile_of_accepted {e : Engine} {rule : Option Text} (h : e.refusal rule = none) :
    ∃ log, (compile rule).run e =
      ⟨.ok ⟨Predicate.ofRule rule, e.made⟩, { e with made := e.made + 1 }, log⟩ := by
  unfold compile
  rw [Action.run_state_bind, h]
  exact ⟨_, rfl⟩

theorem keep_of_some {e : Engine} {rule : Option Text} (m : Made) {old : Made}
    (h : e.find? rule = some old) : (keep rule m).run e = ⟨.ok old, e, []⟩ := by
  unfold keep
  rw [Action.run_state_bind, h]
  rfl

theorem keep_of_none {e : Engine} {rule : Option Text} (m : Made) (h : e.find? rule = none) :
    (keep rule m).run e = ⟨.ok m, e.keeping rule m, []⟩ := by
  unfold keep
  rw [Action.run_state_bind, h]
  rfl

/-- All that a request for a predicate can do. One is kept, and it is given; or the rule does not compile,
and nothing is changed; or a predicate is made under the next number, kept and given. -/
theorem predicateFor_cases (e : Engine) (rule : Option Text) :
    let o := (predicateFor rule).run e
    (∃ m, e.find? rule = some m ∧ o.result = .ok m ∧ o.state = e) ∨
    (∃ error, e.find? rule = none ∧ e.refusal rule = some error ∧
      o.result = .error (.uncompilable error) ∧ o.state = e) ∨
    (e.find? rule = none ∧ e.refusal rule = none ∧
      o.result = .ok ⟨Predicate.ofRule rule, e.made⟩ ∧
      o.state = keeping { e with made := e.made + 1 } rule ⟨Predicate.ofRule rule, e.made⟩) := by
  unfold predicateFor
  rw [Action.run_state_bind]
  cases hf : e.find? rule with
  | some m => exact .inl ⟨m, rfl, rfl, rfl⟩
  | none =>
    refine .inr ?_
    cases hr : e.refusal rule with
    | some error =>
      have hc := compile_of_refused hr
      refine .inl ⟨error, rfl, rfl, ?_⟩
      dsimp only
      rw [Action.run_bind_error (congrArg Outcome.result hc), hc]
      exact ⟨rfl, rfl⟩
    | none =>
      obtain ⟨log, hc⟩ := compile_of_accepted hr
      -- Nobody else has kept a predicate of the rule meanwhile.
      have hk := keep_of_none (e := { e with made := e.made + 1 }) ⟨Predicate.ofRule rule, e.made⟩ hf
      refine .inr ⟨rfl, rfl, ?_⟩
      dsimp only
      rw [Action.run_bind_ok (congrArg Outcome.result hc), hc, hk]
      exact ⟨rfl, rfl⟩

/-- A request for a predicate leaves the engine as it is, or with the next predicate made and kept. -/
theorem predicateFor_state (e : Engine) (rule : Option Text) :
    ((predicateFor rule).run e).state = e ∨ (e.find? rule = none ∧ e.refusal rule = none ∧
      ((predicateFor rule).run e).state =
        keeping { e with made := e.made + 1 } rule ⟨Predicate.ofRule rule, e.made⟩) := by
  rcases predicateFor_cases e rule with ⟨m, -, -, hs⟩ | ⟨error, -, -, -, hs⟩ | ⟨hf, hr, -, hs⟩
  · exact .inl hs
  · exact .inl hs
  · exact .inr ⟨hf, hr, hs⟩

/-- Matching leaves behind what the request for the predicate leaves. -/
theorem matchRule_state (e : Engine) (rule text : Option Text) :
    ((matchRule rule text).run e).state = ((predicateFor rule).run e).state := by
  unfold matchRule
  cases h : ((predicateFor rule).run e).result with
  | error f => rw [Action.run_bind_error h]
  | ok m =>
    rw [Action.run_bind_ok h]
    rfl

/-- A sound engine is left as it is by a request for the predicate of a rule that does not compile. -/
theorem predicateFor_of_refused {e : Engine} (he : e.Sound) {rule : Option Text} {error : CompileError}
    (h : e.refusal rule = some error) : ((predicateFor rule).run e).state = e := by
  rcases predicateFor_cases e rule with ⟨m, hf, -, -⟩ | ⟨error', -, -, -, hs⟩ | ⟨-, hnone, -, -⟩
  · have hnone := (he rule m hf).2
    rw [h] at hnone
    cases hnone
  · exact hs
  · rw [h] at hnone
    cases hnone

/-- A request for a predicate adds the rule to the keys if it compiles. -/
theorem mem_keys_predicateFor (e : Engine) (rule other : Option Text) :
    other ∈ ((predicateFor rule).run e).state.keys ↔
      other ∈ e.keys ∨ (rule = other ∧ e.refusal other = none) := by
  rcases predicateFor_cases e rule with ⟨m, hf, -, hs⟩ | ⟨error, hf, hr, -, hs⟩ | ⟨hf, hr, -, hs⟩
  · rw [hs]
    refine ⟨.inl, ?_⟩
    rintro (hin | ⟨rfl, -⟩)
    · exact hin
    · exact mem_keys_of_find? hf
  · rw [hs]
    refine ⟨.inl, ?_⟩
    rintro (hin | ⟨rfl, hnone⟩)
    · exact hin
    · rw [hr] at hnone
      cases hnone
  · rw [hs, mem_keys_keeping]
    constructor
    · rintro (hin | rfl)
      · exact .inl hin
      · exact .inr ⟨rfl, hr⟩
    · rintro (hin | ⟨rfl, -⟩)
      · exact .inl hin
      · exact .inr rfl

theorem nodup_keys_predicateFor {e : Engine} (h : e.keys.Nodup) (rule : Option Text) :
    ((predicateFor rule).run e).state.keys.Nodup := by
  rcases predicateFor_state e rule with hs | ⟨hf, -, hs⟩
  · rw [hs]
    exact h
  · rw [hs]
    exact nodup_keys_keeping _ h (find?_eq_none_iff.mp hf)

/-! ### Requests -/

/-- What is asked of an engine. -/
inductive Request where
  | matching (rule text : Option Text)
  | predicate (rule : Option Text)
  | size
  | clear
deriving DecidableEq

/-- What an engine replies. -/
inductive Reply where
  | truth (b : Bool)
  | made (m : Made)
  | size (n : Nat)
  | cleared
deriving DecidableEq

/-- What an engine does to serve a request. -/
def Request.serve : Request → Action Engine Reply
  | .matching rule text => do return .truth (← matchRule rule text)
  | .predicate rule => do return .made (← predicateFor rule)
  | .size => do return .size (← Action.state).size
  | .clear => do
    Engine.clear
    return .cleared

/-- The rule whose predicate a request needs. -/
def Request.rule? : Request → Option (Option Text)
  | .matching rule _ => some rule
  | .predicate rule => some rule
  | .size => none
  | .clear => none

/-- The engine after a request. -/
def Request.effect (e : Engine) (q : Request) : Engine := (q.serve.run e).state

/-- A new engine after some requests. -/
def served (refusal : Option Text → Option CompileError) (requests : List Request) : Engine :=
  requests.foldl Request.effect (new refusal)

/-- The requests since the last one that cleared the engine. -/
def sinceClear (requests : List Request) : List Request := requests.rtakeWhile (· ≠ .clear)

/-- The rules of requests since the last clearing that compile. -/
def compiledSince (refusal : Option Text → Option CompileError) (requests : List Request) :
    List (Option Text) :=
  ((sinceClear requests).filterMap Request.rule?).filter fun rule => refusal rule = none

variable {refusal : Option Text → Option CompileError} {requests : List Request}

theorem served_append (more : List Request) :
    served refusal (requests ++ more) = more.foldl Request.effect (served refusal requests) := by
  unfold served
  rw [List.foldl_append]

theorem Request.serve_matching (e : Engine) (rule text : Option Text) :
    ((Request.matching rule text).serve.run e).result =
      ((matchRule rule text).run e).result.map .truth := by
  unfold serve
  rw [Action.run_map]

theorem Request.serve_predicate (e : Engine) (rule : Option Text) :
    ((Request.predicate rule).serve.run e).result = ((predicateFor rule).run e).result.map .made := by
  unfold serve
  rw [Action.run_map]

/-- A request that needs a predicate leaves what the request for that predicate leaves; the size is only
read, and clearing forgets. -/
theorem Request.effect_eq (e : Engine) (q : Request) :
    q.effect e = match q with
      | .matching rule _ => ((predicateFor rule).run e).state
      | .predicate rule => ((predicateFor rule).run e).state
      | .size => e
      | .clear => { e with kept := [] } := by
  cases q with
  | matching rule text =>
    refine Eq.trans ?_ (matchRule_state e rule text)
    unfold effect serve
    rw [Action.run_map]
  | predicate rule =>
    unfold effect serve
    rw [Action.run_map]
  | size => rfl
  | clear => rfl

/-- What a request leaves has a property that the engine has, if requests for predicates keep it and
clearing does. -/
theorem Request.effect_of {P : Engine → Prop} {e : Engine} {q : Request} (h : P e)
    (hpredicate : ∀ rule, P ((predicateFor rule).run e).state)
    (hclear : q = .clear → P { e with kept := [] }) : P (q.effect e) := by
  rw [effect_eq]
  cases q with
  | matching rule text => exact hpredicate rule
  | predicate rule => exact hpredicate rule
  | size => exact h
  | clear => exact hclear rfl

/-- A request whose rule does not compile fails and changes nothing. -/
theorem Request.serve_of_refused {e : Engine} (he : e.Sound) {q : Request} {rule : Option Text}
    {error : CompileError} (hq : q.rule? = some rule) (h : e.refusal rule = some error) :
    (q.serve.run e).result = .error (.uncompilable error) ∧ (q.serve.run e).state = e := by
  have hcompiled : compiled e.refusal rule = .error (.uncompilable error) := by
    rw [compiled, h]
  have hstate := predicateFor_of_refused he h
  cases q with
  | matching rule' text =>
    obtain rfl := Option.some.inj hq
    rw [serve_matching, (matchRule_run he rule' text).1, hcompiled]
    exact ⟨rfl, (effect_eq _ (.matching rule' text)).trans hstate⟩
  | predicate rule' =>
    obtain rfl := Option.some.inj hq
    refine ⟨?_, (effect_eq _ (.predicate rule')).trans hstate⟩
    rw [serve_predicate]
    have hfails := (predicateFor_run he rule').1
    rw [hcompiled] at hfails
    cases hm : ((predicateFor rule').run e).result with
    | error f =>
      rw [hm] at hfails
      rw [Except.error.inj hfails]
      rfl
    | ok m =>
      rw [hm] at hfails
      cases hfails
  | size => cases hq
  | clear => cases hq

/-! ### One request -/

/-- What one request does to an engine: it keeps its soundness and its refusals, and has the keys it had,
without repetition, and the rule of the request if that compiles; clearing leaves none. -/
theorem Request.effect_spec {e : Engine} (he : e.Sound) (hkeys : e.keys.Nodup) (q : Request) :
    let e' := q.effect e
    e'.Sound ∧ e'.refusal = e.refusal ∧ e'.keys.Nodup ∧ ∀ rule, rule ∈ e'.keys ↔
      (q ≠ .clear ∧ rule ∈ e.keys) ∨ (q.rule? = some rule ∧ e.refusal rule = none) := by
  have hpredicate (rule : Option Text) :
      let e' := ((predicateFor rule).run e).state
      e'.Sound ∧ e'.refusal = e.refusal ∧ e'.keys.Nodup ∧
        ∀ other, other ∈ e'.keys ↔ other ∈ e.keys ∨ (rule = other ∧ e.refusal other = none) := by
    obtain ⟨-, hsound, hrefusal⟩ := predicateFor_run he rule
    exact ⟨hsound, hrefusal, nodup_keys_predicateFor hkeys rule, mem_keys_predicateFor e rule⟩
  dsimp only
  rw [effect_eq]
  cases q with
  | matching rule text => simpa [rule?] using hpredicate rule
  | predicate rule => simpa [rule?] using hpredicate rule
  | size => simpa [rule?] using ⟨he, hkeys⟩
  | clear =>
    have hsound : Engine.Sound { e with kept := [] } := clear_sound
    simpa [rule?, keys] using hsound

/-! ### Any requests -/

/-- After any requests an engine is sound, and keeps predicates for the rules since the last clearing that
compile, each once. -/
theorem served_spec (refusal : Option Text → Option CompileError) (requests : List Request) :
    let e := served refusal requests
    e.Sound ∧ e.refusal = refusal ∧ e.keys.Nodup ∧
      ∀ rule, rule ∈ e.keys ↔ rule ∈ compiledSince refusal requests := by
  induction requests using List.reverseRecOn with
  | nil => exact ⟨new_sound refusal, rfl, List.nodup_nil, fun rule => Iff.rfl⟩
  | append_singleton requests q ih =>
    obtain ⟨hsound, hrefusal, hkeys, hmem⟩ := ih
    obtain ⟨hsound', hrefusal', hkeys', hmem'⟩ := q.effect_spec hsound hkeys
    rw [served_append, List.foldl_cons, List.foldl_nil]
    refine ⟨hsound', hrefusal'.trans hrefusal, hkeys', fun rule => ?_⟩
    rw [hmem', hmem, hrefusal]
    -- The rules since the last clearing are none after a clearing, and else one more at most.
    unfold compiledSince sinceClear
    rw [List.rtakeWhile_concat]
    by_cases hq : q = .clear
    · rw [hq]
      simp [Request.rule?]
    · simp [hq, List.filter_append, or_comm]

/-- The size of an engine is the number of its keys. -/
theorem size_eq_card {e : Engine} (h : e.keys.Nodup) : e.size = e.keys.toFinset.card := by
  rw [List.toFinset_card_of_nodup h]
  unfold size keys
  rw [List.length_map]

/-! ### The same predicates -/

/-- A predicate that is kept stays until the engine is cleared. -/
theorem find?_foldl {e : Engine} {rule : Option Text} {m : Made} (h : e.find? rule = some m)
    (since : List Request) (hc : .clear ∉ since) :
    find? (since.foldl Request.effect e) rule = some m := by
  induction since generalizing e with
  | nil => exact h
  | cons q since ih =>
    rw [List.mem_cons, not_or] at hc
    rw [List.foldl_cons]
    refine ih (Request.effect_of (P := fun e => e.find? rule = some m) h (fun other => ?_) ?_) hc.2
    · rcases predicateFor_state e other with hs | ⟨-, -, hs⟩
      · rw [hs]
        exact h
      · rw [hs]
        exact find?_keeping h
    · rintro rfl
      exact absurd rfl hc.1

/-- A predicate that was given is kept. -/
theorem find?_of_predicateFor {e : Engine} {rule : Option Text} {m : Made}
    (h : ((predicateFor rule).run e).result = .ok m) :
    ((predicateFor rule).run e).state.find? rule = some m := by
  rcases predicateFor_cases e rule with ⟨n, hf, hr, hs⟩ | ⟨error, -, -, hr, -⟩ | ⟨hf, -, hr, hs⟩
  · rw [hs, hf, Except.ok.inj (hr.symm.trans h)]
  · rw [hr] at h
    cases h
  · obtain rfl := Except.ok.inj (hr.symm.trans h)
    rw [hs]
    exact find?_keeping_self _ hf

/-- A predicate that is kept is given. -/
theorem predicateFor_of_find? {e : Engine} {rule : Option Text} {m : Made}
    (h : e.find? rule = some m) : ((predicateFor rule).run e).result = .ok m := by
  rcases predicateFor_cases e rule with ⟨n, hf, hr, -⟩ | ⟨error, hf, -⟩ | ⟨hf, -⟩
  · rw [hr, Option.some.inj (hf.symm.trans h)]
  · rw [hf] at h
    cases h
  · rw [hf] at h
    cases h

/-! ### Numbers -/

/-- Whether all predicates that are kept were made under numbers from one on, and before the next. -/
def NumberedFrom (n : Nat) (e : Engine) : Prop :=
  n ≤ e.made ∧ ∀ rule m, e.find? rule = some m → n ≤ m.serial ∧ m.serial < e.made

/-- A request makes predicates under new numbers only. -/
theorem Request.effect_numbered {n : Nat} {e : Engine} (h : NumberedFrom n e) (q : Request) :
    NumberedFrom n (q.effect e) := by
  refine effect_of h (fun rule => ?_) fun _ => ⟨h.1, fun rule m hm => by cases hm⟩
  rcases predicateFor_state e rule with hs | ⟨-, -, hs⟩
  · rw [hs]
    exact h
  rw [hs]
  refine ⟨Nat.le_succ_of_le h.1, fun other m hm => ?_⟩
  unfold keeping at hm
  rw [find?_append] at hm
  change (e.find? other).or _ = some m at hm
  -- The predicate was kept before, or it is the one that was made now.
  rcases Option.or_eq_some_iff.mp hm with hold | ⟨-, hnew⟩
  · obtain ⟨hle, hlt⟩ := h.2 other m hold
    exact ⟨hle, Nat.lt_succ_of_lt hlt⟩
  · split at hnew
    · obtain rfl := Option.some.inj hnew
      exact ⟨h.1, Nat.lt_succ_self e.made⟩
    · cases hnew

theorem foldl_numbered {n : Nat} {e : Engine} (h : NumberedFrom n e) (requests : List Request) :
    NumberedFrom n (requests.foldl Request.effect e) := by
  induction requests generalizing e with
  | nil => exact h
  | cons q requests ih => exact ih (q.effect_numbered h)

/-! ### Replies -/

/-- A rule that compiles has a predicate, whatever an engine was asked before. -/
theorem predicateFor_served (requests : List Request) {rule : Option Text} (h : refusal rule = none) :
    ∃ m, ((predicateFor rule).run (served refusal requests)).result = .ok m := by
  obtain ⟨hsound, hrefusal, -⟩ := served_spec refusal requests
  obtain ⟨hr, -⟩ := predicateFor_run hsound rule
  rw [hrefusal, compiled, h] at hr
  cases hm : ((predicateFor rule).run (served refusal requests)).result with
  | error f =>
    rw [hm] at hr
    cases hr
  | ok m => exact ⟨m, rfl⟩

/-- A predicate that was given is given again exactly as long as the engine is not cleared. -/
theorem predicateFor_served_iff (before since : List Request) {rule : Option Text}
    (h : refusal rule = none) :
    ((predicateFor rule).run (served refusal (before ++ .predicate rule :: since))).result =
        ((predicateFor rule).run (served refusal before)).result ↔ .clear ∉ since := by
  obtain ⟨m, hm⟩ := predicateFor_served before h
  have hkept (rest : List Request) (hrest : .clear ∉ rest) :
      (served refusal (before ++ .predicate rule :: rest)).find? rule = some m := by
    rw [served_append, List.foldl_cons]
    refine find?_foldl ?_ rest hrest
    rw [Request.effect_eq]
    exact find?_of_predicateFor hm
  rw [hm]
  refine ⟨fun hsame hclear => ?_, fun hclear => predicateFor_of_find? (hkept since hclear)⟩
  -- What is made after the clearing has a greater number than what was kept before it.
  obtain ⟨first, second, rfl, hfirst⟩ := List.eq_append_cons_of_mem hclear
  have hbefore : NumberedFrom 0 (served refusal (before ++ .predicate rule :: first)) :=
    foldl_numbered ⟨Nat.zero_le _, fun other n hn => by cases hn⟩ _
  have hlt := (hbefore.2 rule m (hkept first hfirst)).2
  have hcleared : NumberedFrom (served refusal (before ++ .predicate rule :: first)).made
      (Request.clear.effect (served refusal (before ++ .predicate rule :: first))) :=
    ⟨Nat.le_refl _, fun other n hn => by cases hn⟩
  have hafter := Request.effect_numbered (foldl_numbered hcleared second) (.predicate rule)
  rw [← List.cons_append, ← List.append_assoc, served_append, List.foldl_cons] at hsame
  have hnew := find?_of_predicateFor hsame
  rw [Request.effect_eq] at hafter
  have hle := (hafter.2 rule m hnew).1
  omega

/-- What an engine replies after any requests. Whether a rule matches is told by the predicate of the
rule alone; a predicate that is asked for is the predicate of the rule, and the one that was given
before exactly if the engine was not cleared since; a request that needs a rule which does not compile
fails and changes nothing; and there are as many predicates as rules that compiled since the last
clearing, an absent rule and an empty one being two. -/
theorem served_transparent (refusal : Option Text → Option CompileError) (earlier : List Request) :
    let e := served refusal earlier
    (∀ rule text, ((Request.matching rule text).serve.run e).result =
      (compiled refusal rule).map fun p => .truth (p.holdsOf text)) ∧
    (∀ rule, ∃ given : Except Fault Made,
      ((Request.predicate rule).serve.run e).result = given.map .made ∧
      given.map Made.predicate = compiled refusal rule) ∧
    (∀ rule before since, earlier = before ++ .predicate rule :: since → refusal rule = none →
      (((Request.predicate rule).serve.run e).result =
        ((Request.predicate rule).serve.run (served refusal before)).result ↔ .clear ∉ since)) ∧
    (∀ q rule error, Request.rule? q = some rule → refusal rule = some error →
      (q.serve.run e).result = .error (.uncompilable error) ∧ (q.serve.run e).state = e) ∧
    (Request.size.serve.run e).result =
      .ok (.size (compiledSince refusal earlier).toFinset.card) := by
  obtain ⟨hsound, hrefusal, hkeys, hmem⟩ := served_spec refusal earlier
  have hmatch (rule text : Option Text) := (matchRule_run hsound rule text).1
  have hpredicate (rule : Option Text) := (predicateFor_run hsound rule).1
  rw [hrefusal] at hmatch hpredicate
  refine ⟨fun rule text => ?_, fun rule => ⟨_, Request.serve_predicate _ rule, hpredicate rule⟩, ?_, ?_,
    ?_⟩
  · rw [Request.serve_matching, hmatch]
    cases compiled refusal rule <;> rfl
  · rintro rule before since rfl hnone
    obtain ⟨m, hm⟩ := predicateFor_served before hnone
    obtain ⟨n, hn⟩ := predicateFor_served (before ++ .predicate rule :: since) hnone
    rw [← predicateFor_served_iff before since hnone, Request.serve_predicate, Request.serve_predicate,
      hm, hn]
    simp [Except.map]
  · intro q rule error hq herror
    exact Request.serve_of_refused hsound hq ((congrFun hrefusal rule).trans herror)
  · show Except.ok (Reply.size (size _)) = _
    have hset : (served refusal earlier).keys.toFinset = (compiledSince refusal earlier).toFinset :=
      List.toFinset.ext hmem
    rw [size_eq_card hkeys, hset]

example : (Request.size.serve.run (served (fun _ => none)
    [.predicate none, .clear, .matching none none, .predicate (some []), .predicate none])).result =
      .ok (.size 2) := rfl

end TitleClasses.Engine
