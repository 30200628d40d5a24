import Mathlib.Data.List.Nodup
import TitleClasses.Proofs.Rule.Requests

/-!
# Callers that share an engine

A caller wants the predicate of a rule. It looks the rule up, compiles it if no predicate is kept, and
keeps the predicate it has made unless another one was kept meanwhile. Between these parts other callers
may arrive, do parts of theirs, and clear the engine. A caller that nobody interrupts does what a request
for the predicate does: `Shared.turns_alone`.

`Caller.step_part` says all that one part can do. From it follows what every move preserves: the engine is
sound, and a caller holds or was given what its rule compiles to (`Shared.Valid`); predicates that were
made are told apart by their numbers (`Shared.Numbered`); and without a clearing what was given is what is
kept (`Shared.Agreed`). A caller is served when it has had three turns, whatever happens between them
(`Shared.served_of_turns`). `shared_interleaved` puts together what holds after any moves.
-/

namespace TitleClasses.Engine

/-- How far a caller has come: what it does next, or the answer that it was given. -/
inductive Progress where
  | asking
  | compiling
  | keeping (m : Made)
  | served (answer : Except Fault Made)

/-- A caller that wants the predicate of a rule. -/
structure Caller where
  rule : Option Text
  progress : Progress

/-- The next part of the work of a caller, which nobody interrupts. -/
def Caller.step (c : Caller) (e : Engine) : Caller × Engine :=
  match c.progress with
  | .asking =>
    match e.find? c.rule with
    | some m => ({ c with progress := .served (.ok m) }, e)
    | none => ({ c with progress := .compiling }, e)
  | .compiling =>
    let o := (compile c.rule).run e
    match o.result with
    | .ok m => ({ c with progress := .keeping m }, o.state)
    | .error f => ({ c with progress := .served (.error f) }, o.state)
  | .keeping m =>
    let o := (keep c.rule m).run e
    ({ c with progress := .served o.result }, o.state)
  | .served _ => (c, e)

/-- Whether what a caller holds or was given is what its rule compiles to. -/
def Caller.Right (refusal : Option Text → Option CompileError) (c : Caller) : Prop :=
  match c.progress with
  | .asking => True
  | .compiling => True
  | .keeping m => m.predicate = Predicate.ofRule c.rule ∧ refusal c.rule = none
  | .served answer => answer.map Made.predicate = compiled refusal c.rule

/-- The number of the predicate that a caller has made and not kept yet, if there is one. -/
def Caller.serials (c : Caller) : List Nat :=
  match c.progress with
  | .keeping m => [m.serial]
  | _ => []

/-- An engine with its callers, in the order in which they have arrived. -/
structure Shared where
  engine : Engine
  callers : List Caller

/-- What may happen next to a shared engine. -/
inductive Move where
  /-- A caller arrives that wants the predicate of a rule. -/
  | arrive (rule : Option Text)
  /-- One of the callers does its next part. -/
  | turn (i : Nat)
  /-- Somebody clears the engine. -/
  | clear
deriving DecidableEq

/-- What a move makes of a shared engine. -/
def Move.effect (s : Shared) : Move → Shared
  | .arrive rule => { s with callers := s.callers ++ [⟨rule, .asking⟩] }
  | .turn i =>
    match s.callers[i]? with
    | none => s
    | some c =>
      let (c', e) := c.step s.engine
      ⟨e, s.callers.set i c'⟩
  | .clear => { s with engine := (Engine.clear.run s.engine).state }

/-- A new engine after some moves. -/
def Shared.after (refusal : Option Text → Option CompileError) (moves : List Move) : Shared :=
  moves.foldl Move.effect ⟨new refusal, []⟩

/-! ### One part -/

namespace Caller

/-- All that one part of the work of a caller can do to it and to the engine. -/
inductive Part (c : Caller) (e : Engine) : Caller → Engine → Prop
  /-- The caller was served before. -/
  | idle {answer : Except Fault Made} (h : c.progress = .served answer) : Part c e c e
  /-- A predicate is kept for the rule, and is given, whether the caller looks for one or wants to keep its
  own. -/
  | found {m : Made} (hf : e.find? c.rule = some m)
      (h : c.progress = .asking ∨ ∃ own, c.progress = .keeping own) :
      Part c e ⟨c.rule, .served (.ok m)⟩ e
  /-- No predicate is kept for the rule, which will be compiled. -/
  | missed (h : c.progress = .asking) : Part c e ⟨c.rule, .compiling⟩ e
  /-- The rule does not compile. -/
  | refused {error : CompileError} (hc : e.refusal c.rule = some error) (h : c.progress = .compiling) :
      Part c e ⟨c.rule, .served (.error (.uncompilable error))⟩ e
  /-- A predicate is made of the rule under the next number. -/
  | compiled (hc : e.refusal c.rule = none) (h : c.progress = .compiling) :
      Part c e ⟨c.rule, .keeping ⟨Predicate.ofRule c.rule, e.made⟩⟩ { e with made := e.made + 1 }
  /-- The predicate of the caller is kept and given. -/
  | kept {m : Made} (hf : e.find? c.rule = none) (h : c.progress = .keeping m) :
      Part c e ⟨c.rule, .served (.ok m)⟩ (e.keeping c.rule m)

theorem step_part (c : Caller) (e : Engine) : Part c e (c.step e).1 (c.step e).2 := by
  unfold step
  rcases hp : c.progress with _ | _ | m | answer
  · rcases hf : e.find? c.rule with _ | m
    · exact .missed hp
    · exact .found hf (.inl hp)
  · rcases hc : e.refusal c.rule with _ | error
    · obtain ⟨log, hrun⟩ := compile_of_accepted hc
      simp only [hrun]
      exact .compiled hc hp
    · simp only [compile_of_refused hc]
      exact .refused hc hp
  · rcases hf : e.find? c.rule with _ | old
    · simp only [keep_of_none m hf]
      exact .kept hf hp
    · simp only [keep_of_some m hf]
      exact .found hf (.inr ⟨m, hp⟩)
  · exact .idle hp

/-- A caller wants the same rule all the time. -/
theorem Part.rule_eq {c c' : Caller} {e e' : Engine} (h : Part c e c' e') : c'.rule = c.rule := by
  cases h <;> rfl

end Caller

/-! ### One move -/

namespace Shared

variable {refusal : Option Text → Option CompileError} {s : Shared}

/-- A turn of a caller is one part of its work; a turn of nobody changes nothing. -/
theorem turn_cases (s : Shared) (i : Nat) :
    (s.callers[i]? = none ∧ Move.effect s (.turn i) = s) ∨
    ∃ c c' e', s.callers[i]? = some c ∧ c.Part s.engine c' e' ∧
      Move.effect s (.turn i) = ⟨e', s.callers.set i c'⟩ := by
  rcases hc : s.callers[i]? with _ | c
  · refine .inl ⟨rfl, ?_⟩
    simp only [Move.effect, hc]
  · refine .inr ⟨c, _, _, rfl, c.step_part s.engine, ?_⟩
    simp only [Move.effect, hc]

/-- A caller alone is served in three turns as a request for its predicate is, and leaves the engine that
the request leaves. -/
theorem turns_alone (e : Engine) (rule : Option Text) :
    [Move.turn 0, .turn 0, .turn 0].foldl Move.effect ⟨e, [⟨rule, .asking⟩]⟩ =
      ⟨((predicateFor rule).run e).state,
        [⟨rule, .served ((predicateFor rule).run e).result⟩]⟩ := by
  rcases predicateFor_cases e rule with ⟨m, hf, hr, hs⟩ | ⟨error, hf, hc, hr, hs⟩ |
    ⟨hf, hc, hr, hs⟩
  · -- The predicate is found at once, and two turns are left over.
    rw [hr, hs]
    simp [Move.effect, Caller.step, hf]
  · -- The rule is looked up and refused.
    rw [hr, hs]
    simp [Move.effect, Caller.step, hf, compile_of_refused hc]
  · obtain ⟨log, hrun⟩ := compile_of_accepted hc
    have hkeep := keep_of_none (e := { e with made := e.made + 1 }) ⟨Predicate.ofRule rule, e.made⟩ hf
    rw [hr, hs]
    simp [Move.effect, Caller.step, hf, hrun, hkeep]

/-! ### What callers are given -/

/-- Whether a shared engine is sound, with certain rules refused, and has right callers. -/
structure Valid (refusal : Option Text → Option CompileError) (s : Shared) : Prop where
  sound : s.engine.Sound
  refuses : s.engine.refusal = refusal
  keys : s.engine.keys.Nodup
  callers : ∀ c ∈ s.callers, c.Right refusal

/-- One part leaves the engine sound and the caller right. -/
theorem Valid.part (h : s.Valid refusal) {c c' : Caller} {e' : Engine} (hright : c.Right refusal)
    (hpart : c.Part s.engine c' e') :
    e'.Sound ∧ e'.refusal = refusal ∧ e'.keys.Nodup ∧ c'.Right refusal := by
  obtain ⟨hsound, hrefusal, hkeys, -⟩ := h
  cases hpart with
  | idle hserved => exact ⟨hsound, hrefusal, hkeys, hright⟩
  | found hf hasked =>
    -- What a sound engine keeps for the rule is its predicate.
    obtain ⟨hm, hc⟩ := hsound _ _ hf
    refine ⟨hsound, hrefusal, hkeys, ?_⟩
    show Except.ok _ = compiled refusal c.rule
    rw [compiled, ← hrefusal, hc, hm]
  | missed hasked => exact ⟨hsound, hrefusal, hkeys, trivial⟩
  | refused hc hasked =>
    refine ⟨hsound, hrefusal, hkeys, ?_⟩
    show Except.error _ = compiled refusal c.rule
    rw [compiled, ← hrefusal, hc]
  | compiled hc hasked =>
    exact ⟨hsound, hrefusal, hkeys, rfl, hrefusal ▸ hc⟩
  | kept hf hasked =>
    obtain ⟨hm, hc⟩ : _ ∧ refusal c.rule = none := by simpa only [Caller.Right, hasked] using hright
    obtain ⟨-, hsound', hrefusal'⟩ := keep_run hsound hm (hrefusal ▸ hc)
    rw [keep_of_none _ hf] at hsound' hrefusal'
    refine ⟨hsound', hrefusal'.trans hrefusal, nodup_keys_keeping _ hkeys (find?_eq_none_iff.mp hf), ?_⟩
    show Except.ok _ = compiled refusal c.rule
    rw [compiled, hc, hm]

/-- A move leaves a valid state. -/
theorem Valid.effect (h : s.Valid refusal) (m : Move) : (m.effect s).Valid refusal := by
  cases m with
  | arrive rule =>
    refine { h with callers := fun c hc => ?_ }
    rcases List.mem_append.mp hc with hc | hc
    · exact h.callers c hc
    · obtain rfl := List.mem_singleton.mp hc
      trivial
  | turn i =>
    rcases turn_cases s i with ⟨-, heq⟩ | ⟨c, c', e', hc, hpart, heq⟩
    · rwa [heq]
    · obtain ⟨hsound, hrefusal, hkeys, hright⟩ := h.part (h.callers c (List.mem_of_getElem? hc)) hpart
      rw [heq]
      refine ⟨hsound, hrefusal, hkeys, fun d hd => ?_⟩
      rcases List.mem_or_eq_of_mem_set hd with hd | rfl
      · exact h.callers d hd
      · exact hright
  | clear => exact ⟨clear_sound, h.refuses, List.nodup_nil, h.callers⟩

/-- Whatever has happened, the state is valid. -/
theorem valid_after (refusal : Option Text → Option CompileError) (moves : List Move) :
    (after refusal moves).Valid refusal := by
  refine List.foldlRecOn moves Move.effect ?_ fun s h m _ => h.effect m
  exact ⟨new_sound refusal, rfl, List.nodup_nil, by simp⟩

/-! ### One predicate for all -/

/-- Whether every caller was given the predicate that is kept. -/
def Agreed (s : Shared) : Prop :=
  ∀ c ∈ s.callers, ∀ m, c.progress = .served (.ok m) → s.engine.find? c.rule = some m

/-- Unless it clears the engine, a move leaves every caller with the predicate that is kept. -/
theorem Agreed.effect (h : s.Agreed) {m : Move} (hm : m ≠ .clear) : (m.effect s).Agreed := by
  cases m with
  | arrive rule =>
    intro c hc m hserved
    rcases List.mem_append.mp hc with hc | hc
    · exact h c hc m hserved
    · obtain rfl := List.mem_singleton.mp hc
      cases hserved
  | turn i =>
    rcases turn_cases s i with ⟨-, heq⟩ | ⟨c, c', e', hc, hpart, heq⟩
    · rwa [heq]
    rw [heq]
    intro d hd m hserved
    have hold := h c (List.mem_of_getElem? hc)
    dsimp only at hd ⊢
    -- A part removes nothing, so that the others still have the predicate that is kept.
    have hothers (hd : d ∈ s.callers) : e'.find? d.rule = some m := by
      have hfound := h d hd m hserved
      cases hpart with
      | kept hf hasked => exact find?_keeping hfound
      | _ => exact hfound
    rcases List.mem_or_eq_of_mem_set hd with hd | rfl
    · exact hothers hd
    cases hpart with
    | idle _ => exact hold m hserved
    | found hf _ =>
      obtain rfl := Except.ok.inj (Progress.served.inj hserved)
      exact hf
    | missed _ => cases hserved
    | refused _ _ => cases hserved
    | compiled _ _ => cases hserved
    | kept hf _ =>
      obtain rfl := Except.ok.inj (Progress.served.inj hserved)
      exact find?_keeping_self _ hf
  | clear => exact absurd rfl hm

theorem agreed_after (refusal : Option Text → Option CompileError) {moves : List Move}
    (h : .clear ∉ moves) : (after refusal moves).Agreed := by
  refine List.foldlRecOn moves Move.effect ?_ fun s hs m hm => hs.effect ?_
  · intro c hc
    cases hc
  · rintro rfl
    exact h hm

/-! ### Numbers -/

end Shared

/-- The numbers of the predicates that an engine keeps. -/
def keptSerials (e : Engine) : List Nat := e.kept.map fun entry => entry.2.serial

/-- What one part does to the numbers: it adds none but that of a predicate that it makes. -/
theorem Caller.Part.count_le {c c' : Caller} {e e' : Engine} (h : Part c e c' e') (n : Nat) :
    e.made ≤ e'.made ∧ e'.keptSerials.count n + c'.serials.count n ≤
      e.keptSerials.count n + c.serials.count n + if e.made ≤ n ∧ n < e'.made then 1 else 0 := by
  cases h with
  | idle _ => exact ⟨Nat.le_refl _, Nat.le_add_right _ _⟩
  | found hf _ => exact ⟨Nat.le_refl _, by simp only [serials, List.count_nil]; omega⟩
  | missed _ => exact ⟨Nat.le_refl _, by simp only [serials, List.count_nil]; omega⟩
  | refused _ _ => exact ⟨Nat.le_refl _, by simp only [serials, List.count_nil]; omega⟩
  | compiled _ hasked =>
    -- The number that is added is the next one.
    refine ⟨Nat.le_succ _, ?_⟩
    have hnew : [e.made].count n = if e.made ≤ n ∧ n < e.made + 1 then 1 else 0 := by
      by_cases hn : e.made = n
      · rw [hn, List.count_singleton_self, if_pos (by omega)]
      · rw [List.count_singleton, if_neg (by simpa using hn), if_neg (by omega)]
    simp only [serials, hasked, hnew]
    exact Nat.le_refl _
  | kept _ hasked =>
    -- The number goes from the caller to the engine.
    refine ⟨Nat.le_refl _, ?_⟩
    have hkept (m : Made) : (e.keeping c.rule m).keptSerials = e.keptSerials ++ [m.serial] := by
      simp [keptSerials, keeping]
    simp only [serials, hasked, hkept, List.count_append, List.count_nil]
    omega

namespace Shared

/-- The numbers of all predicates that the engine keeps, and of all that callers hold. -/
def serials (s : Shared) : List Nat := s.engine.keptSerials ++ s.callers.flatMap Caller.serials

/-- Whether the predicates that are there were made under different numbers, before the next. -/
structure Numbered (s : Shared) : Prop where
  nodup : s.serials.Nodup
  made : ∀ n ∈ s.serials, n < s.engine.made

/-- A move adds to the numbers none but that of a predicate that is made. -/
theorem count_effect (s : Shared) (m : Move) (n : Nat) :
    s.engine.made ≤ (m.effect s).engine.made ∧ (m.effect s).serials.count n ≤
      s.serials.count n + if s.engine.made ≤ n ∧ n < (m.effect s).engine.made then 1 else 0 := by
  cases m with
  | arrive rule =>
    have hsame : serials (Move.effect s (.arrive rule)) = s.serials := by
      simp [Move.effect, serials, Caller.serials]
    exact ⟨Nat.le_refl _, by rw [hsame]; exact Nat.le_add_right _ _⟩
  | turn i =>
    rcases turn_cases s i with ⟨-, heq⟩ | ⟨c, c', e', hc, hpart, heq⟩
    · rw [heq]
      exact ⟨Nat.le_refl _, Nat.le_add_right _ _⟩
    obtain ⟨hi, hci⟩ := List.getElem?_eq_some_iff.mp hc
    obtain ⟨front, rest, hcallers, -, hset⟩ : ∃ front rest,
        s.callers = front ++ s.callers[i] :: rest ∧ front.length = i ∧
          s.callers.set i c' = front ++ c' :: rest := List.exists_of_set hi
    rw [hci] at hcallers
    obtain ⟨hmade, hcount⟩ := hpart.count_le n
    rw [heq]
    refine ⟨hmade, ?_⟩
    -- The other callers hold what they held.
    simp only [serials, hset]
    rw [hcallers]
    simp only [List.flatMap_append, List.flatMap_cons, List.count_append]
    omega
  | clear =>
    refine ⟨Nat.le_refl _, ?_⟩
    have hnone : (Move.effect s .clear).engine.keptSerials = [] := rfl
    simp only [serials, hnone, List.nil_append, List.count_append]
    exact (Nat.le_add_left _ _).trans (Nat.le_add_right _ _)

/-- A move leaves predicates under different numbers. -/
theorem Numbered.effect (h : s.Numbered) (m : Move) : (m.effect s).Numbered := by
  have hnew (n : Nat) (hn : s.engine.made ≤ n) : s.serials.count n = 0 :=
    List.count_eq_zero.mpr fun hmem => absurd (h.made n hmem) (by omega)
  constructor
  · rw [List.nodup_iff_count_le_one]
    intro n
    have hold := List.nodup_iff_count_le_one.mp h.nodup n
    obtain ⟨-, hcount⟩ := count_effect s m n
    split_ifs at hcount with hmade
    · have hzero := hnew n hmade.1
      omega
    · omega
  · intro n hn
    obtain ⟨hle, hcount⟩ := count_effect s m n
    have hpos := List.count_pos_iff.mpr hn
    split_ifs at hcount with hmade
    · exact hmade.2
    · have hmem : n ∈ s.serials := List.count_pos_iff.mp (by omega)
      exact Nat.lt_of_lt_of_le (h.made n hmem) hle

theorem numbered_after (refusal : Option Text → Option CompileError) (moves : List Move) :
    (after refusal moves).Numbered :=
  List.foldlRecOn moves Move.effect ⟨List.nodup_nil, by simp [serials, keptSerials, new]⟩
    fun s h m _ => h.effect m

/-! ### Turns -/

end Shared

/-- How many parts a caller still has to do at most. -/
def Caller.rank (c : Caller) : Nat :=
  match c.progress with
  | .asking => 3
  | .compiling => 2
  | .keeping _ => 1
  | .served _ => 0

/-- A part brings a caller nearer to its answer. -/
theorem Caller.Part.rank_le {c c' : Caller} {e e' : Engine} (h : Part c e c' e') :
    c'.rank ≤ c.rank - 1 := by
  cases h with
  | idle hserved => simp [rank, hserved]
  | found _ _ => exact Nat.zero_le _
  | missed hasked => simp [rank, hasked]
  | refused _ _ => exact Nat.zero_le _
  | compiled _ hasked => simp [rank, hasked]
  | kept _ _ => exact Nat.zero_le _

namespace Shared

/-- A caller stays the caller of its rule, and each of its turns brings it nearer to its answer. -/
theorem rank_foldl (moves : List Move) {s : Shared} {i : Nat} {c : Caller}
    (hc : s.callers[i]? = some c) :
    ∃ c', (moves.foldl Move.effect s).callers[i]? = some c' ∧ c'.rule = c.rule ∧
      c'.rank ≤ c.rank - moves.count (.turn i) := by
  induction moves generalizing s c with
  | nil => exact ⟨c, hc, rfl, Nat.le_refl _⟩
  | cons m moves ih =>
    rw [List.foldl_cons]
    by_cases hm : m = .turn i
    · subst hm
      rcases turn_cases s i with ⟨hnone, -⟩ | ⟨d, c', e', hd, hpart, heq⟩
      · cases hc.symm.trans hnone
      obtain rfl := Option.some.inj (hc.symm.trans hd)
      have hset : (Move.effect s (.turn i)).callers[i]? = some c' := by
        obtain ⟨hi, -⟩ := List.getElem?_eq_some_iff.mp hc
        rw [heq]
        exact List.getElem?_set_self hi
      obtain ⟨c'', hc'', hrule, hrank⟩ := ih hset
      have hpartRank := hpart.rank_le
      refine ⟨c'', hc'', hrule.trans hpart.rule_eq, ?_⟩
      rw [List.count_cons_self]
      omega
    · -- Any other move leaves the caller as it is.
      have hsame : (m.effect s).callers[i]? = some c := by
        cases m with
        | arrive rule =>
          obtain ⟨hi, -⟩ := List.getElem?_eq_some_iff.mp hc
          exact (List.getElem?_append_left hi).trans hc
        | turn j =>
          have hij : j ≠ i := fun h => hm (by rw [h])
          rcases turn_cases s j with ⟨-, heq⟩ | ⟨d, c', e', -, -, heq⟩
          · rwa [heq]
          · rw [heq]
            exact (List.getElem?_set_ne hij).trans hc
        | clear => exact hc
      obtain ⟨c', hc', hrule, hrank⟩ := ih hsame
      exact ⟨c', hc', hrule, by rwa [List.count_cons_of_ne hm]⟩

/-- A caller is served when it has had three turns, whatever happens between them. -/
theorem served_of_turns (refusal : Option Text → Option CompileError) (before : List Move)
    (rule : Option Text) (since : List Move)
    (h : 3 ≤ since.count (.turn (after refusal before).callers.length)) :
    ∃ answer, (after refusal (before ++ .arrive rule :: since)).callers[
      (after refusal before).callers.length]? = some ⟨rule, .served answer⟩ := by
  have harrived : (Move.effect (after refusal before) (.arrive rule)).callers[
      (after refusal before).callers.length]? = some ⟨rule, .asking⟩ := List.getElem?_concat_length
  obtain ⟨c, hc, hrule, hrank⟩ := rank_foldl since harrived
  have hzero : c.rank = 0 := by
    have hfirst : (⟨rule, .asking⟩ : Caller).rank = 3 := rfl
    omega
  have hafter : after refusal (before ++ .arrive rule :: since) =
      since.foldl Move.effect (Move.effect (after refusal before) (.arrive rule)) := by
    unfold after
    rw [List.foldl_append, List.foldl_cons]
  obtain ⟨rule', progress⟩ := c
  obtain rfl : rule' = rule := hrule
  rw [hafter, hc]
  cases progress with
  | served answer => exact ⟨answer, rfl⟩
  | _ => cases hzero

end Shared

/-! ### Any moves -/

/-- What is kept under a key is found, if no key is there twice. -/
theorem find?_of_mem {e : Engine} (h : e.keys.Nodup) {rule : Option Text} {m : Made}
    (hm : (rule, m) ∈ e.kept) : e.find? rule = some m := by
  obtain ⟨front, rest, hkept⟩ := List.append_of_mem hm
  unfold keys at h
  rw [hkept, List.map_append, List.map_cons] at h
  have hfront : rule ∉ front.map Prod.fst := fun hin =>
    (List.nodup_append.mp h).2.2 rule hin rule List.mem_cons_self rfl
  refine List.lookup_eq_some_iff.mpr ⟨front, rest, hkept, fun entry hentry => ?_⟩
  rw [bne_iff_ne]
  rintro rfl
  exact hfront (List.mem_map_of_mem hentry)

/-- What holds of an engine that callers share, after any moves of theirs and any clearings. What is kept
for a rule is its predicate; who was served was given what the rule compiles to, the predicate or the
fault; unless somebody has cleared the engine, all who were given a predicate of one rule were given the
one that is kept; predicates that were made one by one have different numbers, so that this is not said of
equal ones only; and whoever has had three turns was served, just as by a request if it was alone. -/
theorem shared_interleaved (refusal : Option Text → Option CompileError) (moves : List Move) :
    let s := Shared.after refusal moves
    (∀ rule m, (rule, m) ∈ s.engine.kept → m.predicate = Predicate.ofRule rule) ∧
    (∀ c ∈ s.callers, ∀ answer, c.progress = .served answer →
      answer.map Made.predicate = compiled refusal c.rule) ∧
    (.clear ∉ moves → ∀ c ∈ s.callers, ∀ m, c.progress = .served (.ok m) →
      s.engine.find? c.rule = some m) ∧
    s.serials.Nodup ∧
    (∀ before rule since, moves = before ++ .arrive rule :: since →
      3 ≤ since.count (.turn (Shared.after refusal before).callers.length) →
      ∃ answer, s.callers[(Shared.after refusal before).callers.length]? =
        some ⟨rule, .served answer⟩) ∧
    ∀ (e : Engine) (rule : Option Text),
      [Move.turn 0, .turn 0, .turn 0].foldl Move.effect ⟨e, [⟨rule, .asking⟩]⟩ =
        ⟨((predicateFor rule).run e).state,
          [⟨rule, .served ((predicateFor rule).run e).result⟩]⟩ := by
  obtain ⟨hsound, -, hkeys, hcallers⟩ := Shared.valid_after refusal moves
  refine ⟨fun rule m hm => ?_, fun c hc answer hserved => ?_, fun hclear => ?_, ?_, ?_,
    Shared.turns_alone⟩
  · exact (hsound rule m (find?_of_mem hkeys hm)).1
  · have hright := hcallers c hc
    unfold Caller.Right at hright
    rwa [hserved] at hright
  · exact Shared.agreed_after refusal hclear
  · exact (Shared.numbered_after refusal moves).nodup
  · rintro before rule since rfl hturns
    exact Shared.served_of_turns refusal before rule since hturns

/-- Two callers that have both compiled the rule before one of them keeps it: both are given the predicate
that was made second and kept first. -/
theorem shared_interleaved_sea :
    let moves : List Move := [.arrive (some "sea"), .arrive (some "sea"), .turn 0, .turn 1, .turn 0,
      .turn 1, .turn 1, .turn 0]
    let s := Shared.after (fun _ => none) moves
    s.callers = [⟨some "sea", .served (.ok ⟨Predicate.ofRule (some "sea"), 1⟩)⟩,
      ⟨some "sea", .served (.ok ⟨Predicate.ofRule (some "sea"), 1⟩)⟩] ∧
    s.engine.find? (some "sea") = some ⟨Predicate.ofRule (some "sea"), 1⟩ := by
  intro moves s
  have hcallers : s.callers = [⟨some "sea", .served (.ok ⟨Predicate.ofRule (some "sea"), 1⟩)⟩,
      ⟨some "sea", .served (.ok ⟨Predicate.ofRule (some "sea"), 1⟩)⟩] := rfl
  refine ⟨hcallers, ?_⟩
  exact (shared_interleaved (fun _ => none) moves).2.2.1 (by decide) _
    (hcallers ▸ List.mem_cons_self) _ rfl

end TitleClasses.Engine
