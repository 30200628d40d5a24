import TitleClasses.Proofs.Rule.Matching
import TitleClasses.Proofs.Rule.Occurrence

/-!
# What can be found is found somewhere

A pattern is found in its own sample, which has nothing for a wildcard, one space for a run of blanks and
the character itself for a literal one; and it is still found there when other text stands before and
behind it, as long as that text is set off by something that is no word character
(`foundIn_sample`). The sample of a clause is the samples of its terms with a space behind each, so that
one text serves all of them at once: `Clause.holdsOf_sample`. So the flags of terms and clauses say
exactly what can be found and what can hold, and a warning tells of a term that is never found:
`satisfiable_exact`.
-/

namespace TitleClasses

/-! ### Samples -/

/-- The shortest text that fits a piece. -/
def Piece.sample : Piece → Text
  | .literal c => [c]
  | .blanks => [(' ' : CodePoint)]
  | .wildcard => []

theorem Piece.fits_sample (p : Piece) : p.Fits p.sample := by
  cases p with
  | literal c => exact ⟨c, rfl, beq_self_eq_true _⟩
  | blanks => exact ⟨List.cons_ne_nil _ _, by simpa [Piece.sample] using CodePoint.isBlank_space⟩
  | wildcard => simp [Piece.Fits, Piece.sample]

namespace Pattern

/-- A text in which the pattern is found. -/
def sample (ps : Pattern) : Text := (ps.map Piece.sample).flatten

/-- A pattern is found where its sample stands between texts that do not touch it with a word
character. -/
theorem foundIn_sample (ps : Pattern) {front rest : Text}
    (hfront : ∀ c, front.getLast? = some c → c.isWord = false)
    (hrest : ∀ c, rest.head? = some c → c.isWord = false) :
    foundIn ps (front ++ sample ps ++ rest) = true := by
  have hfits : List.Forall₂ Piece.Fits ps (ps.map Piece.sample) := by
    rw [List.forall₂_map_right_iff]
    exact List.forall₂_same.mpr fun p _ => p.fits_sample
  exact (foundIn_iff ps _).mpr ⟨front, _, rest, rfl, hfits, hfront, hrest⟩

/-- A pattern with a literal character is not found in the empty text. -/
theorem foundIn_nil {ps : Pattern} (h : ps.hasLiteral = true) : foundIn ps [] = false := by
  obtain ⟨p, hp, hl⟩ := List.any_eq_true.mp h
  have hasks : asksNothing ps = false := by
    refine List.all_eq_false.mpr ⟨p, hp, ?_⟩
    rintro hw
    rw [of_decide_eq_true hw] at hl
    cases hl
  simp [foundIn, foundFrom, leftAt, hasks]

end Pattern

namespace Term

theorem hasLiteral_of_pattern {t : Term} {ps : Pattern} (h : t.pattern = some ps) :
    ps.hasLiteral = true := by
  unfold pattern at h
  dsimp only at h
  split_ifs at h with hl
  exact Option.some.inj h ▸ hl

/-- Nothing is found in the empty text. -/
theorem foundIn_nil (t : Term) : t.foundIn [] = false := by
  unfold foundIn
  cases hp : t.pattern with
  | none => rfl
  | some ps => exact Pattern.foundIn_nil (hasLiteral_of_pattern hp)

/-- A text in which the term is found if it has a pattern. -/
def sample (t : Term) : Text := (t.pattern.map Pattern.sample).getD []

/-- A term that has a pattern is found where its sample stands between texts that do not touch it with a
word character. -/
theorem foundIn_sample {t : Term} (h : t.satisfiable = true) {front rest : Text}
    (hfront : ∀ c, front.getLast? = some c → c.isWord = false)
    (hrest : ∀ c, rest.head? = some c → c.isWord = false) :
    t.foundIn (front ++ t.sample ++ rest) = true := by
  obtain ⟨ps, hps⟩ := Option.isSome_iff_exists.mp h
  unfold foundIn sample
  rw [hps]
  exact Pattern.foundIn_sample ps hfront hrest

/-- A term has a pattern exactly if it is found in some text. -/
theorem satisfiable_iff (t : Term) : t.satisfiable = true ↔ ∃ s, t.foundIn s = true := by
  constructor
  · intro h
    exact ⟨[] ++ t.sample ++ [], foundIn_sample h (by simp) (by simp)⟩
  · rintro ⟨s, hs⟩
    exact satisfiable_of_foundIn hs

end Term

namespace Clause

/-- The samples of terms, with a space behind each. -/
def samples (terms : List Term) : Text := terms.flatMap fun t => t.sample ++ [(' ' : CodePoint)]

/-- A text of which the clause holds if all its terms have patterns. -/
def sample (c : Clause) : Text := samples c.terms

/-- What ends in samples does not end in a word character. -/
theorem getLast?_samples {terms : List Term} {c : CodePoint}
    (h : (samples terms).getLast? = some c) : c.isWord = false := by
  rcases List.eq_nil_or_concat terms with rfl | ⟨front, t, rfl⟩
  · cases h
  · have hend : samples (front.concat t) = samples front ++ t.sample ++ [(' ' : CodePoint)] := by
      simp [samples, List.concat_eq_append]
    rw [hend, List.getLast?_concat] at h
    obtain rfl := Option.some.inj h
    decide

/-- Every term of a clause that is satisfiable is found in the sample of the clause. -/
theorem holdsOf_sample {c : Clause} (h : c.satisfiable = true) : c.holdsOf c.sample = true := by
  obtain ⟨hne, hall⟩ := Bool.and_eq_true_iff.mp h
  refine (holdsOf_iff c _).mpr ⟨by simpa using hne, fun t ht => ?_⟩
  obtain ⟨front, rest, heq⟩ := List.append_of_mem ht
  -- Samples end in a space, and a space follows the sample of the term.
  have hsample : c.sample =
      samples front ++ t.sample ++ ([(' ' : CodePoint)] ++ samples rest) := by
    unfold sample
    rw [heq]
    simp [samples]
  rw [hsample]
  refine Term.foundIn_sample (List.all_eq_true.mp hall t ht) (fun c => getLast?_samples) ?_
  intro d hd
  obtain rfl := Option.some.inj hd
  decide

/-- Wildcards, blanks and punctuation at the ends of terms: one text serves three terms. -/
example : (Clause.mk [Term.ofPart "*sea", Term.ofPart "ice  * floe*", Term.ofPart "(!"]).sample =
    "sea ice  floe (! " := by decide

/-- A clause has terms and all of them have patterns exactly if it holds of some text. -/
theorem satisfiable_iff (c : Clause) : c.satisfiable = true ↔ ∃ s, c.holdsOf s = true :=
  ⟨fun h => ⟨_, holdsOf_sample h⟩, fun ⟨_, h⟩ => (Bool.and_eq_true_iff.mp h).1⟩

/-- A clause holds of no text that is empty. -/
theorem ne_nil_of_holdsOf {c : Clause} {s : Text} (h : c.holdsOf s = true) : s ≠ [] := by
  rintro rfl
  obtain ⟨hne, hall⟩ := (holdsOf_iff c []).mp h
  obtain ⟨t, ht⟩ := List.exists_mem_of_ne_nil _ hne
  have hfound := hall t ht
  rw [Term.foundIn_nil] at hfound
  cases hfound

end Clause

/-! ### Rules -/

/-- A rule matches a text exactly if one of its clauses holds of it. -/
theorem ruleMatches_iff_exists_clause (rule : Option Text) (s : Text) :
    ruleMatches rule (some s) = true ↔
      ∃ c ∈ (Predicate.ofRule rule).clauses, c.holdsOf s = true := by
  simp only [ruleMatches, Predicate.holdsOf, Bool.and_eq_true, List.any_eq_true]
  constructor
  · rintro ⟨-, c, hc, hs⟩
    exact ⟨c, hc, hs⟩
  · rintro ⟨c, hc, hs⟩
    exact ⟨by simpa using Clause.ne_nil_of_holdsOf hs, c, hc, hs⟩

/-- A rule matches some text exactly if one of its clauses is satisfiable. -/
theorem exists_ruleMatches_iff (rule : Option Text) :
    (∃ s, ruleMatches rule (some s) = true) ↔
      ∃ c ∈ (Predicate.ofRule rule).clauses, c.satisfiable = true := by
  simp only [ruleMatches_iff_exists_clause, Clause.satisfiable_iff]
  constructor
  · rintro ⟨s, c, hc, hs⟩
    exact ⟨c, hc, s, hs⟩
  · rintro ⟨c, hc, s, hs⟩
    exact ⟨s, c, hc, hs⟩

/-- The warning of a term that is never found. -/
def emptyTermWarning (rule : Text) : LogRecord :=
  ⟨.warning, .compiler, Text.concat
    ["Rule '", rule, "' contains an empty term; its clause will never match"]⟩

/-- A predicate warns exactly if one of its terms has no pattern. -/
theorem Predicate.mem_warnings_iff (p : Predicate) :
    emptyTermWarning p.rule ∈ p.warnings ↔
      ∃ c ∈ p.clauses, ∃ t ∈ c.terms, t.satisfiable = false := by
  unfold Predicate.warnings
  rw [List.mem_filterMap]
  constructor
  · rintro ⟨t, ht, hwarn⟩
    obtain ⟨c, hc, htc⟩ := List.mem_flatMap.mp ht
    split_ifs at hwarn with hsat
    exact ⟨c, hc, t, htc, by simpa using hsat⟩
  · rintro ⟨c, hc, t, ht, hsat⟩
    exact ⟨t, List.mem_flatMap.mpr ⟨c, hc, ht⟩, by rw [hsat]; rfl⟩

/-- A rule that compiles has the warnings of its predicate logged. -/
theorem Engine.log_compile {e : Engine} {rule : Option Text} (h : e.refusal rule = none) :
    ((Engine.compile rule).run e).log = (Predicate.ofRule rule).warnings := by
  unfold Engine.compile
  rw [Action.run_state_bind, h]
  exact List.append_nil _

/-- The flags are exact. A term has a pattern exactly if it is found in some text, and a clause is
satisfiable exactly if it holds of some text; so a rule matches some text exactly if one of its clauses is
satisfiable. And when an engine compiles a rule, whatever it was asked before, it warns of an empty term
exactly if one of the terms is found in no text at all. -/
theorem satisfiable_exact :
    (∀ t : Term, t.satisfiable = true ↔ ∃ s, t.foundIn s = true) ∧
    (∀ c : Clause, c.satisfiable = true ↔ ∃ s, c.holdsOf s = true) ∧
    (∀ rule : Option Text, (∃ s, ruleMatches rule (some s) = true) ↔
      ∃ c ∈ (Predicate.ofRule rule).clauses, c.satisfiable = true) ∧
    ∀ (calls : List Engine.Call) (rule : Option Text),
      emptyTermWarning (rule.getD []) ∈
          ((Engine.compile rule).run (Engine.after (fun _ => none) calls)).log ↔
        ∃ c ∈ (Predicate.ofRule rule).clauses, ∃ t ∈ c.terms, ∀ s, t.foundIn s = false := by
  refine ⟨Term.satisfiable_iff, Clause.satisfiable_iff, exists_ruleMatches_iff, fun calls rule => ?_⟩
  have hnever (t : Term) : t.satisfiable = false ↔ ∀ s, t.foundIn s = false := by
    rw [← Bool.not_eq_true, Term.satisfiable_iff, not_exists]
    simp only [Bool.not_eq_true]
  have hrule : (Predicate.ofRule rule).rule = rule.getD [] := by
    unfold Predicate.ofRule
    dsimp only
    split_ifs <;> rfl
  have haccepted : (Engine.after (fun _ => none) calls).refusal rule = none := by
    rw [(Engine.after_sound (fun _ => none) calls).2]
  rw [Engine.log_compile haccepted, ← hrule, Predicate.mem_warnings_iff]
  simp only [hnever]

end TitleClasses
