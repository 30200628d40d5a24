import TitleClasses.Proofs.Rule.Engine
import TitleClasses.Proofs.Rule.Split
import TitleClasses.Proofs.Rule.Term

/-!
# What a rule matches

`ruleMatches_iff_segments` says when a rule matches a text, reading all segments of the rule as it
stands: the blank alternative at the end that is dropped, the blank rule without clauses and the terms
without a pattern never change the answer. `matchRule_iff_segment` says the same of an engine, whatever
it was asked before.
-/

namespace TitleClasses

namespace Rule

/-- What is split off a text has no characters but those of the text. -/
theorem mem_of_mem_splitOn {sign c : CodePoint} {t part : Text} (hp : part ∈ t.splitOn sign)
    (hc : c ∈ part) : c ∈ t := by
  -- The text is its parts with the sign between them.
  have hjoined : [sign].intercalate (t.splitOn sign) = t := List.intercalate_splitOn sign
  have hpart : part ∈ (t.splitOn sign).intersperse [sign] := by
    obtain ⟨i, hi⟩ := List.mem_iff_getElem?.mp hp
    exact List.mem_of_getElem? (List.getElem?_intersperse_two_mul.trans hi)
  rw [← hjoined]
  exact List.mem_flatten.mpr ⟨part, hpart, hc⟩

/-- The parts of the segments have no characters but those of the rule. -/
theorem mem_of_mem_segments {rule : Text} {parts : List Text} (hs : parts ∈ segments rule)
    {part : Text} (hp : part ∈ parts) {c : CodePoint} (hc : c ∈ part) : c ∈ rule := by
  obtain ⟨segment, hseg, rfl⟩ := List.mem_map.mp hs
  exact mem_of_mem_splitOn hseg (mem_of_mem_splitOn hp hc)

/-- A segment has at least one part. -/
theorem ne_nil_of_mem_segments {rule : Text} {parts : List Text} (hs : parts ∈ segments rule) :
    parts ≠ [] := by
  obtain ⟨segment, -, rfl⟩ := List.mem_map.mp hs
  exact List.splitOn_ne_nil andSign segment

/-- The only alternative that may be dropped is blank. -/
theorem mem_dropBlankLast {alternatives : List (List Text)} {parts : List Text}
    (hm : parts ∈ alternatives) (hb : isBlank parts = false) : parts ∈ dropBlankLast alternatives := by
  unfold dropBlankLast
  split_ifs with h
  · -- The alternative is not the last one, which is blank.
    have hne : alternatives ≠ [] := List.ne_nil_of_mem hm
    rw [← List.dropLast_concat_getLast hne, List.mem_append, List.mem_singleton] at hm
    rcases hm with hm | rfl
    · exact hm
    · rw [List.getLast?_eq_some_getLast hne] at h
      simp [hb] at h
  · exact hm

/-- No alternative is there but those there were. -/
theorem mem_of_mem_dropBlankLast {alternatives : List (List Text)} {parts : List Text}
    (hm : parts ∈ dropBlankLast alternatives) : parts ∈ alternatives := by
  unfold dropBlankLast at hm
  split_ifs at hm
  · exact List.dropLast_subset _ hm
  · exact hm

end Rule

/-- A part without characters of its own is found nowhere. -/
theorem Term.foundIn_ofPart_of_isBlank {part : Text} (hb : part.isBlank = true) (s : Text) :
    (Term.ofPart part).foundIn s = false := by
  rw [Bool.eq_false_iff]
  intro hf
  obtain ⟨c, hc, -, hn⟩ :=
    (Term.satisfiable_ofPart_iff part).mp (Term.satisfiable_of_foundIn hf)
  have hall : ∀ x ∈ part, x.isBlank = true := by simpa [Text.isBlank] using hb
  rw [hall c hc] at hn
  cases hn

/-- A clause holds of a text exactly when it has terms and all of them are found. -/
theorem Clause.holdsOf_iff (c : Clause) (s : Text) :
    c.holdsOf s = true ↔ c.terms ≠ [] ∧ ∀ t ∈ c.terms, t.foundIn s = true := by
  unfold holdsOf satisfiable
  rw [Bool.and_eq_true, Bool.and_eq_true, List.all_eq_true, List.all_eq_true]
  constructor
  · rintro ⟨⟨hne, -⟩, hall⟩
    exact ⟨by simpa using hne, hall⟩
  · rintro ⟨hne, hall⟩
    exact ⟨⟨by simpa using hne, fun t ht => Term.satisfiable_of_foundIn (hall t ht)⟩, hall⟩

/-- An alternative whose parts are all found is not blank: a blank one is one part of white space, which
is not found. -/
theorem Rule.isBlank_eq_false_of_found {parts : List Text} {s : Text} (hne : parts ≠ [])
    (hf : ∀ part ∈ parts, (Term.ofPart part).foundIn s = true) : Rule.isBlank parts = false := by
  rw [Bool.eq_false_iff]
  intro hb
  obtain ⟨part, hp⟩ := List.exists_mem_of_ne_nil parts hne
  have hstrip : part.strip ∈ parts.map Text.strip := List.mem_map_of_mem hp
  rw [of_decide_eq_true hb, List.mem_singleton, Text.strip_eq_nil_iff] at hstrip
  have hfound := hf part hp
  rw [Term.foundIn_ofPart_of_isBlank hstrip] at hfound
  cases hfound

/-- No segment of a blank rule has parts that are all found, since every part of it is blank. -/
theorem Rule.not_found_of_isBlank {rule s : Text} (hb : rule.isBlank = true) {parts : List Text}
    (hs : parts ∈ Rule.segments rule) : ¬ ∀ part ∈ parts, (Term.ofPart part).foundIn s = true := by
  intro hf
  obtain ⟨part, hp⟩ := List.exists_mem_of_ne_nil parts (Rule.ne_nil_of_mem_segments hs)
  have hall : ∀ x ∈ rule, x.isBlank = true := by simpa [Text.isBlank] using hb
  have hblank : part.isBlank = true := by
    rw [Text.isBlank, List.all_eq_true]
    exact fun x hx => hall x (Rule.mem_of_mem_segments hs hp hx)
  have hfound := hf part hp
  rw [Term.foundIn_ofPart_of_isBlank hblank] at hfound
  cases hfound

/-- A clause of a rule holds of a text exactly when all parts of some segment of the rule are found in
it. -/
theorem Predicate.exists_clause_iff (rule : Option Text) (s : Text) :
    (∃ c ∈ (Predicate.ofRule rule).clauses, c.holdsOf s = true) ↔
      ∃ parts ∈ Rule.segments (rule.getD []),
        ∀ part ∈ parts, (Term.ofPart part).foundIn s = true := by
  unfold Predicate.ofRule
  simp only
  split_ifs with hb
  · -- A blank rule has no clauses.
    constructor
    · rintro ⟨c, hc, -⟩
      cases hc
    · rintro ⟨parts, hs, hf⟩
      exact absurd hf (Rule.not_found_of_isBlank hb hs)
  · rw [Rule.split_eq_segments]
    constructor
    · rintro ⟨c, hc, hh⟩
      obtain ⟨parts, hm, rfl⟩ := List.mem_map.mp hc
      refine ⟨parts, Rule.mem_of_mem_dropBlankLast hm, fun part hp => ?_⟩
      exact ((Clause.holdsOf_iff _ s).mp hh).2 _ (List.mem_map_of_mem hp)
    · rintro ⟨parts, hs, hf⟩
      have hne := Rule.ne_nil_of_mem_segments hs
      -- The segment is not dropped, since it is not blank.
      have hin := Rule.mem_dropBlankLast hs (Rule.isBlank_eq_false_of_found hne hf)
      refine ⟨_, List.mem_map_of_mem hin, ?_⟩
      rw [Clause.holdsOf_iff]
      refine ⟨by simpa using hne, fun t ht => ?_⟩
      obtain ⟨part, hp, rfl⟩ := List.mem_map.mp ht
      exact hf part hp

/-- A rule matches a text exactly when the text is not empty and all parts of some segment of the rule
are found in it. -/
theorem ruleMatches_iff_segments (rule text : Option Text) :
    ruleMatches rule text = true ↔ ∃ s, text = some s ∧ s ≠ [] ∧
      ∃ parts ∈ Rule.segments (rule.getD []), ∀ part ∈ parts, (Term.ofPart part).foundIn s = true := by
  cases text with
  | none => simp [ruleMatches, Predicate.holdsOf]
  | some s =>
    unfold ruleMatches Predicate.holdsOf
    rw [Bool.and_eq_true, List.any_eq_true, Predicate.exists_clause_iff]
    simp

/-- Whatever an engine was asked before, it says of every rule and text what the rule says, which is
that the text is not empty and that all parts of some segment of the rule have characters of their own
and are found in the text. -/
theorem matchRule_iff_segment (calls : List Engine.Call) (rule text : Option Text) :
    ((Engine.matchRule rule text).run (Engine.after (fun _ => none) calls)).result =
        .ok (ruleMatches rule text) ∧
      (ruleMatches rule text = true ↔ ∃ s, text = some s ∧ s ≠ [] ∧
        ∃ segment ∈ (rule.getD []).splitOn Rule.orSign, ∀ part ∈ segment.splitOn Rule.andSign,
          (∃ c ∈ part, c ≠ Pattern.wildcardSign ∧ c.isBlank = false) ∧
            (Term.ofPart part).foundIn s = true) := by
  constructor
  · obtain ⟨hsound, hrefusal⟩ := Engine.after_sound (fun _ => none) calls
    have hrun := (Engine.matchRule_run hsound rule text).1
    rw [hrun, hrefusal]
    rfl
  · rw [ruleMatches_iff_segments]
    -- What is found has a character of its own.
    have hpart (part s : Text) : (Term.ofPart part).foundIn s = true ↔
        (∃ c ∈ part, c ≠ Pattern.wildcardSign ∧ c.isBlank = false) ∧
          (Term.ofPart part).foundIn s = true := by
      rw [← Term.satisfiable_ofPart_iff]
      exact ⟨fun h => ⟨Term.satisfiable_of_foundIn h, h⟩, And.right⟩
    constructor
    · rintro ⟨s, hs, hne, parts, hm, hf⟩
      obtain ⟨segment, hseg, rfl⟩ := List.mem_map.mp hm
      exact ⟨s, hs, hne, segment, hseg, fun part hp => (hpart part s).mp (hf part hp)⟩
    · rintro ⟨s, hs, hne, segment, hseg, hf⟩
      refine ⟨s, hs, hne, _, List.mem_map_of_mem hseg, fun part hp => (hf part hp).2⟩

end TitleClasses
