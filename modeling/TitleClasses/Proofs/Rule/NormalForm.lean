import TitleClasses.Proofs.Rule.Composition

/-!
# The normal form of a rule

A predicate is written as a rule again: the texts of the terms of a clause with plus signs between them,
and a semicolon behind each clause. The texts of terms have no signs and are stripped and collapsed
already (`Term.normal_ofPart`), so that what is written splits into the same alternatives
(`Rule.segments_written`) and their parts are the same terms (`Term.ofPart_text`). The semicolon at the
very end makes one blank alternative, which is the one that is dropped. So the rule that is written has
the clauses it was written from: `Predicate.written_normal`.
-/

namespace TitleClasses

open Rule

/-! ### Terms -/

namespace Term

/-- Whether a term has the text of a part that is normal: it has no signs, no white space at its ends,
and single spaces inside. -/
structure Normal (t : Term) : Prop where
  orSign : Rule.orSign ∉ t.text
  andSign : Rule.andSign ∉ t.text
  stripped : t.text.strip = t.text
  spaced : t.text.Spaced

/-- The term of a normal text has that text. -/
theorem Normal.ofPart_text {t : Term} (h : t.Normal) : ofPart t.text = t := by
  have htext : (ofPart t.text).text = t.text := by
    rw [text_ofPart, h.stripped, Text.collapse_of_spaced h.spaced]
  cases t
  exact congrArg Term.mk htext

/-- The term of a part without signs is normal. -/
theorem normal_ofPart {part : Text} (ho : Rule.orSign ∉ part) (ha : Rule.andSign ∉ part) :
    (ofPart part).Normal where
  orSign := by
    rwa [text_ofPart, Text.mem_collapse_iff (by decide), Text.mem_strip_iff (by decide)]
  andSign := by
    rwa [text_ofPart, Text.mem_collapse_iff (by decide), Text.mem_strip_iff (by decide)]
  stripped := by rw [text_ofPart, Text.strip_collapse, Text.strip_strip]
  spaced := text_ofPart_spaced part

end Term

/-! ### Alternatives -/

namespace Rule

/-- What is split off at a sign does not have it. -/
theorem not_mem_of_mem_splitOn {sign : CodePoint} {t part : Text} (h : part ∈ t.splitOn sign) :
    sign ∉ part := by
  induction t generalizing part with
  | nil =>
    obtain rfl : part = [] := by simpa using h
    exact List.not_mem_nil
  | cons c r ih =>
    rw [List.splitOn_cons_eq_if_modifyHead] at h
    split_ifs at h with hc
    · rcases List.mem_cons.mp h with rfl | h
      · exact List.not_mem_nil
      · exact ih h
    · -- The character goes in front of the first part of the rest.
      obtain ⟨q, qs, hq⟩ := List.exists_cons_of_ne_nil (List.splitOn_ne_nil sign r)
      rw [hq] at h ih
      rw [List.modifyHead_cons] at h
      rcases List.mem_cons.mp h with rfl | h
      · rw [List.mem_cons, not_or]
        exact ⟨fun heq => hc (by simp [heq]), ih List.mem_cons_self⟩
      · exact ih (List.mem_cons_of_mem q h)

/-- The parts of a segment have no signs. -/
theorem not_mem_of_mem_segments {rule : Text} {parts : List Text} (hparts : parts ∈ segments rule)
    {part : Text} (hpart : part ∈ parts) : orSign ∉ part ∧ andSign ∉ part := by
  obtain ⟨segment, hsegment, rfl⟩ := List.mem_map.mp hparts
  exact ⟨fun h => not_mem_of_mem_splitOn hsegment (mem_of_mem_splitOn hpart h),
    not_mem_of_mem_splitOn hpart⟩

/-- An alternative has parts, and they have no signs. -/
theorem free_of_mem_split {rule : Text} {parts : List Text} (h : parts ∈ split rule) :
    parts ≠ [] ∧ ∀ part ∈ parts, orSign ∉ part ∧ andSign ∉ part := by
  rw [split_eq_segments] at h
  have hsegment := mem_of_mem_dropBlankLast h
  exact ⟨ne_nil_of_mem_segments hsegment, fun part => not_mem_of_mem_segments hsegment⟩

/-- An alternative as it is written in a rule, with a semicolon behind it. -/
def written (parts : List Text) : Text := Text.join [andSign] parts ++ [orSign]

/-- The parts of an alternative without signs are its parts when it is read. -/
theorem segments_join {parts : List Text} (hne : parts ≠ [])
    (hfree : ∀ part ∈ parts, orSign ∉ part ∧ andSign ∉ part) :
    segments (Text.join [andSign] parts) = [parts] := by
  have hjoin : orSign ∉ Text.join [andSign] parts := by
    intro h
    rcases Text.mem_of_mem_join h with hsign | ⟨part, hpart, hmem⟩
    · exact absurd (List.mem_singleton.mp hsign) (by decide)
    · exact (hfree part hpart).1 hmem
  rw [segments_of_not_mem hjoin]
  exact congrArg (fun segment => [segment])
    (List.splitOn_intercalate andSign (fun part hpart => (hfree part hpart).2) hne)

/-- Alternatives that are written one after another are read again, with a blank one behind them. -/
theorem segments_written (alternatives : List (List Text)) (hne : ∀ parts ∈ alternatives, parts ≠ [])
    (hfree : ∀ parts ∈ alternatives, ∀ part ∈ parts, orSign ∉ part ∧ andSign ∉ part) :
    segments (alternatives.flatMap written) = alternatives ++ [[[]]] := by
  induction alternatives with
  | nil => rfl
  | cons parts alternatives ih =>
    obtain ⟨hparts, hothers⟩ := List.forall_mem_cons.mp hne
    obtain ⟨hfirst, hrest⟩ := List.forall_mem_cons.mp hfree
    calc segments ((parts :: alternatives).flatMap written)
        = segments (Text.join [andSign] parts ++ orSign :: alternatives.flatMap written) := by
          rw [List.flatMap_cons, written, List.append_assoc]
          rfl
      _ = [parts] ++ (alternatives ++ [[[]]]) := by
          rw [segments_append_orSign, segments_join hparts hfirst, ih hothers hrest]

end Rule

/-! ### Predicates -/

namespace Predicate

/-- A predicate written as a rule: each clause as its terms with plus signs between them, and a semicolon
behind it. -/
def written (p : Predicate) : Text :=
  p.clauses.flatMap fun c => Rule.written (c.terms.map Term.text)

/-- Whether every clause of a predicate has terms, and all of them are normal. -/
def Normal (p : Predicate) : Prop := ∀ c ∈ p.clauses, c.terms ≠ [] ∧ ∀ t ∈ c.terms, t.Normal

/-- Whatever a rule is, its predicate is normal. -/
theorem normal_ofRule (rule : Option Text) : (ofRule rule).Normal := by
  intro c hc
  unfold ofRule at hc
  dsimp only at hc
  split_ifs at hc with hb
  · cases hc
  obtain ⟨parts, hparts, rfl⟩ := List.mem_map.mp hc
  obtain ⟨hne, hfree⟩ := free_of_mem_split hparts
  refine ⟨by simpa using hne, fun t ht => ?_⟩
  obtain ⟨part, hpart, rfl⟩ := List.mem_map.mp ht
  obtain ⟨ho, ha⟩ := hfree part hpart
  exact Term.normal_ofPart ho ha

/-- A rule that is not blank has clauses. -/
theorem clauses_ne_nil {rule : Text} (h : rule.isBlank = false) :
    (ofRule (some rule)).clauses ≠ [] := by
  rw [clauses_ofRule h, ne_eq, List.map_eq_nil_iff]
  exact split_ne_nil rule

/-- What is written of a predicate with clauses is not blank. -/
theorem isBlank_written {p : Predicate} (hne : p.clauses ≠ []) : p.written.isBlank = false := by
  obtain ⟨c, cs, hcs⟩ := List.exists_cons_of_ne_nil hne
  have hmem : orSign ∈ p.written := by simp [Predicate.written, hcs, Rule.written]
  exact Text.isBlank_eq_false_of_mem hmem (by decide)

/-- The alternatives of what is written of a normal predicate are the texts of its terms. -/
theorem Normal.split_written {p : Predicate} (h : p.Normal) (hne : p.clauses ≠ []) :
    split p.written = p.clauses.map fun c => c.terms.map Term.text := by
  have hwritten : p.written =
      (p.clauses.map fun c => c.terms.map Term.text).flatMap Rule.written := by
    rw [List.flatMap_map]
    rfl
  rw [split_eq_segments, hwritten, segments_written]
  · exact dropBlankLast_concat (by simpa using hne) (by decide)
  · intro parts hparts
    obtain ⟨c, hc, rfl⟩ := List.mem_map.mp hparts
    simpa using (h c hc).1
  · intro parts hparts part hpart
    obtain ⟨c, hc, rfl⟩ := List.mem_map.mp hparts
    obtain ⟨t, ht, rfl⟩ := List.mem_map.mp hpart
    exact ⟨((h c hc).2 t ht).orSign, ((h c hc).2 t ht).andSign⟩

/-- What is written of a normal predicate with clauses has those clauses. -/
theorem Normal.clauses_written {p : Predicate} (h : p.Normal) (hne : p.clauses ≠ []) :
    (ofRule (some p.written)).clauses = p.clauses := by
  have hterms (c : Clause) (hc : c ∈ p.clauses) :
      (c.terms.map Term.text).map Term.ofPart = c.terms := by
    rw [List.map_map]
    exact (List.map_congr_left fun t ht => ((h c hc).2 t ht).ofPart_text).trans (List.map_id _)
  calc (ofRule (some p.written)).clauses
      = (p.clauses.map fun c => c.terms.map Term.text).map fun parts => ⟨parts.map Term.ofPart⟩ := by
        rw [clauses_ofRule (isBlank_written hne), h.split_written hne]
    _ = p.clauses.map id := by
        rw [List.map_map]
        exact List.map_congr_left fun c hc => congrArg Clause.mk (hterms c hc)
    _ = p.clauses := List.map_id _

/-- What is written of a rule that is not blank has the clauses of that rule. -/
theorem clauses_written {rule : Text} (h : rule.isBlank = false) :
    (ofRule (some (ofRule (some rule)).written)).clauses = (ofRule (some rule)).clauses :=
  (normal_ofRule _).clauses_written (clauses_ne_nil h)

/-- Compilation is a normal form. What is written of the predicate of a rule that is not blank compiles to
an equivalent predicate; the texts of all terms have no signs, no white space at their ends and single
spaces inside; and two rules that are not blank are equivalent exactly when the same is written of both. -/
theorem written_normal :
    (∀ rule : Text, rule.isBlank = false →
      (ofRule (some (ofRule (some rule)).written)).equivalent (ofRule (some rule)) = true) ∧
    (∀ (rule : Option Text), ∀ c ∈ (ofRule rule).clauses, ∀ t ∈ c.terms,
      orSign ∉ t.text ∧ andSign ∉ t.text ∧ t.text.strip = t.text ∧ t.text.Spaced) ∧
    ∀ rule other : Text, rule.isBlank = false → other.isBlank = false →
      ((ofRule (some rule)).equivalent (ofRule (some other)) = true ↔
        (ofRule (some rule)).written = (ofRule (some other)).written) := by
  have hequivalent (p q : Predicate) : p.equivalent q = true ↔ p.clauses = q.clauses := by
    unfold equivalent
    rw [decide_eq_true_iff]
  refine ⟨fun rule h => (hequivalent _ _).mpr (clauses_written h), ?_, fun rule other h h' => ?_⟩
  · intro rule c hc t ht
    obtain ⟨ho, ha, hstrip, hspaced⟩ := (normal_ofRule rule c hc).2 t ht
    exact ⟨ho, ha, hstrip, hspaced⟩
  · rw [hequivalent]
    constructor
    · intro hclauses
      unfold written
      rw [hclauses]
    · -- Both have the clauses of what is written.
      intro hwritten
      rw [← clauses_written h, hwritten, clauses_written h']

/-- Odd white space, empty parts and several semicolons at the end: what is written of the rule is another
text, with the same clauses. A semicolon at the end or none makes no difference. -/
theorem written_normal_sea :
    (ofRule (some " sea\u00a0\tstorm +;;+ ; ")).written = "sea storm+;;+;" ∧
      (ofRule (some "sea storm+;;+;")).equivalent
        (ofRule (some " sea\u00a0\tstorm +;;+ ; ")) = true ∧
      (ofRule (some "sea")).equivalent (ofRule (some " sea;")) = true := by
  have hwritten : (ofRule (some " sea\u00a0\tstorm +;;+ ; ")).written = "sea storm+;;+;" := by decide
  refine ⟨hwritten, ?_, (written_normal.2.2 "sea" " sea;" (by decide) (by decide)).mpr (by decide)⟩
  rw [← hwritten]
  exact written_normal.1 _ (by decide)

end Predicate

end TitleClasses
