import Mathlib.Data.List.DropRight
import TitleClasses.Proofs.Rule.Matching

/-!
# Rules that are put together

The segments of two rules with a semicolon between them are those of the first and then those of the
second (`segments_append_orSign`). So such a rule matches where one of the two does, whatever they are.
Its clauses are those of the first and then those of the second as long as no blank alternative is
dropped from the end of the first or stands alone as the second: `clauses_append_orSign`. A plus sign
between two alternatives makes one of them, with the parts of both (`segments_append_andSign`).
`rules_compose` puts these laws together.
-/

namespace TitleClasses

namespace Rule

/-- What stands after the last semicolon of a rule, or all of a rule that has none. -/
def lastSegment (rule : Text) : Text := rule.rtakeWhile (· ≠ orSign)

/-! ### Segments -/

theorem segments_append_orSign (a b : Text) :
    segments (a ++ orSign :: b) = segments a ++ segments b := by
  unfold segments
  rw [List.splitOn_append_cons_self, List.map_append]

/-- A rule without a semicolon is one segment. -/
theorem segments_of_not_mem {rule : Text} (h : orSign ∉ rule) :
    segments rule = [rule.splitOn andSign] := by
  unfold segments
  rw [List.splitOn_eq_singleton h, List.map_singleton]

theorem segments_append_andSign {a b : Text} (ha : orSign ∉ a) (hb : orSign ∉ b) :
    segments (a ++ andSign :: b) = [a.splitOn andSign ++ b.splitOn andSign] := by
  have hne : orSign ≠ andSign := by decide
  have h : orSign ∉ a ++ andSign :: b := by simp [ha, hb, hne]
  rw [segments_of_not_mem h, List.splitOn_append_cons_self]

theorem orSign_not_mem_lastSegment (rule : Text) : orSign ∉ lastSegment rule :=
  fun h => by simpa using List.mem_rtakeWhile_imp h

/-- In front of the last segment of a rule with a semicolon stands the last one. -/
theorem exists_append_lastSegment {rule : Text} (h : orSign ∈ rule) :
    ∃ front, rule = front ++ orSign :: lastSegment rule := by
  have hsplit : rule.rdropWhile (· ≠ orSign) ++ lastSegment rule = rule :=
    List.rdropWhile_append_rtakeWhile
  -- The semicolon is not in the last segment.
  have hne : rule.rdropWhile (· ≠ orSign) ≠ [] := by
    intro hnil
    rw [hnil, List.nil_append] at hsplit
    exact orSign_not_mem_lastSegment rule (hsplit.symm ▸ h)
  have hend : (rule.rdropWhile (· ≠ orSign)).getLast hne = orSign := by
    simpa using List.rdropWhile_last_not (· ≠ orSign) rule hne
  have hfront := List.dropLast_concat_getLast hne
  rw [hend] at hfront
  refine ⟨(rule.rdropWhile (· ≠ orSign)).dropLast, ?_⟩
  rw [List.append_cons, hfront, hsplit]

/-- The last segment of a rule is what stands after its last semicolon. -/
theorem getLast?_segments (rule : Text) :
    (segments rule).getLast? = some ((lastSegment rule).splitOn andSign) := by
  by_cases h : orSign ∈ rule
  · obtain ⟨front, hfront⟩ := exists_append_lastSegment h
    have hsegments : segments rule = segments front ++ [(lastSegment rule).splitOn andSign] := by
      calc segments rule = segments (front ++ orSign :: lastSegment rule) := congrArg segments hfront
        _ = segments front ++ segments (lastSegment rule) := segments_append_orSign _ _
        _ = segments front ++ [(lastSegment rule).splitOn andSign] := by
          rw [segments_of_not_mem (orSign_not_mem_lastSegment rule)]
    rw [hsegments, List.getLast?_concat]
  · -- There is no semicolon: the rule is its last segment.
    have hall : ∀ c ∈ rule, (c ≠ orSign : Bool) = true := by
      intro c hc
      simpa using fun heq : c = orSign => h (heq ▸ hc)
    have hlast : lastSegment rule = rule := List.rtakeWhile_eq_self_iff.mpr hall
    rw [hlast, segments_of_not_mem h, List.getLast?_singleton]

/-! ### Blank alternatives -/

/-- An alternative is blank exactly when its text is white space throughout. -/
theorem isBlank_splitOn (segment : Text) :
    isBlank (segment.splitOn andSign) = Text.isBlank segment := by
  have hstrip (parts : List Text) : isBlank parts = true ↔ parts.map Text.strip = [[]] := by
    simp [isBlank]
  rw [Bool.eq_iff_iff, hstrip]
  by_cases h : andSign ∈ segment
  · -- A plus sign is no white space, and makes two parts at least.
    have hsegment : Text.isBlank segment = false := Text.isBlank_eq_false_of_mem h (by decide)
    obtain ⟨front, rest, rfl⟩ := List.append_of_mem h
    have hparts : (List.map Text.strip ((front ++ andSign :: rest).splitOn andSign)).length ≠ 1 := by
      have hfront := List.length_pos_of_ne_nil (List.splitOn_ne_nil andSign front)
      have hrest := List.length_pos_of_ne_nil (List.splitOn_ne_nil andSign rest)
      rw [List.length_map, List.splitOn_append_cons_self, List.length_append]
      omega
    exact iff_of_false (fun heq => hparts (by rw [heq]; rfl)) (by simp [hsegment])
  · rw [List.splitOn_eq_singleton h, ← Text.strip_eq_nil_iff]
    simp

/-- Nothing is dropped from alternatives of which the last one is not blank. -/
theorem dropBlankLast_of_not_blank {alternatives : List (List Text)}
    (h : alternatives.getLast?.any isBlank = false) : dropBlankLast alternatives = alternatives := by
  unfold dropBlankLast
  rw [h, Bool.and_false]
  rfl

/-- A blank alternative at the end of others is dropped. -/
theorem dropBlankLast_concat {alternatives : List (List Text)} {parts : List Text}
    (hne : alternatives ≠ []) (h : isBlank parts = true) :
    dropBlankLast (alternatives ++ [parts]) = alternatives := by
  have hlength := List.length_pos_of_ne_nil hne
  unfold dropBlankLast
  rw [List.getLast?_concat, List.dropLast_concat, if_pos (by simp [h, hlength])]

/-- An alternative is dropped only where there are others. -/
theorem dropBlankLast_ne_nil {alternatives : List (List Text)} (hne : alternatives ≠ []) :
    dropBlankLast alternatives ≠ [] := by
  unfold dropBlankLast
  split_ifs with hdrop
  · have hlong : 1 < alternatives.length := by simpa using (Bool.and_eq_true_iff.mp hdrop).1
    refine List.ne_nil_of_length_pos ?_
    rw [List.length_dropLast]
    omega
  · exact hne

/-- Alternatives in front of others stay, unless a blank one stood alone behind them. -/
theorem dropBlankLast_append (front : List (List Text)) {alternatives : List (List Text)}
    (hne : alternatives ≠ [])
    (h : alternatives.getLast?.any isBlank = true → 1 < alternatives.length) :
    dropBlankLast (front ++ alternatives) = front ++ dropBlankLast alternatives := by
  cases hlast : alternatives.getLast?.any isBlank with
  | false =>
    rw [dropBlankLast_of_not_blank hlast]
    refine dropBlankLast_of_not_blank ?_
    rwa [List.getLast?_append_of_ne_nil front hne]
  | true =>
    have hlength := h hlast
    have hlong : 1 < (front ++ alternatives).length := by
      rw [List.length_append]
      omega
    unfold dropBlankLast
    rw [List.getLast?_append_of_ne_nil front hne, hlast, if_pos (by simpa using hlong),
      if_pos (by simpa using hlength), List.dropLast_append_of_ne_nil hne]

/-! ### Alternatives -/

/-- A rule has at least one alternative. -/
theorem split_ne_nil (rule : Text) : split rule ≠ [] := by
  rw [split_eq_segments]
  exact dropBlankLast_ne_nil (segments_ne_nil rule)

/-- A rule with something after its last semicolon keeps all its segments. -/
theorem split_of_lastSegment {rule : Text} (h : (lastSegment rule).isBlank = false) :
    split rule = segments rule := by
  rw [split_eq_segments]
  refine dropBlankLast_of_not_blank ?_
  rw [getLast?_segments, Option.any_some, isBlank_splitOn, h]

/-- A rule in front of one that is not blank adds its segments to the alternatives of that one. -/
theorem split_append_orSign (a : Text) {b : Text} (hb : b.isBlank = false) :
    split (a ++ orSign :: b) = segments a ++ split b := by
  have hcase : (segments b).getLast?.any isBlank = true → 1 < (segments b).length := by
    intro hlast
    by_cases hmem : orSign ∈ b
    · -- A semicolon makes two segments at least.
      obtain ⟨front, rest, rfl⟩ := List.append_of_mem hmem
      have hfront := List.length_pos_of_ne_nil (segments_ne_nil front)
      have hrest := List.length_pos_of_ne_nil (segments_ne_nil rest)
      rw [segments_append_orSign, List.length_append]
      omega
    · -- The only segment of the second rule is not blank.
      rw [segments_of_not_mem hmem, List.getLast?_singleton, Option.any_some, isBlank_splitOn,
        hb] at hlast
      cases hlast
  rw [split_eq_segments, split_eq_segments, segments_append_orSign,
    dropBlankLast_append _ (segments_ne_nil b) hcase]

/-- White space behind a semicolon at the end of a rule is dropped with the semicolon. -/
theorem split_append_orSign_blank (a : Text) {w : Text} (hw : w.isBlank = true) :
    split (a ++ orSign :: w) = segments a := by
  have hmem : orSign ∉ w := Text.not_mem_of_isBlank hw (by decide)
  have hblank : isBlank (w.splitOn andSign) = true := by rw [isBlank_splitOn, hw]
  rw [split_eq_segments, segments_append_orSign, segments_of_not_mem hmem]
  exact dropBlankLast_concat (segments_ne_nil a) hblank

/-- White space after a semicolon at the end of a rule does not count. -/
theorem split_append_blank {a w : Text} (ha : (lastSegment a).isBlank = false)
    (hw : w.isBlank = true) : split (a ++ orSign :: w) = split a :=
  (split_append_orSign_blank a hw).trans (split_of_lastSegment ha).symm

end Rule

open Rule

/-! ### Clauses and matches -/

/-- The clauses of a rule that is not blank, one for each of its alternatives. -/
theorem Predicate.clauses_ofRule {rule : Text} (h : rule.isBlank = false) :
    (Predicate.ofRule (some rule)).clauses =
      (split rule).map fun parts => ⟨parts.map Term.ofPart⟩ := by
  unfold Predicate.ofRule
  simp only [Option.getD_some, h, Bool.false_eq_true, if_false]

/-- A rule with a semicolon is not blank. -/
theorem isBlank_append_orSign (a b : Text) : Text.isBlank (a ++ orSign :: b) = false :=
  Text.isBlank_eq_false_of_mem (c := orSign) (by simp) (by decide)

/-- A rule with something after its last semicolon is not blank. -/
theorem isBlank_of_lastSegment {rule : Text} (h : (lastSegment rule).isBlank = false) :
    rule.isBlank = false := by
  obtain ⟨c, hc, hb⟩ : ∃ c ∈ lastSegment rule, c.isBlank = false := by
    simpa [Text.isBlank] using h
  have hsuffix : lastSegment rule <:+ rule := List.rtakeWhile_suffix _ rule
  exact Text.isBlank_eq_false_of_mem (hsuffix.subset hc) hb

theorem Predicate.clauses_append_orSign {a b : Text} (ha : (lastSegment a).isBlank = false)
    (hb : b.isBlank = false) :
    (Predicate.ofRule (some (a ++ orSign :: b))).clauses =
      (Predicate.ofRule (some a)).clauses ++ (Predicate.ofRule (some b)).clauses := by
  rw [clauses_ofRule (isBlank_append_orSign a b), clauses_ofRule (isBlank_of_lastSegment ha),
    clauses_ofRule hb, split_append_orSign a hb, split_of_lastSegment ha, List.map_append]

theorem Predicate.clauses_append_blank {a w : Text} (ha : (lastSegment a).isBlank = false)
    (hw : w.isBlank = true) :
    (Predicate.ofRule (some (a ++ orSign :: w))).clauses = (Predicate.ofRule (some a)).clauses := by
  rw [clauses_ofRule (isBlank_append_orSign a w), clauses_ofRule (isBlank_of_lastSegment ha),
    split_append_blank ha hw]

/-- What an engine answers for a rule and a text, after any calls, does not depend on the calls. -/
theorem matchRule_after (calls : List Engine.Call) (rule text : Option Text) :
    ((Engine.matchRule rule text).run (Engine.after (fun _ => none) calls)).result =
      .ok (ruleMatches rule text) := by
  obtain ⟨hsound, hrefusal⟩ := Engine.after_sound (fun _ => none) calls
  rw [(Engine.matchRule_run hsound rule text).1, hrefusal]
  rfl

/-- A rule of two with a semicolon between them matches where one of the two matches. -/
theorem ruleMatches_append_orSign (a b : Text) (t : Option Text) :
    ruleMatches (some (a ++ orSign :: b)) t = (ruleMatches (some a) t || ruleMatches (some b) t) := by
  rw [Bool.eq_iff_iff, Bool.or_eq_true]
  simp only [ruleMatches_iff_segments, Option.getD_some, segments_append_orSign, List.mem_append]
  constructor
  · rintro ⟨s, ht, hs, parts, hparts | hparts, hfound⟩
    · exact .inl ⟨s, ht, hs, parts, hparts, hfound⟩
    · exact .inr ⟨s, ht, hs, parts, hparts, hfound⟩
  · rintro (⟨s, ht, hs, parts, hparts, hfound⟩ | ⟨s, ht, hs, parts, hparts, hfound⟩)
    · exact ⟨s, ht, hs, parts, .inl hparts, hfound⟩
    · exact ⟨s, ht, hs, parts, .inr hparts, hfound⟩

/-- An alternative of two with a plus sign between them matches where both match. -/
theorem ruleMatches_append_andSign {a b : Text} (ha : orSign ∉ a) (hb : orSign ∉ b)
    (t : Option Text) :
    ruleMatches (some (a ++ andSign :: b)) t = (ruleMatches (some a) t && ruleMatches (some b) t) := by
  rw [Bool.eq_iff_iff, Bool.and_eq_true]
  simp only [ruleMatches_iff_segments, Option.getD_some, segments_append_andSign ha hb,
    segments_of_not_mem ha, segments_of_not_mem hb, List.mem_singleton, exists_eq_left,
    List.forall_mem_append]
  constructor
  · rintro ⟨s, ht, hs, hfirst, hsecond⟩
    exact ⟨⟨s, ht, hs, hfirst⟩, s, ht, hs, hsecond⟩
  · rintro ⟨⟨s, ht, hs, hfirst⟩, s', ht', -, hsecond⟩
    obtain rfl := Option.some.inj (ht.symm.trans ht')
    exact ⟨s, ht, hs, hfirst, hsecond⟩

/-- How rules compose. With a semicolon between them the clauses of the second follow those of the first,
if the first ends in something that is not white space and the second is not blank; and white space
behind the semicolon is nothing. Whatever the two are, the whole matches a text where one of them does;
and with a plus sign between two rules without a semicolon it matches where both do. What a rule matches
is what every engine answers, whatever it was asked before. -/
theorem rules_compose :
    (∀ a b : Text, (lastSegment a).isBlank = false → b.isBlank = false →
      (Predicate.ofRule (some (a ++ orSign :: b))).clauses =
        (Predicate.ofRule (some a)).clauses ++ (Predicate.ofRule (some b)).clauses) ∧
    (∀ a w : Text, (lastSegment a).isBlank = false → w.isBlank = true →
      (Predicate.ofRule (some (a ++ orSign :: w))).equivalent (Predicate.ofRule (some a)) = true) ∧
    (∀ (a b : Text) (t : Option Text), ruleMatches (some (a ++ orSign :: b)) t =
      (ruleMatches (some a) t || ruleMatches (some b) t)) ∧
    (∀ (a b : Text) (t : Option Text), orSign ∉ a → orSign ∉ b →
      ruleMatches (some (a ++ andSign :: b)) t =
        (ruleMatches (some a) t && ruleMatches (some b) t)) ∧
    ∀ (calls : List Engine.Call) (rule t : Option Text),
      ((Engine.matchRule rule t).run (Engine.after (fun _ => none) calls)).result =
        .ok (ruleMatches rule t) := by
  refine ⟨fun a b => Predicate.clauses_append_orSign, fun a w ha hw => ?_,
    ruleMatches_append_orSign, fun a b t ha hb => ruleMatches_append_andSign ha hb t, matchRule_after⟩
  unfold Predicate.equivalent
  exact decide_eq_true (Predicate.clauses_append_blank ha hw)

/-- A rule whose alternative at the end is two empty parts, before a rule that ends in a semicolon; and
before an ideographic space. -/
theorem rules_compose_sea :
    (Predicate.ofRule (some "sea; +;storm; ")).clauses =
        [⟨[⟨"sea"⟩]⟩, ⟨[⟨[]⟩, ⟨[]⟩]⟩, ⟨[⟨"storm"⟩]⟩] ∧
      (Predicate.ofRule (some "sea; +;\u3000")).equivalent (Predicate.ofRule (some "sea; +")) = true := by
  refine ⟨(rules_compose.1 "sea; +" "storm; " (by decide) (by decide)).trans (by decide), ?_⟩
  exact rules_compose.2.1 "sea; +" "\u3000" (by decide) (by decide)

end TitleClasses
