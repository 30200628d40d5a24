import TitleClasses.Proofs.Rule.NormalForm

/-!
# What splitting a rule loses

The segments of a rule, joined by the signs at which they were cut, are the rule again
(`joined_segments`). So splitting loses nothing but the blank alternative that it drops. A rule keeps all
its segments unless it has a semicolon with nothing but white space behind the last one
(`split_of_not_endsBlank`); and such a rule has the segments of what stands before that semicolon
(`split_append_orSign_blank`). `joined_split` says for every rule which of the two is the case, and that
the parts have no signs.
-/

namespace TitleClasses.Rule

/-- Alternatives as a rule: plus signs between the parts of each and semicolons between them. -/
def joined (alternatives : List (List Text)) : Text :=
  Text.join [orSign] (alternatives.map (Text.join [andSign]))

/-- Whether a rule has a semicolon, and nothing but white space behind the last one. -/
def EndsBlank (rule : Text) : Prop := orSign ∈ rule ∧ (lastSegment rule).isBlank = true

instance (rule : Text) : Decidable (EndsBlank rule) := inferInstanceAs (Decidable (_ ∧ _))

/-! ### Joining segments -/

/-- The segments of a rule are joined to the rule. -/
theorem joined_segments (rule : Text) : joined (segments rule) = rule := by
  have hparts : (Text.join [andSign] ∘ fun segment : Text => segment.splitOn andSign) = id :=
    funext fun _ => List.intercalate_splitOn andSign
  unfold joined segments
  rw [List.map_map, hparts, List.map_id]
  exact List.intercalate_splitOn orSign

/-! ### Splitting and joining -/

/-- A rule that does not end blank keeps its segments. -/
theorem split_of_not_endsBlank {rule : Text} (h : ¬ EndsBlank rule) : split rule = segments rule := by
  by_cases hmem : orSign ∈ rule
  · refine split_of_lastSegment ?_
    rw [Bool.eq_false_iff]
    exact fun hblank => h ⟨hmem, hblank⟩
  · -- The only segment stays, blank or not.
    rw [split_eq_segments, segments_of_not_mem hmem]
    rfl

/-- A rule that does not end blank is what its alternatives are joined to. -/
theorem joined_split_of_not_endsBlank {rule : Text} (h : ¬ EndsBlank rule) :
    joined (split rule) = rule := by
  rw [split_of_not_endsBlank h, joined_segments]

/-- The alternatives of a rule that ends blank are joined to what stands before its last semicolon. -/
theorem joined_split_of_endsBlank {rule : Text} (h : EndsBlank rule) :
    joined (split rule) ++ orSign :: lastSegment rule = rule := by
  obtain ⟨hmem, hblank⟩ := h
  obtain ⟨front, hfront⟩ := exists_append_lastSegment hmem
  have hsplit : split rule = segments front := by
    calc split rule = split (front ++ orSign :: lastSegment rule) := congrArg split hfront
      _ = segments front := split_append_orSign_blank front hblank
  rw [hsplit, joined_segments]
  exact hfront.symm

/-- What the alternatives of a rule are joined to is the rule, or the rule without its last semicolon and
what stands behind it; and the second is the case exactly when that is white space throughout, so that it
has no plus sign. There is at least one alternative, each has at least one part, and no part has a
sign. -/
theorem joined_split (rule : Text) :
    (joined (split rule) = rule ↔ ¬ EndsBlank rule) ∧
      (joined (split rule) ++ orSign :: lastSegment rule = rule ↔ EndsBlank rule) ∧
      (EndsBlank rule → andSign ∉ lastSegment rule) ∧
      split rule ≠ [] ∧
      ∀ parts ∈ split rule, parts ≠ [] ∧ ∀ part ∈ parts, orSign ∉ part ∧ andSign ∉ part := by
  -- Not both can be the case.
  have hne (hall : joined (split rule) = rule)
      (hfront : joined (split rule) ++ orSign :: lastSegment rule = rule) : False := by
    rw [hall] at hfront
    exact List.cons_ne_nil _ _ (List.append_right_eq_self.mp hfront)
  refine ⟨⟨fun hall h => hne hall (joined_split_of_endsBlank h), joined_split_of_not_endsBlank⟩,
    ⟨fun hfront => ?_, joined_split_of_endsBlank⟩, fun h => Text.not_mem_of_isBlank h.2 (by decide),
    split_ne_nil rule, fun parts => free_of_mem_split⟩
  by_contra h
  exact hne (joined_split_of_not_endsBlank h) hfront

/-- Of two semicolons at the end the last one is dropped, with the ideographic space behind it. A plus sign
behind the last semicolon is no white space. -/
theorem joined_split_sea :
    (EndsBlank "sea +ice;;\u3000" ∧ andSign ∉ lastSegment "sea +ice;;\u3000" ∧
      joined (split "sea +ice;;\u3000") ++ orSign :: lastSegment "sea +ice;;\u3000" =
        ("sea +ice;;\u3000" : Text)) ∧
      ((["sea ", "ice"] : List Text) ∈ split "sea +ice;;\u3000" ∧ orSign ∉ ("sea " : Text) ∧
        andSign ∉ ("sea " : Text)) ∧
      ¬ EndsBlank "sea; +" ∧ joined (split "sea; +") = ("sea; +" : Text) := by
  obtain ⟨-, hfront, hplus, -, hparts⟩ := joined_split "sea +ice;;\u3000"
  have hblank : EndsBlank "sea +ice;;\u3000" := by decide
  have hmem : (["sea ", "ice"] : List Text) ∈ split "sea +ice;;\u3000" := by decide
  have hkept : ¬ EndsBlank "sea; +" := by decide
  have hfree := (hparts _ hmem).2 "sea " List.mem_cons_self
  have hwhole := (joined_split "sea; +").1.mpr hkept
  exact ⟨⟨hblank, hplus hblank, hfront.mpr hblank⟩, ⟨hmem, hfree⟩, hkept, hwhole⟩

end TitleClasses.Rule
