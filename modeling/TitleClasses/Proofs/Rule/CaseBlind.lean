import Mathlib.Data.List.Forall2
import TitleClasses.Proofs.Rule.Composition
import TitleClasses.Proofs.Text.Case

/-!
# Case does not count

Two texts are case-equal when they have case-equal characters in the same places. Each step from a rule
to the search makes case-equal things of case-equal texts: the signs of a rule and the wildcard are
case-equal to nothing else and white space to white space only, so that the segments of two rules, the
normal texts of their terms and the pieces of their patterns correspond one by one (`segments_caseEq`,
`text_ofPart_caseEq`, `ofTerm_caseEq`). The search compares characters up to case and looks at nothing
else but white space and word characters; so it answers the same of case-equal patterns and of texts
that are case-equal and have their word characters in the same places (`Pattern.foundIn_of_recased`).
`case_ignored` says it of rules.
-/

namespace TitleClasses

namespace Text

/-- Whether two texts differ in case at most, character by character. -/
def CaseEq (t t' : Text) : Prop := List.Forall₂ (fun c c' : CodePoint => c.caseEq c' = true) t t'

/-- Whether two texts differ in case at most, and have word characters in the same places. -/
def Recased (t t' : Text) : Prop :=
  List.Forall₂ (fun c c' : CodePoint => c.caseEq c' = true ∧ c.isWord = c'.isWord) t t'

instance (t t' : Text) : Decidable (CaseEq t t') := inferInstanceAs (Decidable (List.Forall₂ _ t t'))

instance (t t' : Text) : Decidable (Recased t t') := inferInstanceAs (Decidable (List.Forall₂ _ t t'))

theorem CaseEq.refl (t : Text) : CaseEq t t :=
  List.forall₂_same.mpr fun c _ => CodePoint.caseEq_equivalence.refl c

theorem CaseEq.append {t t' u u' : Text} (ht : CaseEq t t') (hu : CaseEq u u') :
    CaseEq (t ++ u) (t' ++ u') := List.rel_append ht hu

/-- The words of case-equal texts are case-equal. -/
theorem CaseEq.words {t t' : Text} (h : CaseEq t t') : List.Forall₂ CaseEq t.words t'.words := by
  induction h with
  | nil => exact .nil
  | @cons c c' r r' hc hr ih =>
    have hblank := CodePoint.isBlank_of_caseEq hc
    cases hb : c.isBlank with
    | true =>
      rw [words_of_blank hb, words_of_blank (hblank ▸ hb)]
      exact ih
    | false =>
      have hb' : c'.isBlank = false := hblank ▸ hb
      cases hw : Text.words r with
      | nil =>
        rw [hw, List.forall₂_nil_left_iff] at ih
        rw [words_of_last hb hw, words_of_last hb' ih]
        exact .cons (.cons hc .nil) .nil
      | cons w ws =>
        cases hr with
        | nil => cases hw
        | @cons d d' s s' hd hs =>
          rw [hw] at ih
          obtain ⟨w', ws', hww, hws, hw'⟩ := List.forall₂_cons_left_iff.mp ih
          rw [words_of_not_blank hb hw, words_of_not_blank hb' hw', CodePoint.isBlank_of_caseEq hd]
          cases d'.isBlank with
          | true => exact .cons (.cons hc .nil) (.cons hww hws)
          | false => exact .cons (.cons hc hww) hws

/-- Case-equal parts with the same separator between them are case-equal. -/
theorem CaseEq.join (separator : Text) {parts parts' : List Text} (h : List.Forall₂ CaseEq parts parts') :
    CaseEq (Text.join separator parts) (Text.join separator parts') := by
  induction h with
  | nil => exact .nil
  | @cons p p' ps ps' hp hps ih =>
    cases hps with
    | nil => simpa [Text.join] using hp
    | cons hq hps =>
      rw [join_cons_cons, join_cons_cons]
      exact (hp.append (CaseEq.refl separator)).append ih

end Text

/-! ### Related lists -/

section Related

variable {α β : Type} {R : α → β → Prop} {p : α → Bool} {q : β → Bool} {l : List α} {l' : List β}

/-- Tests that agree on what is related agree on related lists. -/
theorem any_eq_of_forall₂ (h : List.Forall₂ R l l') (hpq : ∀ a b, R a b → p a = q b) :
    l.any p = l'.any q := by
  induction h with
  | nil => rfl
  | cons hab _ ih => rw [List.any_cons, List.any_cons, hpq _ _ hab, ih]

theorem all_eq_of_forall₂ (h : List.Forall₂ R l l') (hpq : ∀ a b, R a b → p a = q b) :
    l.all p = l'.all q := by
  induction h with
  | nil => rfl
  | cons hab _ ih => rw [List.all_cons, List.all_cons, hpq _ _ hab, ih]

end Related

/-- Related lists, split at corresponding separators, have related parts. -/
theorem forall₂_splitOn {α : Type} [DecidableEq α] {R : α → α → Prop} {separator : α} {l l' : List α}
    (h : List.Forall₂ R l l') (hsep : ∀ a b, R a b → (a = separator ↔ b = separator)) :
    List.Forall₂ (List.Forall₂ R) (l.splitOn separator) (l'.splitOn separator) := by
  induction h with
  | nil =>
    rw [List.splitOn_nil]
    exact .cons .nil .nil
  | @cons a b l l' hab _ ih =>
    rw [List.splitOn_cons_eq_if_modifyHead, List.splitOn_cons_eq_if_modifyHead]
    simp only [beq_iff_eq, hsep a b hab]
    split_ifs with hb
    · exact .cons .nil ih
    · -- What stands in front of no separator belongs to the first part.
      generalize l.splitOn separator = ps, l'.splitOn separator = ps' at ih
      cases ih with
      | nil => exact .nil
      | cons hp hps => exact .cons (.cons hab hp) hps

namespace Rule

/-- The signs of rules are case-equal to themselves only. -/
theorem eq_orSign_iff {c d : CodePoint} (h : c.caseEq d = true) : c = orSign ↔ d = orSign :=
  CodePoint.eq_iff_of_caseEq (by decide +kernel) h

theorem eq_andSign_iff {c d : CodePoint} (h : c.caseEq d = true) : c = andSign ↔ d = andSign :=
  CodePoint.eq_iff_of_caseEq (by decide +kernel) h

/-- Case-equal rules have case-equal segments. -/
theorem segments_caseEq {rule rule' : Text} (h : Text.CaseEq rule rule') :
    List.Forall₂ (List.Forall₂ Text.CaseEq) (segments rule) (segments rule') := by
  have hor := forall₂_splitOn h fun c d hcd => eq_orSign_iff hcd
  unfold segments
  rw [List.forall₂_map_left_iff, List.forall₂_map_right_iff]
  exact hor.imp fun segment segment' hs => forall₂_splitOn hs fun c d hcd => eq_andSign_iff hcd

end Rule

/-! ### Patterns -/

namespace Piece

/-- Whether two pieces ask for the same up to case. -/
inductive CaseEq : Piece → Piece → Prop
  | literal {c d : CodePoint} (h : c.caseEq d = true) : CaseEq (.literal c) (.literal d)
  | blanks : CaseEq .blanks .blanks
  | wildcard : CaseEq .wildcard .wildcard

end Piece

namespace Pattern

theorem eq_wildcardSign_iff {c d : CodePoint} (h : c.caseEq d = true) :
    c = wildcardSign ↔ d = wildcardSign :=
  CodePoint.eq_iff_of_caseEq (by decide +kernel) h

/-- Case-equal texts of terms have case-equal patterns. -/
theorem ofTerm_caseEq {t t' : Text} (h : Text.CaseEq t t') :
    List.Forall₂ Piece.CaseEq (ofTerm t) (ofTerm t') := by
  induction h with
  | nil => exact .nil
  | @cons c c' r r' hc _ ih =>
    rw [ofTerm, ofTerm]
    simp only [eq_wildcardSign_iff hc, CodePoint.isBlank_of_caseEq hc]
    split_ifs with hwild hblank
    · exact .cons .wildcard ih
    · -- A run of white space in front of another one is the same run.
      generalize ofTerm r = ps, ofTerm r' = ps' at ih
      cases ih with
      | nil => exact .cons .blanks .nil
      | cons hp hps =>
        cases hp with
        | literal hd => exact .cons .blanks (.cons (.literal hd) hps)
        | blanks => exact .cons .blanks hps
        | wildcard => exact .cons .blanks (.cons .wildcard hps)
    · exact .cons (.literal hc) ih

theorem hasLiteral_caseEq {ps ps' : Pattern} (h : List.Forall₂ Piece.CaseEq ps ps') :
    hasLiteral ps = hasLiteral ps' := any_eq_of_forall₂ h fun p q hpq => by cases hpq <;> rfl

/-! ### The search -/

section Search

variable {k k' : Text → Bool} {ps ps' : Pattern} {t t' : Text}

theorem afterWord_of_recased (hk : ∀ t t' : Text, t.Recased t' → k t = k' t') (h : t.Recased t') :
    afterWord k t = afterWord k' t' := by
  induction h with
  | nil => exact hk [] [] .nil
  | cons hc hr ih => rw [afterWord, afterWord, hk _ _ (.cons hc hr), hc.2, ih]

theorem afterBlanks_of_recased (hk : ∀ t t' : Text, t.Recased t' → k t = k' t') (h : t.Recased t') :
    afterBlanks k t = afterBlanks k' t' := by
  induction h with
  | nil => rfl
  | cons hc hr ih =>
    rw [afterBlanks, afterBlanks, hk _ _ hr, CodePoint.isBlank_of_caseEq hc.1, ih]

/-- A case-equal pattern fits at the front of a text exactly if it does after a change of case. -/
theorem cut_of_recased (hps : List.Forall₂ Piece.CaseEq ps ps') (h : t.Recased t') :
    cut ps t = cut ps' t' := by
  induction hps generalizing t t' with
  | nil =>
    cases h with
    | nil => rfl
    | cons hc _ =>
      rw [cut, cut, wordEnds, wordEnds, hc.2]
  | cons hp _ ih =>
    cases hp with
    | literal hpc =>
      cases h with
      | nil => rfl
      | cons hc hr =>
        rw [cut, cut, CodePoint.caseEq_congr hpc hc.1, ih hr]
    | blanks => exact afterBlanks_of_recased (fun _ _ => ih) h
    | wildcard => exact afterWord_of_recased (fun _ _ => ih) h

/-- The search answers the same of case-equal patterns, and of texts that are case-equal and have their word
characters in the same places. -/
theorem foundIn_of_recased (hps : List.Forall₂ Piece.CaseEq ps ps') (h : t.Recased t') :
    foundIn ps t = foundIn ps' t' := by
  -- The induction is on the texts, for any character right before them.
  have hfrom (inWord : Bool) : occursFrom ps inWord t = occursFrom ps' inWord t' := by
    induction h generalizing inWord with
    | nil => rw [occursFrom, occursFrom, cut_of_recased hps .nil]
    | cons hc hr ih =>
      rw [occursFrom, occursFrom, cut_of_recased hps (.cons hc hr), hc.2, ih]
  rw [foundIn_eq_occursIn, foundIn_eq_occursIn]
  exact hfrom false

end Search

end Pattern

/-! ### Terms and rules -/

namespace Term

/-- Case-equal parts of rules have case-equal terms. -/
theorem text_ofPart_caseEq {part part' : Text} (h : part.CaseEq part') :
    (ofPart part).text.CaseEq (ofPart part').text := Text.CaseEq.join " " h.words

theorem foundIn_of_recased {part part' s s' : Text} (hpart : part.CaseEq part') (h : s.Recased s') :
    (ofPart part).foundIn s = (ofPart part').foundIn s' := by
  have hps := Pattern.ofTerm_caseEq (text_ofPart_caseEq hpart)
  unfold foundIn pattern
  dsimp only
  rw [Pattern.hasLiteral_caseEq hps]
  split_ifs
  · exact Pattern.foundIn_of_recased hps h
  · rfl

end Term

/-- A rule matches a text exactly if the text is not empty and all parts of some segment are found in it. -/
theorem ruleMatches_eq_any (rule s : Text) : ruleMatches (some rule) (some s) = (!s.isEmpty &&
    (Rule.segments rule).any fun parts => parts.all fun part => (Term.ofPart part).foundIn s) := by
  rw [Bool.eq_iff_iff, ruleMatches_iff_segments]
  simp

/-- A rule answers of a text what a case-equal rule answers of a case-equal text that has its word
characters in the same places. -/
theorem ruleMatches_of_recased {rule rule' s s' : Text} (hrule : rule.CaseEq rule') (h : s.Recased s') :
    ruleMatches (some rule) (some s) = ruleMatches (some rule') (some s') := by
  have hempty : s.isEmpty = s'.isEmpty := by cases h <;> rfl
  have hfound := any_eq_of_forall₂ (Rule.segments_caseEq hrule) fun parts parts' hparts =>
    all_eq_of_forall₂ hparts fun part part' hpart => Term.foundIn_of_recased hpart h
  rw [ruleMatches_eq_any, ruleMatches_eq_any, hempty, hfound]

/-- Case does not count. A rule matches a text exactly if the rule matches it in which characters are
replaced by case-equal ones, and exactly if it matches the text in which characters are replaced by
case-equal ones of which those are word characters that stand for word characters; whatever the engine was
asked before. Of the characters of a text only the iota below has to be watched for that: it is the one that
is no word character while others of its case are. Case equality is an equivalence, in which the signs of
rules and the wildcard are alone and white space is among itself. -/
theorem case_ignored :
    (∀ rule rule' s s' : Text, rule.CaseEq rule' → s.Recased s' →
      ruleMatches (some rule) (some s) = ruleMatches (some rule') (some s') ∧
        ∀ calls calls' : List Engine.Call,
          ((Engine.matchRule (some rule) (some s)).run (Engine.after (fun _ => none) calls)).result =
            ((Engine.matchRule (some rule') (some s')).run (Engine.after (fun _ => none) calls')).result) ∧
    (∀ c d : CodePoint, c.caseEq d = true →
      (c.isWord = d.isWord ↔ (c = CodePoint.iotaBelow ↔ d = CodePoint.iotaBelow))) ∧
    (Equivalence fun c d : CodePoint => c.caseEq d = true) ∧
    ∀ c d : CodePoint, c.caseEq d = true → c.isBlank = d.isBlank ∧ (c = Rule.orSign ↔ d = Rule.orSign) ∧
      (c = Rule.andSign ↔ d = Rule.andSign) ∧ (c = Pattern.wildcardSign ↔ d = Pattern.wildcardSign) := by
  refine ⟨fun rule rule' s s' hrule h => ?_, fun c d => CodePoint.isWord_eq_iff_of_caseEq,
    CodePoint.caseEq_equivalence, fun c d h => ?_⟩
  · have hsame := ruleMatches_of_recased hrule h
    refine ⟨hsame, fun calls calls' => ?_⟩
    rw [matchRule_after, matchRule_after, hsame]
  · exact ⟨CodePoint.isBlank_of_caseEq h, Rule.eq_orSign_iff h, Rule.eq_andSign_iff h,
      Pattern.eq_wildcardSign_iff h⟩

/-- The sign of kelvin is case-equal to the letter, the long s to the short one, and the capital sharp s to
the sharp one; none of them needs a text of another length. -/
theorem case_ignored_kelvin :
    let s : Text := "Lord Kelvin's Stra\u00dfe"
    let s' : Text := "LORD \u212aelVIN'\u017f sTRA\u1e9eE"
    ruleMatches (some "lor*+ kelvin'S stra\u00dfe;;") (some s) = true ∧
      ruleMatches (some "LOR*+ \u212aelvin's \u017ftrA\u1e9ee;;") (some s') = true := by
  intro s s'
  have hmatch : ruleMatches (some "lor*+ kelvin'S stra\u00dfe;;") (some s) = true := by decide +kernel
  refine ⟨hmatch, ?_⟩
  rw [← (case_ignored.1 "lor*+ kelvin'S stra\u00dfe;;" "LOR*+ \u212aelvin's \u017ftrA\u1e9ee;;" s s'
    (by decide +kernel) (by decide +kernel)).1]
  exact hmatch

/-! The letter iota goes on with a word and the iota below ends it, though they are case-equal. -/

example :
    let s : Text := "\u03c9\u03b9"
    let s' : Text := "\u03c9\u0345"
    s.CaseEq s' ∧ ruleMatches (some "\u03a9") (some s) = false ∧
      ruleMatches (some "\u03a9") (some s') = true := by decide +kernel

end TitleClasses
