import TitleClasses.Proofs.Rule.NormalForm
import TitleClasses.Proofs.Rule.Satisfiable
import TitleClasses.Proofs.Text.Case
import TitleClasses.Proofs.Text.Gaps

/-!
# White space in the text does not count

A match is carried from a text to one with more white space part by part: a part that fits a run of
blanks is spread to one that does, and all other parts stay as they are (`Pattern.fits_iff_of_spread`). White
space around the text is like everything that begins and ends outside of words: it does not disturb a match
(`Term.foundIn_of_surrounded`). So a term that is found in a text is found in every wider one:
`Term.foundIn_of_wider`. The way back needs
that no part of a match ends inside white space. This is so if every word of the term has a character
besides the wildcard sign, since then every word of the term takes something of the text that is no white
space (`Pattern.exists_parts_of_spread`); a word of wildcards only can be nothing, and then two runs of blanks
share one run of white space. `whiteSpace_tolerated` says both of rules.
-/

namespace TitleClasses

open Pattern

namespace Pattern

/-! ### Parts -/

/-- The pieces of a text are no literal white space. -/
theorem isBlank_of_pieceOf {c d : CodePoint} (h : pieceOf c = .literal d) : d.isBlank = false := by
  unfold pieceOf at h
  split_ifs at h with hwild hblank
  obtain rfl := Piece.literal.inj h
  simpa using hblank

/-- What fits a literal piece of a text or a wildcard is no white space. -/
theorem not_blank_of_fits {c : CodePoint} (hc : pieceOf c ≠ .blanks) {part : Text}
    (h : (pieceOf c).Fits part) : ∀ d ∈ part, d.isBlank = false := by
  cases hp : pieceOf c with
  | literal d =>
    rw [hp] at h
    obtain ⟨e, rfl, he⟩ := h
    -- What is the same up to case is no white space either.
    simpa [← CodePoint.isBlank_of_caseEq he] using isBlank_of_pieceOf hp
  | blanks => exact absurd hp hc
  | wildcard =>
    rw [hp] at h
    exact fun d hd => CodePoint.isBlank_of_isWord (h d hd)

/-- A character asks for the same of a part and of what the part is spread to. -/
theorem fits_iff_of_spread (c : CodePoint) {part part' : Text} (h : Text.Spread part part') :
    (pieceOf c).Fits part ↔ (pieceOf c).Fits part' := by
  by_cases hc : pieceOf c = .blanks
  · rw [hc]
    show (part ≠ [] ∧ _) ↔ part' ≠ [] ∧ _
    rw [h.isBlank_iff, ne_eq, h.eq_nil_iff]
  · -- Where one of the parts has no white space they are the same.
    constructor
    · intro hfits
      exact h.eq_of_not_blank (not_blank_of_fits hc hfits) ▸ hfits
    · intro hfits
      exact h.eq_of_not_blank (h.not_blank_iff.mpr (not_blank_of_fits hc hfits)) ▸ hfits

/-- Parts fit a text exactly if what they are spread to does. -/
theorem forall₂_fits_iff_of_spread {g : Text} {parts parts' : List Text}
    (h : List.Forall₂ Text.Spread parts parts') :
    List.Forall₂ Piece.Fits (g.map pieceOf) parts ↔ List.Forall₂ Piece.Fits (g.map pieceOf) parts' := by
  induction h generalizing g with
  | nil => exact Iff.rfl
  | cons hpart _ ih =>
    cases g with
    | nil => exact iff_of_false (fun h => by cases h) (fun h => by cases h)
    | cons c g =>
      rw [List.map_cons, List.forall₂_cons, List.forall₂_cons, ih, fits_iff_of_spread c hpart]

/-! ### Words -/

/-- What fits a word is no white space. -/
theorem not_blank_of_word {w : Text} (hw : ∀ c ∈ w, c.isBlank = false) {parts : List Text}
    (hparts : List.Forall₂ Piece.Fits (w.map pieceOf) parts) : ∀ d ∈ parts.flatten, d.isBlank = false := by
  intro d hd
  obtain ⟨c, hc, part, hdp, hfits⟩ := Term.exists_fits_of_mem_flatten hparts hd
  refine not_blank_of_fits (fun hp => ?_) hfits d hdp
  rw [pieceOf_eq_blanks_iff, hw c hc] at hp
  cases hp

/-- Parts of a list that correspond to two lists one after the other. -/
theorem exists_of_forall₂_append {α β : Type} {R : α → β → Prop} {a b : List α} {l : List β}
    (h : List.Forall₂ R (a ++ b) l) :
    ∃ la lb, l = la ++ lb ∧ List.Forall₂ R a la ∧ List.Forall₂ R b lb := by
  refine ⟨l.take a.length, l.drop a.length, (List.take_append_drop _ _).symm, ?_, ?_⟩
  · simpa using List.forall₂_take a.length h
  · simpa using List.forall₂_drop a.length h

/-- What fits words with single spaces between them, if each has a character other than the wildcard
sign, begins and ends with a character that is no white space, and whatever is spread to it fits the words
too. -/
theorem exists_parts_of_spread {ws : List Text} (hne : ws ≠ [])
    (hws : ∀ w ∈ ws, (∀ c ∈ w, c.isBlank = false) ∧ ∃ c ∈ w, c ≠ wildcardSign) {parts : List Text}
    (hparts : List.Forall₂ Piece.Fits ((Text.join " " ws).map pieceOf) parts) :
    Text.Tight parts.flatten ∧ ∀ s, Text.Spread s parts.flatten → ∃ parts', s = parts'.flatten ∧
      List.Forall₂ Piece.Fits ((Text.join " " ws).map pieceOf) parts' := by
  induction ws generalizing parts with
  | nil => exact absurd rfl hne
  | cons w ws ih =>
    obtain ⟨⟨hw, c, hc, hwild⟩, hws⟩ := List.forall_mem_cons.mp hws
    cases ws with
    | nil =>
      have hjoin : Text.join " " [w] = w := by simp [Text.join]
      rw [hjoin] at hparts ⊢
      have hblank := not_blank_of_word hw hparts
      refine ⟨Text.tight_of_not_blank (Term.flatten_ne_nil_of_fits hc hwild hparts) hblank, fun s hs => ?_⟩
      exact ⟨parts, hs.eq_of_not_blank (hs.not_blank_iff.mpr hblank), hparts⟩
    | cons v ws =>
      rw [Text.join_cons_cons, List.append_assoc, List.map_append, List.map_append] at hparts ⊢
      obtain ⟨first, more, rfl, hfirst, hmore⟩ := exists_of_forall₂_append hparts
      obtain ⟨gap, others, rfl, hgap, hothers⟩ := exists_of_forall₂_append hmore
      obtain ⟨htight, hspread⟩ := ih (List.cons_ne_nil v ws) hws hothers
      have hblank := not_blank_of_word hw hfirst
      have hfirstTight := Text.tight_of_not_blank (Term.flatten_ne_nil_of_fits hc hwild hfirst) hblank
      rw [List.flatten_append, List.flatten_append]
      refine ⟨hfirstTight.append htight gap.flatten, fun s hs => ?_⟩
      -- No border between the three is inside white space.
      obtain ⟨a, rest, rfl, ha, hrest⟩ := hs.exists_of_append_right (.inl hfirstTight.last)
      obtain ⟨b, d, rfl, hb, hd⟩ := hrest.exists_of_append_right (.inr htight.head)
      obtain rfl := ha.eq_of_not_blank (ha.not_blank_iff.mpr hblank)
      obtain ⟨others', rfl, hothers'⟩ := hspread d hd
      cases hgap with
      | @cons _ part _ _ hpart hnil =>
        cases hnil
        rw [List.flatten_cons, List.flatten_nil, List.append_nil] at hb
        have hfits := (fits_iff_of_spread _ hb).mpr hpart
        exact ⟨first ++ b :: others', by simp, List.rel_append hfirst (.cons hfits hothers')⟩

end Pattern

/-! ### Terms -/

/-- A term that is found in a text is found in every longer one, if no word character stands at the seams
of what was added. -/
theorem Term.foundIn_of_surrounded {t : Term} {u s v : Text}
    (hu : ∀ c, u.getLast? = some c → c.isWord = false) (hv : ∀ c, v.head? = some c → c.isWord = false)
    (hfound : t.foundIn s = true) : t.foundIn (u ++ s ++ v) = true := by
  unfold foundIn at hfound ⊢
  rw [Option.any_eq_true] at hfound ⊢
  obtain ⟨ps, hps, hfound⟩ := hfound
  obtain ⟨front, parts, rest, rfl, hparts, hfront, hrest⟩ := (foundIn_iff ps s).mp hfound
  -- The parts stay where they are, between a longer front and a longer rest.
  refine ⟨ps, hps, (foundIn_iff ps _).mpr ⟨u ++ front, parts, rest ++ v, by simp, hparts, ?_, ?_⟩⟩
  · exact Text.last_append hu hfront
  · exact Text.head_append hv hrest

/-- A term that is found in a text is found in every wider one. -/
theorem Term.foundIn_of_wider {t : Term} (ht : t.text.Spaced) {s s' : Text} (h : Text.Wider s s')
    (hfound : t.foundIn s = true) : t.foundIn s' = true := by
  obtain ⟨before, core, behind, rfl, hspread, hbefore, hbehind⟩ := h
  have hblank (c : CodePoint) : c.isBlank = true → c.isWord = false := CodePoint.isWord_of_isBlank
  refine foundIn_of_surrounded (fun c hc => hblank c (hbefore c (List.mem_of_getLast? hc)))
    (fun c hc => hblank c (hbehind c (List.mem_of_head? hc))) ?_
  rw [foundIn_iff_of_spaced ht] at hfound ⊢
  obtain ⟨hown, front, parts, rest, rfl, hparts, hfront, hrest⟩ := hfound
  -- The match is carried over part by part.
  obtain ⟨v, rest', rfl, hv, hrest'⟩ := hspread.exists_of_append_left
  obtain ⟨front', w, rfl, hfront', hw⟩ := hv.exists_of_append_left
  obtain ⟨parts', rfl, hparts'⟩ := hw.exists_of_flatten_left
  exact ⟨hown, front', parts', rest', rfl, (forall₂_fits_iff_of_spread hparts').mp hparts,
    (hfront'.last_iff hblank).mp hfront, (hrest'.head_iff hblank).mp hrest⟩

/-- A normal term of which every word has a character besides the wildcard sign is found in every text
that a text in which it is found is wider than. -/
theorem Term.foundIn_of_narrower {t : Term} (ht : t.Normal)
    (hwild : ∀ w ∈ t.text.words, ∃ c ∈ w, c ≠ wildcardSign) {s s' : Text} (h : Text.Wider s s')
    (hfound : t.foundIn s' = true) : t.foundIn s = true := by
  obtain ⟨before, core, behind, rfl, hspread, hbefore, hbehind⟩ := h
  have hblank (c : CodePoint) : c.isBlank = true → c.isWord = false := CodePoint.isWord_of_isBlank
  rw [foundIn_iff_of_spaced ht.spaced] at hfound ⊢
  obtain ⟨hown, front, parts, rest, heq, hparts, hfront, hrest⟩ := hfound
  -- The text of the term is its words, and there are words.
  have hjoin : Text.join " " t.text.words = t.text := by
    rw [Text.join_words, ht.stripped, Text.collapse_of_spaced ht.spaced]
  have hwords : ∀ w ∈ t.text.words, (∀ c ∈ w, c.isBlank = false) ∧ ∃ c ∈ w, c ≠ wildcardSign :=
    fun w hw => ⟨Text.not_blank_of_mem_words hw, hwild w hw⟩
  have hne : t.text.words ≠ [] := by
    obtain ⟨c, hc, -, hb⟩ := (any_isOwn_iff _).mp hown
    rw [ne_eq, Text.words_eq_nil_iff, Text.isBlank_eq_false_of_mem hc hb]
    exact Bool.false_ne_true
  rw [← hjoin] at hparts ⊢
  obtain ⟨htight, hmatch⟩ := exists_parts_of_spread hne hwords hparts
  -- The match is inside the core, and its ends are not inside white space.
  rw [List.append_assoc] at heq
  obtain ⟨front', rfl, hcore⟩ := Text.exists_of_blank_append hbefore htight heq
  obtain ⟨rest', rfl, rfl⟩ := Text.exists_of_append_blank hbehind htight hcore
  obtain ⟨a, b, rfl, hmiddle, hb⟩ := hspread.exists_of_append_right
    (.inl (List.getLast?_append_of_ne_nil front' htight.ne_nil ▸ htight.last))
  obtain ⟨a, m, rfl, ha, hm⟩ := hmiddle.exists_of_append_right (.inr htight.head)
  obtain ⟨parts', rfl, hparts'⟩ := hmatch m hm
  refine ⟨hjoin.symm ▸ hown, a, parts', b, rfl, hparts', ?_, ?_⟩
  · exact (ha.last_iff hblank).mpr (Text.last_of_append before hfront)
  · exact (hb.head_iff hblank).mpr (Text.head_of_append behind hrest)

/-! ### Rules -/

/-- A rule that matches a text matches another one if each of its terms is found there when it is found in
the first one. -/
theorem ruleMatches_of_foundIn {rule : Option Text} {s s' : Text}
    (h : ∀ c ∈ (Predicate.ofRule rule).clauses, ∀ t ∈ c.terms, t.foundIn s = true → t.foundIn s' = true)
    (hmatch : ruleMatches rule (some s) = true) : ruleMatches rule (some s') = true := by
  rw [ruleMatches_iff_exists_clause] at hmatch ⊢
  obtain ⟨c, hc, hholds⟩ := hmatch
  obtain ⟨hne, hall⟩ := (Clause.holdsOf_iff c s).mp hholds
  exact ⟨c, hc, (Clause.holdsOf_iff c s').mpr ⟨hne, fun t ht => h c hc t ht (hall t ht)⟩⟩

/-- A rule that matches a text matches every wider one. -/
theorem ruleMatches_of_wider {rule : Option Text} {s s' : Text} (h : Text.Wider s s')
    (hmatch : ruleMatches rule (some s) = true) : ruleMatches rule (some s') = true :=
  ruleMatches_of_foundIn
    (fun c hc _ ht => Term.foundIn_of_wider ((Predicate.normal_ofRule rule c hc).2 _ ht).spaced h) hmatch

/-- White space in the text does not count. A rule that matches a text matches every text of the same words
in which no white space is shorter: neither what stands in front of the words, nor what stands between two
of them, nor what stands behind them. If no word of a term of the rule has wildcard signs only, the rule
answers the same of all texts of the same words, whatever their white space is. The words and gaps are all
of a text. -/
theorem whiteSpace_tolerated :
    (∀ (rule : Option Text) (s s' : Text), s.words = s'.words →
      List.Forall₂ (fun g g' : Text => g.length ≤ g'.length) s.gaps s'.gaps →
      ruleMatches rule (some s) = true → ruleMatches rule (some s') = true) ∧
    (∀ rule : Option Text, (∀ c ∈ (Predicate.ofRule rule).clauses, ∀ t ∈ c.terms, ∀ w ∈ t.text.words,
        ∃ d ∈ w, d ≠ wildcardSign) →
      ∀ s s' : Text, s.words = s'.words → ruleMatches rule (some s) = ruleMatches rule (some s')) ∧
    ∀ s : Text, ∃ lead parts, Text.LaidOut s lead parts := by
  refine ⟨fun rule s s' hwords hgaps => ruleMatches_of_wider (Text.wider_of_gaps hwords hgaps), ?_,
    Text.exists_laidOut⟩
  intro rule hwild s s' hwords
  -- Both texts are compared with their words with single spaces between them.
  have hwider := Text.wider_join_words s
  have hwider' := Text.wider_join_words s'
  rw [← hwords] at hwider'
  have hnarrow {s : Text} {joined : Text} (h : Text.Wider joined s) :
      ruleMatches rule (some s) = true → ruleMatches rule (some joined) = true :=
    ruleMatches_of_foundIn fun c hc t ht =>
      Term.foundIn_of_narrower ((Predicate.normal_ofRule rule c hc).2 t ht) (hwild c hc t ht) h
  rw [Bool.eq_iff_iff]
  exact ⟨fun h => ruleMatches_of_wider hwider' (hnarrow hwider h),
    fun h => ruleMatches_of_wider hwider (hnarrow hwider' h)⟩

/-- A word of one wildcard sign takes a run of two blanks, which may become longer but not shorter. Of a rule
without such a word neither the kind nor the length of white space makes a difference. -/
theorem whiteSpace_tolerated_ice :
    let rule : Option Text := some "ice * floe; storm"
    let bare : Option Text := some "floe*+(* ice"
    ruleMatches rule (some "ice  floe") = true ∧ ruleMatches rule (some "ice floe") = false ∧
      ruleMatches rule (some "\u00a0ice\t\n floe") = true ∧
      ruleMatches bare (some "Floes (thin ice") = true ∧
      ruleMatches bare (some " Floes\t(thin\n\n ice") = true := by
  intro rule bare
  have hmatch : ruleMatches rule (some "ice  floe") = true := by decide +kernel
  have hbare : ruleMatches bare (some "Floes (thin ice") = true := by decide +kernel
  have hwild : (Predicate.ofRule bare).clauses.all (fun c => c.terms.all fun t =>
      t.text.words.all fun w => w.any fun d => d ≠ wildcardSign) = true := by decide +kernel
  simp only [List.all_eq_true, List.any_eq_true, decide_eq_true_eq] at hwild
  refine ⟨hmatch, by decide +kernel, ?_, hbare, ?_⟩
  · exact whiteSpace_tolerated.1 rule "ice  floe" _ (by decide) (by decide) hmatch
  · exact (whiteSpace_tolerated.2.1 bare hwild _ _ (by decide)).symm.trans hbare

end TitleClasses
