import Mathlib.Data.List.Infix
import TitleClasses.Proofs.Rule.Occurrence
import TitleClasses.Proofs.Text.Case

/-!
# Terms of a single word

A term of word characters and wildcards can be looked for word by word: take the maximal runs of word
characters of the text (`Text.wordRuns`), and match each as a whole with the term read as a glob
(`globMatches`). `foundIn_eq_any_wordRuns` says that this finds what the search finds. A part of the text
that fits such a term has word characters only, so that it cannot go beyond the run it begins in, and
the look-arounds do not let it begin or end inside one. This needs that a character of the text is a word
character wherever one is that differs from it in case, which is so of every text without the iota below.
-/

namespace TitleClasses

/-! ### Runs of word characters -/

/-- The maximal runs of word characters of a text, in order. -/
def Text.wordRuns (t : Text) : List Text :=
  (t.splitOnP fun c => !c.isWord).filter fun run => !run.isEmpty

/-- What is split off at word ends, behind some word characters that were passed. -/
theorem Text.exists_of_mem_splitOnP (passed : Text) {t run : Text} (hpassed : ∀ c ∈ passed, c.isWord = true)
    (h : run ∈ (passed ++ t).splitOnP fun c => !c.isWord) :
    (∀ c ∈ run, c.isWord = true) ∧ ∃ front rest, passed ++ t = front ++ run ++ rest ∧
      (∀ c, front.getLast? = some c → c.isWord = false) ∧
      (∀ c, rest.head? = some c → c.isWord = false) := by
  -- The induction is on the text; what was passed is the beginning of the run at hand.
  induction t generalizing passed with
  | nil =>
    rw [List.append_nil, List.splitOnP_eq_singleton (by simpa using hpassed),
      List.mem_singleton] at h
    subst h
    exact ⟨hpassed, [], [], by simp, by simp, by simp⟩
  | cons c t ih =>
    cases hc : c.isWord with
    | true =>
      have hmore : ∀ d ∈ passed ++ [c], d.isWord = true := by
        simpa [hc, or_imp, forall_and] using hpassed
      have hassoc : passed ++ c :: t = passed ++ [c] ++ t := by simp
      rw [hassoc] at h ⊢
      exact ih _ hmore h
    | false =>
      rw [List.splitOnP_append_cons passed t (by simp [hc]),
        List.splitOnP_eq_singleton (by simpa using hpassed), List.mem_append,
        List.mem_singleton] at h
      rcases h with rfl | h
      · -- The run is what was passed.
        exact ⟨hpassed, [], c :: t, by simp, by simp, by simp [hc]⟩
      · obtain ⟨hrun, front, rest, heq, hfront, hrest⟩ :=
          ih [] (by simp) (by simpa using h)
        refine ⟨hrun, passed ++ c :: front, rest, ?_, ?_, hrest⟩
        · rw [List.nil_append] at heq
          simp [heq]
        · intro d hd
          cases front with
          | nil =>
            rw [List.getLast?_concat] at hd
            exact Option.some.inj hd ▸ hc
          | cons e front =>
            rw [List.getLast?_append_of_ne_nil _ (List.cons_ne_nil _ _),
              List.getLast?_cons_cons] at hd
            exact hfront d hd

/-- A run of word characters between word ends is split off. -/
theorem Text.mem_splitOnP {front run rest : Text} (hrun : ∀ c ∈ run, c.isWord = true)
    (hfront : ∀ c, front.getLast? = some c → c.isWord = false)
    (hrest : ∀ c, rest.head? = some c → c.isWord = false) :
    run ∈ (front ++ run ++ rest).splitOnP fun c => !c.isWord := by
  -- What follows the run is split off behind it.
  have hend : run ∈ (run ++ rest).splitOnP fun c => !c.isWord := by
    have hself : run.splitOnP (fun c => !c.isWord) = [run] :=
      List.splitOnP_eq_singleton (by simpa using hrun)
    cases rest with
    | nil => simp [hself]
    | cons c rest =>
      rw [List.splitOnP_append_cons run rest (by simp [hrest c rfl]), hself]
      exact List.mem_cons_self
  rcases List.eq_nil_or_concat front with rfl | ⟨front, c, rfl⟩
  · simpa using hend
  · rw [List.concat_eq_append] at hfront ⊢
    have hc : c.isWord = false := hfront c (List.getLast?_concat ..)
    have hassoc : front ++ [c] ++ run ++ rest = front ++ c :: (run ++ rest) := by simp
    rw [hassoc, List.splitOnP_append_cons front _ (by simp [hc])]
    exact List.mem_append_right _ hend

/-- The runs of a text are the parts of it that have word characters only, at least one, with no word
character right before them and none right behind them. -/
theorem Text.mem_wordRuns_iff (t run : Text) :
    run ∈ t.wordRuns ↔ run ≠ [] ∧ (∀ c ∈ run, c.isWord = true) ∧
      ∃ front rest, t = front ++ run ++ rest ∧
        (∀ c, front.getLast? = some c → c.isWord = false) ∧
        (∀ c, rest.head? = some c → c.isWord = false) := by
  unfold wordRuns
  rw [List.mem_filter]
  constructor
  · rintro ⟨hmem, hne⟩
    exact ⟨by simpa using hne, exists_of_mem_splitOnP [] (by simp) hmem⟩
  · rintro ⟨hne, hrun, front, rest, rfl, hfront, hrest⟩
    exact ⟨mem_splitOnP hrun hfront hrest, by simpa using hne⟩

/-! ### Globs -/

open Pattern

/-- Whether a text as a whole matches a glob: the wildcard sign stands for any text, the empty one
included, and any other character for one that is the same up to case. -/
def globMatches : Text → Text → Bool
  | [], w => w.isEmpty
  | c :: g, w =>
    if c = wildcardSign then w.tails.any (globMatches g)
    else match w with
      | [] => false
      | d :: r => c.caseEq d && globMatches g r

/-- A word character stands for itself. -/
theorem isOwn_of_isWord {c : CodePoint} (h : c.isWord = true) : isOwn c = true := by
  refine (isOwn_iff c).mpr ⟨?_, CodePoint.isBlank_of_isWord h⟩
  rintro rfl
  exact absurd h (by decide)

/-- What word characters and wildcard signs stand for. -/
theorem pieceOf_of_glob {c : CodePoint} (h : c = wildcardSign ∨ c.isWord = true) :
    c = wildcardSign ∧ pieceOf c = .wildcard ∨
      c ≠ wildcardSign ∧ c.isWord = true ∧ pieceOf c = .literal c := by
  rcases h with rfl | hword
  · exact .inl ⟨rfl, pieceOf_wildcardSign⟩
  · have hown := isOwn_of_isWord hword
    exact .inr ⟨((isOwn_iff c).mp hown).1, hword, pieceOf_of_isOwn hown⟩

/-- A run of word characters matches a glob of word characters exactly if it can be cut into parts that
fit the pieces. -/
theorem globMatches_iff {g : Text} (hg : ∀ c ∈ g, c = wildcardSign ∨ c.isWord = true) {w : Text}
    (hw : ∀ d ∈ w, d.isWord = true) :
    globMatches g w = true ↔
      ∃ parts, w = parts.flatten ∧ List.Forall₂ Piece.Fits (g.map pieceOf) parts := by
  induction g generalizing w with
  | nil =>
    rw [globMatches, List.isEmpty_iff]
    constructor
    · rintro rfl
      exact ⟨[], rfl, .nil⟩
    · rintro ⟨parts, rfl, hparts⟩
      cases hparts
      rfl
  | cons c g ih =>
    obtain ⟨hc, hg⟩ := List.forall_mem_cons.mp hg
    rw [globMatches.eq_def]
    dsimp only
    rcases pieceOf_of_glob hc with ⟨hwild, hpiece⟩ | ⟨hwild, -, hpiece⟩
    · -- The wildcard takes what is in front of some end of the run.
      simp only [if_pos hwild, List.any_eq_true, List.mem_tails, List.map_cons, hpiece]
      constructor
      · rintro ⟨rest, ⟨part, rfl⟩, hrest⟩
        obtain ⟨hpart, hword⟩ := List.forall_mem_append.mp hw
        obtain ⟨parts, rfl, hparts⟩ := (ih hg hword).mp hrest
        exact ⟨part :: parts, rfl, .cons hpart hparts⟩
      · rintro ⟨parts, rfl, hparts⟩
        cases hparts with
        | @cons _ part _ parts hpart hparts =>
          rw [List.flatten_cons] at hw ⊢
          obtain ⟨-, hword⟩ := List.forall_mem_append.mp hw
          exact ⟨parts.flatten, List.suffix_append part _, (ih hg hword).mpr ⟨parts, rfl, hparts⟩⟩
    · rw [if_neg hwild, List.map_cons, hpiece]
      constructor
      · intro h
        cases w with
        | nil => cases h
        | cons d r =>
          obtain ⟨hd, hr⟩ := Bool.and_eq_true_iff.mp h
          obtain ⟨parts, rfl, hparts⟩ := (ih hg (List.forall_mem_cons.mp hw).2).mp hr
          exact ⟨[d] :: parts, rfl, .cons ⟨d, rfl, hd⟩ hparts⟩
      · rintro ⟨parts, rfl, hparts⟩
        cases hparts with
        | cons hpart hparts =>
          obtain ⟨d, rfl, hd⟩ := hpart
          obtain ⟨-, hword⟩ := List.forall_mem_cons.mp hw
          exact Bool.and_eq_true_iff.mpr ⟨hd, (ih hg hword).mpr ⟨_, rfl, hparts⟩⟩

/-! ### Terms -/

/-- Whether every character of a text that differs in case only from a word character is one too. -/
def Text.CaseClosed (s : Text) : Prop :=
  ∀ d ∈ s, ∀ c : CodePoint, c.isWord = true → c.caseEq d = true → d.isWord = true

/-- The iota below is the only character that is no word character while one of the same case is. -/
theorem Text.caseClosed_iff (s : Text) : s.CaseClosed ↔ CodePoint.iotaBelow ∉ s := by
  constructor
  · intro h hmem
    obtain ⟨heq, hiota, hbelow⟩ := CodePoint.caseEq_iotaBelow
    rw [h _ hmem _ hiota heq] at hbelow
    cases hbelow
  · intro h d hd c hc heq
    exact CodePoint.isWord_of_caseEq heq hc fun hiota => h (hiota ▸ hd)

/-- Parts of a case-closed text that fit word characters and wildcards have word characters only. -/
theorem Text.CaseClosed.isWord_of_fits {s : Text} (hs : s.CaseClosed) {g : Text}
    (hg : ∀ c ∈ g, c = wildcardSign ∨ c.isWord = true) {parts : List Text}
    (hparts : List.Forall₂ Piece.Fits (g.map pieceOf) parts) (hsub : ∀ d ∈ parts.flatten, d ∈ s) :
    ∀ d ∈ parts.flatten, d.isWord = true := by
  intro d hd
  obtain ⟨c, hc, part, hdp, hfits⟩ := Term.exists_fits_of_mem_flatten hparts hd
  rcases pieceOf_of_glob (hg c hc) with ⟨-, hpiece⟩ | ⟨-, hword, hpiece⟩
  · rw [hpiece] at hfits
    exact hfits d hdp
  · rw [hpiece] at hfits
    obtain ⟨e, rfl, he⟩ := hfits
    obtain rfl := List.mem_singleton.mp hdp
    exact hs d (hsub d hd) c hword he

namespace Term

/-- A term of word characters and wildcards, with a word character at least, is found in a text exactly
if one of the runs of word characters of the text, as a whole, matches the term as a glob. This is so of
every text in which what differs in case only from a word character is one too, that is, of every text
without the iota below. The runs are the parts of the text that have word characters only, at least one,
and no word character next to them. -/
theorem foundIn_eq_any_wordRuns :
    (∀ t : Term, (∀ c ∈ t.text, c = wildcardSign ∨ c.isWord = true) →
      (∃ c ∈ t.text, c.isWord = true) → ∀ s : Text, s.CaseClosed →
        t.foundIn s = s.wordRuns.any (globMatches t.text)) ∧
    (∀ s : Text, s.CaseClosed ↔ CodePoint.iotaBelow ∉ s) ∧
    ∀ s run : Text, run ∈ s.wordRuns ↔ run ≠ [] ∧ (∀ c ∈ run, c.isWord = true) ∧
      ∃ front rest, s = front ++ run ++ rest ∧
        (∀ c, front.getLast? = some c → c.isWord = false) ∧
        (∀ c, rest.head? = some c → c.isWord = false) := by
  refine ⟨fun t ht hown s hs => ?_, Text.caseClosed_iff, Text.mem_wordRuns_iff⟩
  have hspaced : t.text.Spaced := by
    refine Text.spaced_of_not_blank fun c hc => ?_
    rcases ht c hc with rfl | hword
    · exact isBlank_wildcardSign
    · exact CodePoint.isBlank_of_isWord hword
  obtain ⟨c, hc, hcw⟩ := hown
  have hcown := isOwn_of_isWord hcw
  rw [Bool.eq_iff_iff, List.any_eq_true, foundIn_iff_of_spaced hspaced]
  constructor
  · rintro ⟨-, front, parts, rest, rfl, hparts, hfront, hrest⟩
    -- Bounded by word ends, what fits the term is a whole run.
    have hword := hs.isWord_of_fits ht hparts fun d hd => by simp [hd]
    have hne := flatten_ne_nil_of_fits hc ((isOwn_iff c).mp hcown).1 hparts
    exact ⟨parts.flatten, (Text.mem_wordRuns_iff _ _).mpr
      ⟨hne, hword, front, rest, rfl, hfront, hrest⟩, (globMatches_iff ht hword).mpr ⟨parts, rfl, hparts⟩⟩
  · rintro ⟨run, hmem, hmatch⟩
    obtain ⟨-, hword, front, rest, rfl, hfront, hrest⟩ := (Text.mem_wordRuns_iff _ _).mp hmem
    obtain ⟨parts, rfl, hparts⟩ := (globMatches_iff ht hword).mp hmatch
    exact ⟨List.any_eq_true.mpr ⟨c, hc, hcown⟩, front, parts, rest, rfl, hparts, hfront, hrest⟩

/-- A run that a term with two wildcards next to each other matches up to case, beside one that ends like
the term; and a term that no run as a whole matches. -/
theorem foundIn_eq_any_wordRuns_sea :
    let s : Text := "Over_sea, SALADS!"
    Term.foundIn ⟨"s**a*"⟩ s = true ∧ Term.foundIn ⟨"s*a"⟩ s = false := by
  intro s
  have hclosed : s.CaseClosed := (foundIn_eq_any_wordRuns.2.1 s).mpr (by decide)
  have hglob (t : Text) (hall : t.all (fun c => c = wildcardSign || c.isWord) = true) :
      ∀ c ∈ t, c = wildcardSign ∨ c.isWord = true :=
    fun c hc => by simpa using List.all_eq_true.mp hall c hc
  have hs : CodePoint.isWord ('s' : Char) = true := by decide
  constructor
  · rw [foundIn_eq_any_wordRuns.1 ⟨"s**a*"⟩ (hglob _ (by decide)) ⟨_, List.mem_cons_self, hs⟩ s hclosed]
    decide +kernel
  · rw [foundIn_eq_any_wordRuns.1 ⟨"s*a"⟩ (hglob _ (by decide)) ⟨_, List.mem_cons_self, hs⟩ s hclosed]
    decide +kernel

end Term

end TitleClasses
