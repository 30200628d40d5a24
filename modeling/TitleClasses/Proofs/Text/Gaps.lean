import TitleClasses.Proofs.Text.Words

/-!
# White space around the words

`gaps` gives the white space of a text: what stands before the first word, between the words, and behind
the last one. Gaps and words are all of a text (`exists_laidOut`). One text is spread to another one when
every white space becomes one or more and everything else stays: `Spread`. A text of the same words and
gaps that are no shorter is such a text with white space around it (`wider_of_gaps`), and so is every text
compared with its words with single spaces between them (`wider_join_words`). A part of a text that neither
begins nor ends with white space is not in the white space around it (`Tight`).
-/

namespace TitleClasses.Text

/-- The white space before the first word of a text, between its words, and behind the last one; of a text
without words all of it. -/
def gaps : Text → List Text
  | [] => [[]]
  | c :: r =>
    if c.isBlank then (gaps r).modifyHead (c :: ·)
    else if r.head?.all CodePoint.isBlank then [] :: gaps r
    else gaps r

/-! ### Words and gaps -/

/-- A text taken apart: white space, and words, each with the white space behind it. -/
structure LaidOut (t lead : Text) (parts : List (Text × Text)) : Prop where
  eq : t = lead ++ parts.flatMap fun p => p.1 ++ p.2
  words : t.words = parts.map Prod.fst
  gaps : t.gaps = lead :: parts.map Prod.snd
  lead_blank : ∀ c ∈ lead, c.isBlank = true
  /-- Words have characters, and none of them is white space. -/
  word : ∀ p ∈ parts, p.1 ≠ [] ∧ ∀ c ∈ p.1, c.isBlank = false
  gap_blank : ∀ p ∈ parts, ∀ c ∈ p.2, c.isBlank = true
  /-- There is white space behind every word but the last one. -/
  gap_ne_nil : ∀ p ∈ parts.dropLast, p.2 ≠ []

namespace LaidOut

variable {t lead : Text} {parts : List (Text × Text)} {c : CodePoint}

theorem nil : LaidOut [] [] [] where
  eq := rfl
  words := rfl
  gaps := rfl
  lead_blank := by simp
  word := by simp
  gap_blank := by simp
  gap_ne_nil := by simp

/-- White space in front belongs to the white space at the beginning. -/
theorem cons_blank (h : LaidOut t lead parts) (hc : c.isBlank = true) :
    LaidOut (c :: t) (c :: lead) parts where
  eq := by rw [h.eq, List.cons_append]
  words := by rw [words_of_blank hc, h.words]
  gaps := by rw [Text.gaps, if_pos hc, h.gaps, List.modifyHead_cons]
  lead_blank := List.forall_mem_cons.mpr ⟨hc, h.lead_blank⟩
  word := h.word
  gap_blank := h.gap_blank
  gap_ne_nil := h.gap_ne_nil

/-- A text that begins with a word begins with a character that is not white space. -/
theorem head?_of_nil {p : Text × Text} (h : LaidOut t [] (p :: parts)) :
    ∃ d s, t = d :: s ∧ d.isBlank = false := by
  obtain ⟨hne, hword⟩ := h.word p List.mem_cons_self
  obtain ⟨d, w, hw⟩ := List.exists_cons_of_ne_nil hne
  have heq : t = d :: (w ++ p.2 ++ parts.flatMap fun q => q.1 ++ q.2) := by
    rw [h.eq, List.flatMap_cons, hw]
    rfl
  exact ⟨d, _, heq, hword d (by simp [hw])⟩

/-- A text that does not begin with white space begins with a word, unless it is empty. -/
theorem lead_eq_nil (h : LaidOut t lead parts) (ht : t.head?.all CodePoint.isBlank = false) :
    lead = [] ∧ parts ≠ [] := by
  have hlead : lead = [] := by
    cases lead with
    | nil => rfl
    | cons d lead =>
      rw [h.eq, List.cons_append, List.head?_cons, Option.all_some,
        h.lead_blank d List.mem_cons_self] at ht
      cases ht
  refine ⟨hlead, ?_⟩
  rintro rfl
  rw [h.eq, hlead] at ht
  cases ht

/-- A character before white space or the end is a word. -/
theorem cons_last (h : LaidOut t lead parts) (hc : c.isBlank = false)
    (ht : t.head?.all CodePoint.isBlank = true) : LaidOut (c :: t) [] (([c], lead) :: parts) where
  eq := by rw [h.eq]; simp
  words := by
    cases hparts : parts with
    | nil => exact words_of_last hc (by rw [h.words, hparts, List.map_nil])
    | cons p rest =>
      cases t with
      | nil =>
        have hwords := h.words
        rw [hparts] at hwords
        cases hwords
      | cons d s =>
        rw [words_of_not_blank hc (h.words.trans (by rw [hparts, List.map_cons])),
          if_pos (by simpa using ht), List.map_cons, List.map_cons]
  gaps := by rw [Text.gaps, if_neg (by simp [hc]), if_pos ht, h.gaps, List.map_cons]
  lead_blank := by simp
  word := List.forall_mem_cons.mpr ⟨⟨List.cons_ne_nil _ _, by simpa using hc⟩, h.word⟩
  gap_blank := List.forall_mem_cons.mpr ⟨h.lead_blank, h.gap_blank⟩
  gap_ne_nil := by
    cases parts with
    | nil => simp
    | cons p rest =>
      rw [List.dropLast_cons_cons]
      refine List.forall_mem_cons.mpr ⟨?_, h.gap_ne_nil⟩
      -- The next word does not follow at once.
      rintro rfl
      obtain ⟨d, s, rfl, hd⟩ := h.head?_of_nil
      rw [List.head?_cons, Option.all_some, hd] at ht
      cases ht

/-- A character before a word belongs to the word. -/
theorem cons_word {w gap : Text} (h : LaidOut t [] ((w, gap) :: parts)) (hc : c.isBlank = false) :
    LaidOut (c :: t) [] ((c :: w, gap) :: parts) where
  eq := by rw [h.eq]; simp
  words := by
    obtain ⟨d, s, rfl, hd⟩ := h.head?_of_nil
    rw [words_of_not_blank hc (h.words.trans List.map_cons), if_neg (by simp [hd]), List.map_cons]
  gaps := by
    obtain ⟨d, s, rfl, hd⟩ := h.head?_of_nil
    rw [Text.gaps, if_neg (by simp [hc]), if_neg (by simp [hd]), h.gaps, List.map_cons, List.map_cons]
  lead_blank := by simp
  word := by
    obtain ⟨⟨-, hw⟩, hword⟩ := List.forall_mem_cons.mp h.word
    exact List.forall_mem_cons.mpr
      ⟨⟨List.cons_ne_nil _ _, List.forall_mem_cons.mpr ⟨hc, hw⟩⟩, hword⟩
  gap_blank := List.forall_mem_cons.mpr (List.forall_mem_cons.mp h.gap_blank)
  gap_ne_nil := by
    have hgap := h.gap_ne_nil
    cases parts with
    | nil => simp
    | cons p rest =>
      rw [List.dropLast_cons_cons] at hgap ⊢
      exact List.forall_mem_cons.mpr (List.forall_mem_cons.mp hgap)

end LaidOut

/-- Every text is its words and gaps. -/
theorem exists_laidOut (t : Text) : ∃ lead parts, LaidOut t lead parts := by
  induction t with
  | nil => exact ⟨[], [], .nil⟩
  | cons c r ih =>
    obtain ⟨lead, parts, h⟩ := ih
    cases hc : c.isBlank with
    | true => exact ⟨_, _, h.cons_blank hc⟩
    | false =>
      cases hr : r.head?.all CodePoint.isBlank with
      | true => exact ⟨_, _, h.cons_last hc hr⟩
      | false =>
        obtain ⟨rfl, hne⟩ := h.lead_eq_nil hr
        obtain ⟨p, rest, rfl⟩ := List.exists_cons_of_ne_nil hne
        exact ⟨_, _, h.cons_word hc⟩

/-- The words of a text have no white space. -/
theorem not_blank_of_mem_words {t w : Text} (hw : w ∈ t.words) : ∀ c ∈ w, c.isBlank = false := by
  obtain ⟨lead, parts, h⟩ := exists_laidOut t
  rw [h.words] at hw
  obtain ⟨p, hp, rfl⟩ := List.mem_map.mp hw
  exact (h.word p hp).2

/-! ### First and last characters -/

section Ends

variable {P : CodePoint → Prop} {t : Text}

/-- What holds of the last character of a text holds of the last one of what is behind some part of it. -/
theorem last_of_append (front : Text) (h : ∀ c, (front ++ t).getLast? = some c → P c) :
    ∀ c, t.getLast? = some c → P c := by
  intro c hc
  refine h c ?_
  rw [List.getLast?_append, hc]
  rfl

/-- What holds of the first character of a text holds of the first one of what is before some part of it. -/
theorem head_of_append (rest : Text) (h : ∀ c, (t ++ rest).head? = some c → P c) :
    ∀ c, t.head? = some c → P c := by
  intro c hc
  refine h c ?_
  rw [List.head?_append, hc]
  rfl

/-- What holds of the last characters of two texts holds of the last one of both, one behind the other. -/
theorem last_append {front : Text} (hfront : ∀ c, front.getLast? = some c → P c)
    (h : ∀ c, t.getLast? = some c → P c) : ∀ c, (front ++ t).getLast? = some c → P c := by
  intro c hc
  rw [List.getLast?_append] at hc
  cases ht : t.getLast? with
  | none =>
    rw [ht, Option.none_or] at hc
    exact hfront c hc
  | some d =>
    rw [ht, Option.some_or] at hc
    exact h c (ht.trans hc)

/-- The same of the first characters. -/
theorem head_append {rest : Text} (hrest : ∀ c, rest.head? = some c → P c)
    (h : ∀ c, t.head? = some c → P c) : ∀ c, (t ++ rest).head? = some c → P c := by
  intro c hc
  cases t with
  | nil => exact hrest c hc
  | cons d t => exact h c hc

end Ends

/-! ### Spreading -/

/-- The other text has one or more white spaces in the place of every white space, and is the same
otherwise. -/
inductive Spread : Text → Text → Prop
  | nil : Spread [] []
  | own (c : CodePoint) {t u : Text} (hc : c.isBlank = false) (h : Spread t u) : Spread (c :: t) (c :: u)
  | blank (c : CodePoint) {t u run : Text} (hc : c.isBlank = true) (hne : run ≠ [])
    (hrun : ∀ d ∈ run, d.isBlank = true) (h : Spread t u) : Spread (c :: t) (run ++ u)

namespace Spread

variable {a b t u v : Text}

/-- What is not white space is spread to itself. -/
theorem refl_of_not_blank (h : ∀ c ∈ t, c.isBlank = false) : Spread t t := by
  induction t with
  | nil => exact .nil
  | cons c t ih =>
    obtain ⟨hc, ht⟩ := List.forall_mem_cons.mp h
    exact .own c hc (ih ht)

theorem append (h : Spread a u) (h' : Spread b v) : Spread (a ++ b) (u ++ v) := by
  induction h with
  | nil => exact h'
  | own c hc _ ih => exact .own c hc ih
  | blank c hc hne hrun _ ih =>
    rw [List.append_assoc]
    exact .blank c hc hne hrun ih

/-- A text in two parts is spread to two parts. -/
theorem exists_of_append_left (h : Spread (a ++ b) u) :
    ∃ v w, u = v ++ w ∧ Spread a v ∧ Spread b w := by
  induction a generalizing u with
  | nil => exact ⟨[], u, rfl, .nil, h⟩
  | cons c a ih =>
    cases h with
    | own _ hc h =>
      obtain ⟨v, w, rfl, ha, hb⟩ := ih h
      exact ⟨c :: v, w, rfl, .own c hc ha, hb⟩
    | blank _ hc hne hrun h =>
      obtain ⟨v, w, rfl, ha, hb⟩ := ih h
      exact ⟨_ ++ v, w, (List.append_assoc ..).symm, .blank c hc hne hrun ha, hb⟩

/-- What is spread to two parts is in two parts, if the border is not inside white space. -/
theorem exists_of_append_right (h : Spread t (u ++ v))
    (hborder : (∀ c, u.getLast? = some c → c.isBlank = false) ∨
      ∀ c, v.head? = some c → c.isBlank = false) :
    ∃ a b, t = a ++ b ∧ Spread a u ∧ Spread b v := by
  generalize huv : u ++ v = w at h
  induction h generalizing u with
  | nil =>
    obtain ⟨rfl, rfl⟩ := List.append_eq_nil_iff.mp huv
    exact ⟨[], [], rfl, .nil, .nil⟩
  | @own c t w hc h ih =>
    cases u with
    | nil =>
      obtain rfl : v = c :: w := huv
      exact ⟨[], c :: t, rfl, .nil, .own c hc h⟩
    | cons d u =>
      obtain ⟨rfl, hw⟩ := List.cons.inj huv
      obtain ⟨a, b, rfl, ha, hb⟩ := ih (hborder.imp_left (last_of_append [d])) hw
      exact ⟨d :: a, b, rfl, .own d hc ha, hb⟩
  | @blank c t w run hc hne hrun h ih =>
    rcases List.append_eq_append_iff.mp huv with ⟨more, rfl, rfl⟩ | ⟨more, rfl, rfl⟩
    · -- The border is in the run, so that it is at one of its ends.
      obtain ⟨hu, hmore⟩ := List.forall_mem_append.mp hrun
      rcases List.eq_nil_or_concat u with rfl | ⟨u, d, rfl⟩
      · exact ⟨[], c :: t, rfl, .nil, .blank c hc hne hrun h⟩
      · rw [List.concat_eq_append] at *
        cases more with
        | nil =>
          have hne' : u ++ [d] ≠ [] := List.append_ne_nil_of_right_ne_nil u (List.cons_ne_nil d [])
          have hrun' := Spread.blank c hc hne' hu .nil
          exact ⟨[c], t, rfl, by simpa using hrun', h⟩
        | cons e more =>
          rcases hborder with hleft | hright
          · have hd := hleft d (List.getLast?_concat ..)
            rw [hu d (by simp)] at hd
            cases hd
          · have he := hright e rfl
            rw [hmore e List.mem_cons_self] at he
            cases he
    · obtain ⟨a, b, rfl, ha, hb⟩ := ih (hborder.imp_left (last_of_append run)) rfl
      exact ⟨c :: a, b, rfl, .blank c hc hne hrun ha, hb⟩

/-- Parts of a text are spread one by one. -/
theorem exists_of_flatten_left {parts : List Text} (h : Spread parts.flatten u) :
    ∃ parts', u = parts'.flatten ∧ List.Forall₂ Spread parts parts' := by
  induction parts generalizing u with
  | nil =>
    cases h
    exact ⟨[], rfl, .nil⟩
  | cons part parts ih =>
    obtain ⟨v, w, rfl, hpart, hparts⟩ := exists_of_append_left (List.flatten_cons ▸ h)
    obtain ⟨parts', rfl, hall⟩ := ih hparts
    exact ⟨v :: parts', rfl, .cons hpart hall⟩

theorem eq_nil_iff (h : Spread t u) : t = [] ↔ u = [] := by
  cases h with
  | nil => exact Iff.rfl
  | own c _ _ => exact iff_of_false (List.cons_ne_nil _ _) (List.cons_ne_nil _ _)
  | blank c _ hne _ _ =>
    exact iff_of_false (List.cons_ne_nil _ _) (List.append_ne_nil_of_left_ne_nil hne _)

/-- A text is white space exactly if what it is spread to is. -/
theorem isBlank_iff (h : Spread t u) :
    (∀ c ∈ t, c.isBlank = true) ↔ ∀ c ∈ u, c.isBlank = true := by
  induction h with
  | nil => exact Iff.rfl
  | own c hc _ ih => rw [List.forall_mem_cons, List.forall_mem_cons, ih]
  | blank c hc _ hrun _ ih =>
    rw [List.forall_mem_cons, List.forall_mem_append, ih]
    exact ⟨fun ⟨_, ht⟩ => ⟨hrun, ht⟩, fun ⟨_, hu⟩ => ⟨hc, hu⟩⟩

/-- A text has no white space exactly if what it is spread to has none. -/
theorem not_blank_iff (h : Spread t u) :
    (∀ c ∈ t, c.isBlank = false) ↔ ∀ c ∈ u, c.isBlank = false := by
  induction h with
  | nil => exact Iff.rfl
  | own c hc _ ih => rw [List.forall_mem_cons, List.forall_mem_cons, ih]
  | @blank c t u run hc hne hrun _ _ =>
    obtain ⟨d, hd⟩ := List.exists_mem_of_ne_nil run hne
    refine iff_of_false (fun h => ?_) fun h => ?_
    · rw [h c List.mem_cons_self] at hc
      cases hc
    · have hblank := hrun d hd
      rw [h d (List.mem_append_left u hd)] at hblank
      cases hblank

/-- A text without white space is spread to itself only. -/
theorem eq_of_not_blank (h : Spread t u) (ht : ∀ c ∈ t, c.isBlank = false) : t = u := by
  induction h with
  | nil => rfl
  | own c _ _ ih => rw [ih (List.forall_mem_cons.mp ht).2]
  | blank c hc =>
    rw [(List.forall_mem_cons.mp ht).1] at hc
    cases hc

/-- What holds of all white space holds of the first character of a text exactly if it holds of the first
one of what it is spread to. -/
theorem head_iff (h : Spread t u) {P : CodePoint → Prop} (hP : ∀ c : CodePoint, c.isBlank = true → P c) :
    (∀ c, t.head? = some c → P c) ↔ ∀ c, u.head? = some c → P c := by
  cases h with
  | nil => exact Iff.rfl
  | own c _ _ => exact Iff.rfl
  | @blank c t u run hc hne hrun _ =>
    obtain ⟨d, run, rfl⟩ := List.exists_cons_of_ne_nil hne
    have hd := hP d (hrun d List.mem_cons_self)
    exact iff_of_true (fun e he => Option.some.inj he ▸ hP c hc) fun e he => Option.some.inj he ▸ hd

/-- What holds of all white space holds of the last character of a text exactly if it holds of the last
one of what it is spread to. -/
theorem last_iff (h : Spread t u) {P : CodePoint → Prop} (hP : ∀ c : CodePoint, c.isBlank = true → P c) :
    (∀ c, t.getLast? = some c → P c) ↔ ∀ c, u.getLast? = some c → P c := by
  rcases List.eq_nil_or_concat t with rfl | ⟨front, d, rfl⟩
  · rw [h.eq_nil_iff.mp rfl]
  · rw [List.concat_eq_append] at h ⊢
    obtain ⟨v, w, rfl, -, hlast⟩ := h.exists_of_append_left
    have hne : w ≠ [] := fun hnil => List.cons_ne_nil d [] (hlast.eq_nil_iff.mpr hnil)
    rw [List.getLast?_concat, List.getLast?_append_of_ne_nil v hne]
    cases hd : d.isBlank with
    | false =>
      -- The last character stays as it is.
      obtain rfl := hlast.eq_of_not_blank (by simpa using hd)
      exact Iff.rfl
    | true =>
      have hw := hlast.isBlank_iff.mp (by simpa using hd)
      exact iff_of_true (fun c hc => Option.some.inj hc ▸ hP d hd)
        fun c hc => hP c (hw c (List.mem_of_getLast? hc))

end Spread

/-! ### Texts of the same words -/

/-- The other text is a spread of a text, with white space around it. -/
def Wider (t t' : Text) : Prop :=
  ∃ before core behind, t' = before ++ core ++ behind ∧ Spread t core ∧
    (∀ c ∈ before, c.isBlank = true) ∧ ∀ c ∈ behind, c.isBlank = true

/-- White space is spread to white space that is no shorter. -/
theorem spread_of_length_le {g g' : Text} (hg : ∀ c ∈ g, c.isBlank = true)
    (hg' : ∀ c ∈ g', c.isBlank = true) (hne : g ≠ []) (hle : g.length ≤ g'.length) : Spread g g' := by
  induction g generalizing g' with
  | nil => exact absurd rfl hne
  | cons c g ih =>
    obtain ⟨hc, hg⟩ := List.forall_mem_cons.mp hg
    by_cases hlast : g = []
    · subst hlast
      have hne' : g' ≠ [] := List.ne_nil_of_length_pos (Nat.lt_of_lt_of_le (Nat.succ_pos _) hle)
      simpa using Spread.blank c hc hne' hg' .nil
    · cases g' with
      | nil => cases hle
      | cons d g' =>
        obtain ⟨hd, hg'⟩ := List.forall_mem_cons.mp hg'
        have hrest := ih hg hg' hlast (Nat.le_of_succ_le_succ hle)
        have hfirst : ∀ e ∈ [d], e.isBlank = true := by simpa using hd
        exact .blank c hc (List.cons_ne_nil d []) hfirst hrest

/-- The same words, each with white space behind it that is no shorter. -/
theorem exists_spread_of_words {parts parts' : List (Text × Text)}
    (hword : ∀ p ∈ parts, ∀ c ∈ p.1, c.isBlank = false)
    (hgap : ∀ p ∈ parts, ∀ c ∈ p.2, c.isBlank = true)
    (hgap' : ∀ p ∈ parts', ∀ c ∈ p.2, c.isBlank = true)
    (hinner : ∀ p ∈ parts.dropLast, p.2 ≠ [])
    (hwords : parts.map Prod.fst = parts'.map Prod.fst)
    (hlengths : List.Forall₂ (fun g g' : Text => g.length ≤ g'.length)
      (parts.map Prod.snd) (parts'.map Prod.snd)) :
    ∃ core behind, (parts'.flatMap fun p => p.1 ++ p.2) = core ++ behind ∧
      Spread (parts.flatMap fun p => p.1 ++ p.2) core ∧ ∀ c ∈ behind, c.isBlank = true := by
  induction parts generalizing parts' with
  | nil =>
    obtain rfl := List.map_eq_nil_iff.mp hwords.symm
    exact ⟨[], [], rfl, .nil, by simp⟩
  | cons p parts ih =>
    cases parts' with
    | nil => cases hwords
    | cons p' parts' =>
      obtain ⟨hfirst, hwords⟩ := List.cons.inj hwords
      cases hlengths with
      | cons hle hlengths =>
        obtain ⟨hp, hword⟩ := List.forall_mem_cons.mp hword
        obtain ⟨hg, hgap⟩ := List.forall_mem_cons.mp hgap
        obtain ⟨hg', hgap'⟩ := List.forall_mem_cons.mp hgap'
        have hfirst : Spread p.1 p'.1 := by
          rw [← show p.1 = p'.1 from hfirst]
          exact Spread.refl_of_not_blank hp
        by_cases hend : parts = [] ∧ p.2 = []
        · -- Nothing follows the last word; what follows it in the other text is left over.
          obtain ⟨rfl, hnil⟩ := hend
          obtain rfl := List.map_eq_nil_iff.mp hwords.symm
          refine ⟨p'.1, p'.2, by simp, by simpa [hnil] using hfirst, hg'⟩
        · have hne : p.2 ≠ [] := by
            intro hnil
            obtain ⟨q, rest, rfl⟩ := List.exists_cons_of_ne_nil fun h => hend ⟨h, hnil⟩
            rw [List.dropLast_cons_cons] at hinner
            exact hinner p List.mem_cons_self hnil
          have hrest : ∀ q ∈ parts.dropLast, q.2 ≠ [] := by
            intro q hq
            cases parts with
            | nil => cases hq
            | cons r rest =>
              rw [List.dropLast_cons_cons] at hinner
              exact hinner q (List.mem_cons_of_mem p hq)
          obtain ⟨core, behind, heq, hspread, hbehind⟩ := ih hword hgap hgap' hrest hwords hlengths
          refine ⟨p'.1 ++ p'.2 ++ core, behind, by simp [heq], ?_, hbehind⟩
          exact (hfirst.append (spread_of_length_le hg hg' hne hle)).append hspread

/-- A text of the same words with gaps that are no shorter is wider. -/
theorem wider_of_gaps {t t' : Text} (hwords : t.words = t'.words)
    (hgaps : List.Forall₂ (fun g g' : Text => g.length ≤ g'.length) t.gaps t'.gaps) : Wider t t' := by
  obtain ⟨lead, parts, h⟩ := exists_laidOut t
  obtain ⟨lead', parts', h'⟩ := exists_laidOut t'
  rw [h.gaps, h'.gaps] at hgaps
  rw [h.words, h'.words] at hwords
  cases hgaps with
  | cons hle hlengths =>
    obtain ⟨core, behind, heq, hspread, hbehind⟩ := exists_spread_of_words
      (fun p hp => (h.word p hp).2) h.gap_blank h'.gap_blank h.gap_ne_nil hwords hlengths
    rw [h.eq, h'.eq, heq]
    by_cases hlead : lead = []
    · subst hlead
      exact ⟨lead', core, behind, by simp, hspread, h'.lead_blank, hbehind⟩
    · have hfront := spread_of_length_le h.lead_blank h'.lead_blank hlead hle
      exact ⟨[], lead' ++ core, behind, by simp, hfront.append hspread, by simp, hbehind⟩

/-- Words with single spaces between them are spread to the same words with more white space. -/
theorem exists_spread_join {parts : List (Text × Text)} (hword : ∀ p ∈ parts, ∀ c ∈ p.1, c.isBlank = false)
    (hgap : ∀ p ∈ parts, ∀ c ∈ p.2, c.isBlank = true) (hinner : ∀ p ∈ parts.dropLast, p.2 ≠ []) :
    ∃ core behind, (parts.flatMap fun p => p.1 ++ p.2) = core ++ behind ∧
      Spread (join " " (parts.map Prod.fst)) core ∧ ∀ c ∈ behind, c.isBlank = true := by
  induction parts with
  | nil => exact ⟨[], [], rfl, .nil, by simp⟩
  | cons p parts ih =>
    obtain ⟨hp, hword⟩ := List.forall_mem_cons.mp hword
    obtain ⟨hg, hgap⟩ := List.forall_mem_cons.mp hgap
    have hfirst := Spread.refl_of_not_blank hp
    cases parts with
    | nil => exact ⟨p.1, p.2, by simp, by simpa [join] using hfirst, hg⟩
    | cons q parts =>
      rw [List.dropLast_cons_cons] at hinner
      obtain ⟨hne, hinner⟩ := List.forall_mem_cons.mp hinner
      obtain ⟨core, behind, heq, hspread, hbehind⟩ := ih hword hgap hinner
      -- The space between the words is spread to the gap behind the first one.
      have hspaced : Spread " " p.2 := by
        refine spread_of_length_le ?_ hg (List.cons_ne_nil _ _) (List.length_pos_of_ne_nil hne)
        exact List.forall_mem_singleton.mpr CodePoint.isBlank_space
      refine ⟨p.1 ++ p.2 ++ core, behind, by rw [List.flatMap_cons, heq]; simp, ?_, hbehind⟩
      rw [List.map_cons, List.map_cons, join_cons_cons]
      exact (hfirst.append hspaced).append hspread

/-- A text is wider than its words with single spaces between them. -/
theorem wider_join_words (t : Text) : Wider (join " " t.words) t := by
  obtain ⟨lead, parts, h⟩ := exists_laidOut t
  obtain ⟨core, behind, heq, hspread, hbehind⟩ :=
    exists_spread_join (fun p hp => (h.word p hp).2) h.gap_blank h.gap_ne_nil
  rw [h.words]
  exact ⟨lead, core, behind, by rw [h.eq, heq]; simp, hspread, h.lead_blank, hbehind⟩

/-! ### Parts without white space at their ends -/

/-- A text that neither begins nor ends with white space. -/
structure Tight (t : Text) : Prop where
  ne_nil : t ≠ []
  head : ∀ c, t.head? = some c → c.isBlank = false
  last : ∀ c, t.getLast? = some c → c.isBlank = false

theorem tight_of_not_blank {t : Text} (hne : t ≠ []) (h : ∀ c ∈ t, c.isBlank = false) : Tight t where
  ne_nil := hne
  head := fun c hc => h c (List.mem_of_head? hc)
  last := fun c hc => h c (List.mem_of_getLast? hc)

/-- Two such texts are one, whatever stands between them. -/
theorem Tight.append {a b : Text} (ha : Tight a) (hb : Tight b) (between : Text) :
    Tight (a ++ (between ++ b)) where
  ne_nil := List.append_ne_nil_of_left_ne_nil ha.ne_nil _
  head := by
    rw [List.head?_append_of_ne_nil _ ha.ne_nil]
    exact ha.head
  last := by
    rw [← List.append_assoc, List.getLast?_append_of_ne_nil _ hb.ne_nil]
    exact hb.last

/-- A part that does not begin with white space is not in the white space in front of a text. -/
theorem exists_of_blank_append {before t front w rest : Text} (hbefore : ∀ c ∈ before, c.isBlank = true)
    (hw : Tight w) (h : before ++ t = front ++ w ++ rest) :
    ∃ front', front = before ++ front' ∧ t = front' ++ w ++ rest := by
  rw [List.append_assoc] at h
  rcases List.append_eq_append_iff.mp h with ⟨front', rfl, rfl⟩ | ⟨more, rfl, hmore⟩
  · exact ⟨front', rfl, by simp⟩
  · cases more with
    | nil => exact ⟨[], by simp, by simpa using hmore.symm⟩
    | cons d more =>
      have hhead : w.head? = some d := by
        have happend : (w ++ rest).head? = w.head? := List.head?_append_of_ne_nil w hw.ne_nil
        rw [← happend, hmore]
        rfl
      have hd := hw.head d hhead
      rw [hbefore d (by simp)] at hd
      cases hd

/-- A part that does not end with white space is not in the white space behind a text. -/
theorem exists_of_append_blank {t behind front w rest : Text} (hbehind : ∀ c ∈ behind, c.isBlank = true)
    (hw : Tight w) (h : t ++ behind = front ++ w ++ rest) :
    ∃ rest', rest = rest' ++ behind ∧ t = front ++ w ++ rest' := by
  rcases List.append_eq_append_iff.mp h with ⟨more, hmore, rfl⟩ | ⟨rest', rfl, rfl⟩
  · rcases List.eq_nil_or_concat more with rfl | ⟨more, d, rfl⟩
    · exact ⟨[], by simp, by simpa using hmore.symm⟩
    · have hlast : w.getLast? = some d := by
        rw [← List.getLast?_append_of_ne_nil front hw.ne_nil, hmore]
        simp
      have hd := hw.last d hlast
      rw [hbehind d (by simp)] at hd
      cases hd
  · exact ⟨rest', rfl, rfl⟩

end TitleClasses.Text
