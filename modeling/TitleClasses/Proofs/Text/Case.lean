import Mathlib.Tactic.SplitIfs
import TitleClasses.Text.Case
import TitleClasses.Text.Word

/-!
# Case equality and classes of characters

A class of characters is a list of ranges, and case equality is a list of runs of letters, each with the
way to its lower cases, and of groups. So a class is kept by case equality if every run lies on the same
side of it as its lower cases, and every letter of a group on the same side as the least one:
`covers_caseKey`. White space is kept (`isBlank_of_caseEq`). Word characters are kept with one exception:
the iota below other letters (U+0345) is case-equal to the letter iota, and is no word character
(`isWord_of_caseEq`, `isWord_eq_iff_of_caseEq`).
-/

namespace TitleClasses

/-! ### Ranges -/

/-- Whether one of the ranges holds all numbers between two bounds. -/
def within (rs : List (Nat × Nat)) (low high : Nat) : Bool :=
  rs.any fun r => r.1.ble low && high.ble r.2

/-- Whether none of the ranges holds a number between two bounds. -/
def apart (rs : List (Nat × Nat)) (low high : Nat) : Bool :=
  rs.all fun r => high.blt r.1 || r.2.blt low

/-- Whether one of the ranges holds a number. -/
def covers (rs : List (Nat × Nat)) (n : Nat) : Bool := within rs n n

theorem covers_iff {rs : List (Nat × Nat)} {n : Nat} :
    covers rs n = true ↔ ∃ r ∈ rs, r.1 ≤ n ∧ n ≤ r.2 := by
  simp only [covers, within, List.any_eq_true, Bool.and_eq_true, Nat.ble_eq]

theorem covers_cons (r : Nat × Nat) (rs : List (Nat × Nat)) (n : Nat) :
    covers (r :: rs) n = true ↔ (r.1 ≤ n ∧ n ≤ r.2) ∨ covers rs n = true := by
  simp [covers_iff]

theorem covers_of_within {rs : List (Nat × Nat)} {low high n : Nat}
    (h : within rs low high = true) (hlow : low ≤ n) (hhigh : n ≤ high) : covers rs n = true := by
  simp only [within, List.any_eq_true, Bool.and_eq_true, Nat.ble_eq] at h
  obtain ⟨r, hr, h1, h2⟩ := h
  exact covers_iff.mpr ⟨r, hr, Nat.le_trans h1 hlow, Nat.le_trans hhigh h2⟩

theorem not_covers_of_apart {rs : List (Nat × Nat)} {low high n : Nat}
    (h : apart rs low high = true) (hlow : low ≤ n) (hhigh : n ≤ high) : covers rs n = false := by
  rw [Bool.eq_false_iff]
  intro hc
  obtain ⟨r, hr, h1, h2⟩ := covers_iff.mp hc
  have hside := List.all_eq_true.mp h r hr
  rw [Bool.or_eq_true, Nat.blt_eq, Nat.blt_eq] at hside
  omega

/-- Whether ranges are in increasing order and do not meet, from a number on. -/
def increasing : Nat → List (Nat × Nat) → Bool
  | _, [] => true
  | low, r :: rs => low.ble r.1 && r.1.ble r.2 && increasing (r.2 + 1) rs

theorem not_covers_of_lt {rs : List (Nat × Nat)} {low n : Nat} (h : increasing low rs = true)
    (hn : n < low) : ¬ covers rs n = true := by
  induction rs generalizing low with
  | nil => simp [covers_iff]
  | cons r rs ih =>
    simp only [increasing, Bool.and_eq_true, Nat.ble_eq] at h
    obtain ⟨⟨h1, h2⟩, hrs⟩ := h
    rw [covers_cons, not_or]
    exact ⟨by omega, ih hrs (by omega)⟩

/-- In increasing ranges a number is found exactly if one of them holds it. -/
theorem inRanges_eq_covers {rs : List (Nat × Nat)} {low : Nat} (h : increasing low rs = true)
    (n : Nat) : inRanges rs n = covers rs n := by
  rw [Bool.eq_iff_iff]
  induction rs generalizing low with
  | nil => simp [inRanges, covers_iff]
  | cons r rs ih =>
    obtain ⟨low', high⟩ := r
    simp only [increasing, Bool.and_eq_true, Nat.ble_eq] at h
    obtain ⟨⟨h1, h2⟩, hrs⟩ := h
    rw [inRanges, covers_cons, ← ih hrs]
    by_cases hl : n < low'
    · -- The ranges that follow begin later.
      have hrest : ¬ inRanges rs n = true := by
        rw [ih hrs]
        exact not_covers_of_lt hrs (by omega)
      rw [if_pos hl]
      exact iff_of_false Bool.false_ne_true (not_or.mpr ⟨by simp only; omega, hrest⟩)
    · by_cases hh : n ≤ high
      · rw [if_neg hl, if_pos hh]
        exact iff_of_true rfl (.inl ⟨by omega, hh⟩)
      · rw [if_neg hl, if_neg hh]
        exact ⟨.inr, fun hr => hr.resolve_left (by simp only; omega)⟩

/-! ### Case runs -/

namespace CaseRun

/-- The letters of a run. -/
def letters (r : CaseRun) : List Nat :=
  (List.range ((r.last - r.first) / r.step + 1)).map fun k => r.first + r.step * k

/-- The lower case of a letter of a run. -/
def lower (r : CaseRun) (n : Nat) : Nat := ((n : Int) + r.shift).toNat

/-- Whether a run has a letter. -/
def Has (r : CaseRun) (n : Nat) : Prop := r.first ≤ n ∧ n ≤ r.last ∧ (n - r.first) % r.step = 0

theorem Has.mem_letters {r : CaseRun} {n : Nat} (h : r.Has n) : n ∈ r.letters := by
  obtain ⟨hfirst, hlast, hstep⟩ := h
  have hmul := Nat.mul_div_cancel' (Nat.dvd_of_mod_eq_zero hstep)
  have hle : (n - r.first) / r.step ≤ (r.last - r.first) / r.step :=
    Nat.div_le_div_right (by omega)
  exact List.mem_map.mpr ⟨(n - r.first) / r.step, List.mem_range.mpr (by omega), by omega⟩

/-- Whether the letters between two bounds are on the same side of a class as their lower cases. -/
def together (rs : List (Nat × Nat)) (r : CaseRun) (low high : Nat) : Bool :=
  (within rs low high && within rs (r.lower low) (r.lower high)) ||
    (apart rs low high && apart rs (r.lower low) (r.lower high))

theorem covers_of_together {rs : List (Nat × Nat)} {r : CaseRun} {low high n : Nat}
    (h : r.together rs low high = true) (hlow : low ≤ n) (hhigh : n ≤ high) :
    covers rs (r.lower n) = covers rs n := by
  have hlow' : r.lower low ≤ r.lower n := by unfold lower; omega
  have hhigh' : r.lower n ≤ r.lower high := by unfold lower; omega
  simp only [together, Bool.or_eq_true, Bool.and_eq_true] at h
  rcases h with ⟨hupper, hlower⟩ | ⟨hupper, hlower⟩
  · rw [covers_of_within hupper hlow hhigh, covers_of_within hlower hlow' hhigh']
  · rw [not_covers_of_apart hupper hlow hhigh, not_covers_of_apart hlower hlow' hhigh']

/-- Whether a class keeps a run, looking at the run as a whole first. -/
def keptBy (rs : List (Nat × Nat)) (r : CaseRun) : Bool :=
  r.together rs r.first r.last || r.letters.all fun n => r.together rs n n

theorem covers_of_keptBy {rs : List (Nat × Nat)} {r : CaseRun} {n : Nat}
    (h : r.keptBy rs = true) (hn : r.Has n) : covers rs (r.lower n) = covers rs n := by
  rw [keptBy, Bool.or_eq_true] at h
  rcases h with hwhole | hletters
  · exact covers_of_together hwhole hn.1 hn.2.1
  · exact covers_of_together (List.all_eq_true.mp hletters n hn.mem_letters) (Nat.le_refl n) (Nat.le_refl n)

end CaseRun

/-- A letter is its own lower case or has one by the run it is in. -/
theorem lowerBy_cases (runs : List CaseRun) (n : Nat) :
    lowerBy runs n = n ∨ ∃ r ∈ runs, r.Has n ∧ lowerBy runs n = r.lower n := by
  induction runs with
  | nil => exact .inl rfl
  | cons r rs ih =>
    rw [lowerBy]
    split_ifs with hfirst hlast hstep
    · exact .inl rfl
    · exact .inr ⟨r, List.mem_cons_self, ⟨by omega, hlast, hstep⟩, rfl⟩
    · exact .inl rfl
    · exact ih.imp_right fun ⟨s, hs, h⟩ => ⟨s, List.mem_cons_of_mem r hs, h⟩

/-! ### Keys -/

/-- Whether a class is kept by case equality. -/
def keptByCase (rs : List (Nat × Nat)) : Bool :=
  caseRuns.all (·.keptBy rs) && caseGroups.all fun g => covers rs g.1 == covers rs g.2

/-- A character is in a class that is kept by case equality exactly if its key is. -/
theorem covers_caseKey {rs : List (Nat × Nat)} (h : keptByCase rs = true) (c : CodePoint) :
    covers rs c.caseKey = covers rs c.val := by
  rw [keptByCase, Bool.and_eq_true, List.all_eq_true, List.all_eq_true] at h
  obtain ⟨hruns, hgroups⟩ := h
  have hlower : covers rs (lowerBy caseRuns c.val) = covers rs c.val := by
    rcases lowerBy_cases caseRuns c.val with heq | ⟨r, hr, hhas, heq⟩
    · rw [heq]
    · rw [heq]
      exact CaseRun.covers_of_keptBy (hruns r hr) hhas
  rw [← hlower]
  unfold CodePoint.caseKey
  dsimp only
  cases hlook : caseGroups.lookup (lowerBy caseRuns c.val) with
  | none => rfl
  | some least =>
    have hmem : (lowerBy caseRuns c.val, least) ∈ caseGroups := by
      obtain ⟨l₁, l₂, heq, -⟩ := List.lookup_eq_some_iff.mp hlook
      rw [heq]
      exact List.mem_append_right l₁ List.mem_cons_self
    exact (beq_iff_eq.mp (hgroups _ hmem)).symm

/-- Characters that differ in case only are on the same side of a class that is kept. -/
theorem covers_of_caseEq {rs : List (Nat × Nat)} (h : keptByCase rs = true) {c d : CodePoint}
    (heq : c.caseEq d = true) : covers rs c.val = covers rs d.val := by
  rw [← covers_caseKey h c, ← covers_caseKey h d, beq_iff_eq.mp heq]

namespace CodePoint

/-! ### Case equality -/

/-- Characters that differ in case only have the same key. -/
theorem caseEq_equivalence : Equivalence fun c d : CodePoint => c.caseEq d = true where
  refl := fun c => beq_self_eq_true c.caseKey
  symm := fun h => beq_iff_eq.mpr (beq_iff_eq.mp h).symm
  trans := fun h h' => beq_iff_eq.mpr ((beq_iff_eq.mp h).trans (beq_iff_eq.mp h'))

theorem caseEq_congr {c c' d d' : CodePoint} (hc : c.caseEq c' = true) (hd : d.caseEq d' = true) :
    c.caseEq d = c'.caseEq d' := by
  unfold caseEq
  rw [beq_iff_eq.mp hc, beq_iff_eq.mp hd]

/-- A character that is a class of its own, kept by case equality, differs in case from none. -/
theorem eq_iff_of_caseEq {sign c d : CodePoint} (hsign : keptByCase [(sign.val, sign.val)] = true)
    (h : c.caseEq d = true) : c = sign ↔ d = sign := by
  have hcovers (c : CodePoint) : covers [(sign.val, sign.val)] c.val = true ↔ c = sign := by
    rw [covers_iff]
    simp only [List.mem_singleton, exists_eq_left, Fin.ext_iff]
    omega
  rw [← hcovers c, ← hcovers d, covers_of_caseEq hsign h]

/-! ### White space and word characters -/

theorem isBlank_eq_covers (c : CodePoint) : c.isBlank = covers blankRanges c.val := by
  have hincreasing : increasing 0 blankRanges = true := by decide +kernel
  exact inRanges_eq_covers hincreasing c.val

theorem isWord_eq_covers (c : CodePoint) : c.isWord = covers wordRanges c.val := by
  have hincreasing : increasing 0 wordRanges = true := by decide +kernel
  exact inRanges_eq_covers hincreasing c.val

/-- No word character is white space. -/
theorem isBlank_of_isWord {c : CodePoint} (h : c.isWord = true) : c.isBlank = false := by
  have hapart : blankRanges.all (fun r => apart wordRanges r.1 r.2) = true := by decide +kernel
  rw [Bool.eq_false_iff]
  intro hb
  rw [isBlank_eq_covers] at hb
  obtain ⟨r, hr, hlow, hhigh⟩ := covers_iff.mp hb
  rw [isWord_eq_covers, not_covers_of_apart (List.all_eq_true.mp hapart r hr) hlow hhigh] at h
  cases h

/-- White space is no word character. -/
theorem isWord_of_isBlank {c : CodePoint} (h : c.isBlank = true) : c.isWord = false := by
  rw [Bool.eq_false_iff]
  intro hw
  rw [isBlank_of_isWord hw] at h
  cases h

/-- A character is white space exactly if those that differ from it in case are. -/
theorem isBlank_of_caseEq {c d : CodePoint} (h : c.caseEq d = true) : c.isBlank = d.isBlank := by
  rw [isBlank_eq_covers, isBlank_eq_covers]
  exact covers_of_caseEq (by decide +kernel) h

/-- The iota below other letters: a combining mark, whose capital is the capital of the letter iota. -/
def iotaBelow : CodePoint := CodePoint.ofNat 0x345

/-- What differs in case only from a word character is one too, unless it is the iota below. -/
theorem isWord_of_caseEq {c d : CodePoint} (h : c.caseEq d = true) (hc : c.isWord = true)
    (hd : d ≠ iotaBelow) : d.isWord = true := by
  -- Together with the iota below the word characters are kept.
  have hkept : keptByCase ((0x345, 0x345) :: wordRanges) = true := by decide +kernel
  have hsame := covers_of_caseEq hkept h
  rw [isWord_eq_covers] at hc ⊢
  have hcovers := (covers_cons _ _ _).mp (hsame ▸ (covers_cons (0x345, 0x345) _ _).mpr (.inr hc))
  refine hcovers.resolve_left fun hiota => hd (Fin.ext ?_)
  exact Nat.le_antisymm hiota.2 hiota.1

/-- The iota below is case-equal to the letter iota, which is a word character. -/
theorem caseEq_iotaBelow :
    let iota : CodePoint := ('\u03b9' : Char)
    iota.caseEq iotaBelow = true ∧ iota.isWord = true ∧ iotaBelow.isWord = false := by
  decide +kernel

/-- Of two characters that differ in case only both are word characters or none, unless just one of them is
the iota below. -/
theorem isWord_eq_iff_of_caseEq {c d : CodePoint} (h : c.caseEq d = true) :
    c.isWord = d.isWord ↔ (c = iotaBelow ↔ d = iotaBelow) := by
  -- What differs in case only from the iota below does so from the letter iota.
  have hiota {c d : CodePoint} (h : c.caseEq d = true) (hc : c = iotaBelow) (hd : d ≠ iotaBelow) :
      c.isWord = false ∧ d.isWord = true := by
    obtain ⟨hequal, hletter, hbelow⟩ := caseEq_iotaBelow
    subst hc
    exact ⟨hbelow, isWord_of_caseEq (caseEq_equivalence.trans hequal h) hletter hd⟩
  have hsymm := caseEq_equivalence.symm h
  by_cases hc : c = iotaBelow
  · by_cases hd : d = iotaBelow
    · exact iff_of_true (by rw [hc, hd]) (iff_of_true hc hd)
    · obtain ⟨hcw, hdw⟩ := hiota h hc hd
      exact iff_of_false (by simp [hcw, hdw]) (by simp [hc, hd])
  · by_cases hd : d = iotaBelow
    · obtain ⟨hdw, hcw⟩ := hiota hsymm hd hc
      exact iff_of_false (by simp [hcw, hdw]) (by simp [hc, hd])
    · refine iff_of_true (Bool.eq_iff_iff.mpr ⟨fun hw => ?_, fun hw => ?_⟩) (iff_of_false hc hd)
      · exact isWord_of_caseEq h hw hd
      · exact isWord_of_caseEq hsymm hw hc

end CodePoint

end TitleClasses
