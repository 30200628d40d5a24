import TitleClasses.Text.Basic

/-!
# Sets of texts

A set of texts is kept as an increasing list. `sortDistinct` gives an increasing list with the members
that it was given, and there is only one such list: `eq_of_mem_iff`. So the order and the repetitions of
what it was given do not matter (`sortDistinct_congr`), and an increasing list is left as it is
(`sortDistinct_of_increasing`).
-/

namespace TitleClasses.Text

/-- Whether a list of texts is strictly increasing. -/
def Increasing (ts : List Text) : Prop := ts.Pairwise (· < ·)

/-! ### The order of texts -/

theorem notAfter_iff {t u : Text} : t.notAfter u = true ↔ ¬ u < t := by
  unfold notAfter
  rw [Bool.not_eq_true', decide_eq_false_iff_not]

theorem notAfter_trans {t u w : Text} (h : t.notAfter u = true) (h' : u.notAfter w = true) :
    t.notAfter w = true := by
  rw [notAfter_iff, List.not_lt] at h h' ⊢
  exact List.le_trans h h'

theorem notAfter_total (t u : Text) : (t.notAfter u || u.notAfter t) = true := by
  rw [Bool.or_eq_true, notAfter_iff, notAfter_iff, List.not_lt, List.not_lt]
  exact List.le_total t u

theorem eq_of_notAfter {t u : Text} (h : t.notAfter u = true) (h' : u.notAfter t = true) : t = u := by
  rw [notAfter_iff, List.not_lt] at h h'
  exact List.le_antisymm h h'

/-! ### Sets -/

theorem lt_of_not_lt {t u : Text} (h : ¬ t < u) (hne : t ≠ u) : u < t := by
  rcases List.le_iff_lt_or_eq.mp (List.not_lt.mp h) with hlt | heq
  · exact hlt
  · exact absurd heq.symm hne

theorem mem_insertDistinct (t u : Text) (ts : List Text) :
    u ∈ insertDistinct t ts ↔ u = t ∨ u ∈ ts := by
  induction ts with
  | nil => simp [insertDistinct]
  | cons w ws ih =>
    rw [insertDistinct]
    by_cases hlt : t < w
    · rw [if_pos hlt, List.mem_cons]
    · rw [if_neg hlt]
      by_cases heq : t = w
      · rw [if_pos heq, heq, List.mem_cons]
        exact ⟨Or.inr, fun h => h.elim Or.inl id⟩
      · rw [if_neg heq, List.mem_cons, ih, List.mem_cons]
        exact ⟨fun h => h.elim (fun h => Or.inr (Or.inl h)) fun h => h.elim Or.inl fun h =>
          Or.inr (Or.inr h), fun h => h.elim (fun h => Or.inr (Or.inl h)) fun h => h.elim Or.inl
          fun h => Or.inr (Or.inr h)⟩

theorem insertDistinct_increasing (t : Text) {ts : List Text} (h : Increasing ts) :
    Increasing (insertDistinct t ts) := by
  induction ts with
  | nil => exact List.pairwise_singleton ..
  | cons w ws ih =>
    obtain ⟨hw, hws⟩ := List.pairwise_cons.mp h
    rw [insertDistinct]
    by_cases hlt : t < w
    · rw [if_pos hlt]
      refine List.pairwise_cons.mpr ⟨fun u hu => ?_, h⟩
      rcases List.mem_cons.mp hu with rfl | hu
      · exact hlt
      · exact List.lt_trans hlt (hw u hu)
    · rw [if_neg hlt]
      by_cases heq : t = w
      · rw [if_pos heq]
        exact h
      · -- The new text goes further back, where all are greater than the first.
        rw [if_neg heq]
        refine List.pairwise_cons.mpr ⟨fun u hu => ?_, ih hws⟩
        rcases (mem_insertDistinct t u ws).mp hu with rfl | hu
        · exact lt_of_not_lt hlt heq
        · exact hw u hu

/-- The members of a set are those of the list it was made from. -/
theorem mem_sortDistinct (u : Text) (ts : List Text) : u ∈ sortDistinct ts ↔ u ∈ ts := by
  induction ts with
  | nil => simp [sortDistinct]
  | cons t ts ih =>
    show u ∈ insertDistinct t (sortDistinct ts) ↔ _
    rw [mem_insertDistinct, ih, List.mem_cons]

theorem sortDistinct_increasing (ts : List Text) : Increasing (sortDistinct ts) := by
  induction ts with
  | nil => exact List.Pairwise.nil
  | cons t ts ih => exact insertDistinct_increasing t ih

/-- Two increasing lists with the same members are the same. -/
theorem eq_of_mem_iff {ts us : List Text} (ht : Increasing ts) (hu : Increasing us)
    (h : ∀ w, w ∈ ts ↔ w ∈ us) : ts = us := by
  induction ts generalizing us with
  | nil =>
    cases us with
    | nil => rfl
    | cons u us => exact absurd ((h u).mpr List.mem_cons_self) (by simp)
  | cons t ts ih =>
    cases us with
    | nil => exact absurd ((h t).mp List.mem_cons_self) (by simp)
    | cons u us =>
      obtain ⟨htt, hts⟩ := List.pairwise_cons.mp ht
      obtain ⟨huu, hus⟩ := List.pairwise_cons.mp hu
      -- Each head is the least member of its list.
      have hhead : t = u := by
        rcases List.mem_cons.mp ((h t).mp List.mem_cons_self) with htu | htu
        · exact htu
        · rcases List.mem_cons.mp ((h u).mpr List.mem_cons_self) with hut | hut
          · exact hut.symm
          · exact absurd (htt u hut) (List.lt_asymm (huu t htu))
      subst hhead
      rw [ih hts hus]
      intro w
      have hw := h w
      rw [List.mem_cons, List.mem_cons] at hw
      constructor
      · intro hm
        rcases hw.mp (Or.inr hm) with rfl | hm'
        · exact absurd (htt w hm) (List.lt_irrefl w)
        · exact hm'
      · intro hm
        rcases hw.mpr (Or.inr hm) with rfl | hm'
        · exact absurd (huu w hm) (List.lt_irrefl w)
        · exact hm'

/-- Lists with the same members make the same set. -/
theorem sortDistinct_congr {ts us : List Text} (h : ∀ w, w ∈ ts ↔ w ∈ us) :
    sortDistinct ts = sortDistinct us :=
  eq_of_mem_iff (sortDistinct_increasing ts) (sortDistinct_increasing us) fun w => by
    rw [mem_sortDistinct, mem_sortDistinct, h]

/-- A set is made from itself. -/
theorem sortDistinct_of_increasing {ts : List Text} (h : Increasing ts) : sortDistinct ts = ts :=
  eq_of_mem_iff (sortDistinct_increasing ts) h fun w => mem_sortDistinct w ts

theorem sortDistinct_sortDistinct (ts : List Text) :
    sortDistinct (sortDistinct ts) = sortDistinct ts :=
  sortDistinct_of_increasing (sortDistinct_increasing ts)

/-- An increasing list is left as it is when it is put in order. -/
theorem sorted_of_increasing {ts : List Text} (h : Increasing ts) : sorted ts = ts := by
  refine List.mergeSort_of_pairwise (h.imp fun {t u} hlt => ?_)
  simpa [notAfter] using List.lt_asymm hlt

end TitleClasses.Text
