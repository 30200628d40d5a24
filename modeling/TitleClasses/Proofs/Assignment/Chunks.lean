import Mathlib.Data.Rat.Floor
import Mathlib.Tactic.NormNum
import TitleClasses.Assignment.Policy

/-!
# How a list is dealt out

A list is cut at the multiples of a size (`pieces`). As many pieces as it takes to come to the end of it
are the list, and only the last of them may be short (`cuts_pieces`). The size of chunks is the length of
the list divided by the number of parts, rounded up (`chunkSize_eq_ceil`), so that it is not zero unless
the list is empty, and no more pieces are needed than there are parts (`chunked_cuts`).

A policy deals pairs out only when there are several workers and several pairs, so that there always are
chunks for its workers: `Policy.chunked_exact`.
-/

namespace TitleClasses

/-! ### Pieces -/

section Pieces

variable {α : Type}

/-- The first pieces of a list that is cut at the multiples of a size. -/
def pieces (items : List α) (size count : Nat) : List (List α) :=
  (List.range count).map fun i => (items.drop (i * size)).take size

/-- Whether chunks are a list, cut: none is empty, and all have one size but the last, which may be
shorter. -/
structure Cuts (items : List α) (size : Int) (chunks : List (List α)) : Prop where
  flatten : chunks.flatten = items
  ne_nil : ∀ chunk ∈ chunks, chunk ≠ []
  length_eq : ∀ chunk ∈ chunks.dropLast, (chunk.length : Int) = size
  length_le : ∀ chunk ∈ chunks, (chunk.length : Int) ≤ size

theorem length_pieces (items : List α) (size count : Nat) :
    (pieces items size count).length = count := by
  rw [pieces, List.length_map, List.length_range]

theorem mem_pieces {items chunk : List α} {size count : Nat} :
    chunk ∈ pieces items size count ↔ ∃ i < count, (items.drop (i * size)).take size = chunk := by
  simp only [pieces, List.mem_map, List.mem_range]

theorem pieces_succ (items : List α) (size count : Nat) :
    pieces items size (count + 1) =
      pieces items size count ++ [(items.drop (count * size)).take size] := by
  rw [pieces, List.range_succ, List.map_append, List.map_singleton]
  rfl

theorem dropLast_pieces (items : List α) (size count : Nat) :
    (pieces items size count).dropLast = pieces items size (count - 1) := by
  cases count with
  | zero => rfl
  | succ count => rw [pieces_succ, List.dropLast_concat, Nat.add_sub_cancel]

/-- Consecutive pieces of a list, put together. -/
theorem flatten_pieces (items : List α) (size count : Nat) :
    (pieces items size count).flatten = items.take (count * size) := by
  induction count with
  | zero => simp [pieces]
  | succ count ih =>
    rw [pieces_succ, List.flatten_append, ih, Nat.succ_mul, List.take_add, List.flatten_singleton]

/-- As many pieces as it takes to come to the end of a list, and no more, are the list, cut. -/
theorem cuts_pieces {items : List α} {size count : Nat} (hend : items.length ≤ count * size)
    (hmore : count * size < items.length + size) : Cuts items size (pieces items size count) where
  flatten := by rw [flatten_pieces, List.take_of_length_le hend]
  ne_nil := by
    -- Each piece begins before the end.
    intro chunk hchunk
    obtain ⟨i, hi, rfl⟩ := mem_pieces.mp hchunk
    have hstart : (i + 1) * size ≤ count * size := Nat.mul_le_mul_right size hi
    rw [Nat.succ_mul] at hstart
    refine List.ne_nil_of_length_pos ?_
    rw [List.length_take, List.length_drop]
    omega
  length_eq := by
    -- Each piece but the last has another one behind it.
    intro chunk hchunk
    rw [dropLast_pieces] at hchunk
    obtain ⟨i, hi, rfl⟩ := mem_pieces.mp hchunk
    have hnext : (i + 2) * size ≤ count * size := Nat.mul_le_mul_right size (by omega)
    rw [Nat.succ_mul, Nat.succ_mul] at hnext
    rw [List.length_take, List.length_drop]
    omega
  length_le := by
    intro chunk hchunk
    obtain ⟨i, -, rfl⟩ := mem_pieces.mp hchunk
    exact Int.ofNat_le.mpr (List.length_take_le _ _)

end Pieces

/-! ### Chunks -/

section Chunks

variable {α : Type} {parts : Int}

/-- The size of chunks is the number of items for each part, rounded up. -/
theorem chunkSize_eq_ceil (length : Nat) (hparts : 0 < parts) :
    chunkSize length parts = ⌈(length : ℚ) / parts⌉ := by
  obtain ⟨count, rfl⟩ := Int.eq_ofNat_of_zero_le hparts.le
  unfold chunkSize
  rw [Int.fdiv_eq_ediv_of_nonneg _ hparts.le, Int.cast_natCast, Rat.ceil_natCast_div_natCast]

/-- The size of the chunks of a list that is not empty is at least one. -/
theorem chunkSize_pos {length : Nat} (hlength : 0 < length) (hparts : 0 < parts) :
    0 < chunkSize length parts := by
  rw [chunkSize_eq_ceil length hparts, Int.ceil_pos]
  exact div_pos (Nat.cast_pos.mpr hlength) (Int.cast_pos.mpr hparts)

/-- As many chunks as there are parts hold the whole list. -/
theorem length_le_chunkSize_mul (length : Nat) (hparts : 0 < parts) :
    (length : Int) ≤ chunkSize length parts * parts := by
  have hceil := Int.le_ceil ((length : ℚ) / parts)
  rw [← chunkSize_eq_ceil length hparts, div_le_iff₀ (Int.cast_pos.mpr hparts)] at hceil
  exact_mod_cast hceil

/-- The chunks of a list that is not empty are the list, cut in pieces of the size of chunks, and there are
no more than there are parts. -/
theorem chunked_cuts {items : List α} (hitems : items ≠ []) (hparts : 0 < parts) :
    ∃ chunks, chunked items parts = .ok chunks ∧ Cuts items (chunkSize items.length parts) chunks ∧
      (chunks.length : Int) ≤ parts := by
  have hlength : 0 < items.length := List.length_pos_of_ne_nil hitems
  have hsize := chunkSize_pos hlength hparts
  have hhold := length_le_chunkSize_mul items.length hparts
  unfold chunked
  rw [if_neg hparts.ne', if_neg hsize.ne', if_neg hsize.not_gt]
  obtain ⟨size, hnat⟩ := Int.eq_ofNat_of_zero_le hsize.le
  obtain ⟨most, rfl⟩ := Int.eq_ofNat_of_zero_le hparts.le
  rw [hnat] at hsize hhold ⊢
  rw [Int.toNat_natCast]
  have hpos : 0 < size := Int.natCast_pos.mp hsize
  refine ⟨pieces items size ((items.length + size - 1) / size), rfl, cuts_pieces ?_ ?_, ?_⟩
  · have hmod := Nat.mod_lt (items.length + size - 1) hpos
    have hdiv := Nat.div_add_mod (items.length + size - 1) size
    rw [Nat.mul_comm] at hdiv
    omega
  · have hdiv := Nat.div_mul_le_self (items.length + size - 1) size
    omega
  · rw [length_pieces, Int.ofNat_le, Nat.div_le_iff_le_mul_add_pred hpos]
    have hhold' : items.length ≤ size * most := by exact_mod_cast hhold
    omega

/-- The chunks of a list that is not empty are the list, cut. -/
theorem chunked_ok {items : List α} (hitems : items ≠ []) (hparts : 0 < parts) :
    ∃ chunks, chunked items parts = .ok chunks ∧ chunks.flatten = items := by
  obtain ⟨chunks, hchunks, hcuts, -⟩ := chunked_cuts hitems hparts
  exact ⟨chunks, hchunks, hcuts.flatten⟩

end Chunks

/-! ### Chunks for workers -/

namespace Policy

/-- What workers find that are given a chunk each, joined. -/
def assignChunks (subject : Option Text) (chunks : List (List RulePair)) :
    Action Engine (List Text) := do
  let sets ← Action.each (assignChunk subject) chunks
  pure (Text.sortDistinct sets.flatten)

/-- One worker alone, and one with fewer than two pairs, is given the pairs as they are. -/
theorem assign_alone {p : Policy} {pairs : List RulePair} (subject : Option Text)
    (h : p.workers = 1 ∨ pairs.length < 2) : p.assign pairs subject = assignChunk subject pairs := by
  unfold assign
  rw [if_pos (by simpa using h)]

/-- Several workers are given chunks of several pairs. -/
theorem assign_dealt {p : Policy} {pairs : List RulePair} (subject : Option Text)
    (hworkers : 2 ≤ p.workers) (hpairs : 2 ≤ pairs.length) {chunks : List (List RulePair)}
    (hchunks : chunked pairs p.workers = .ok chunks) :
    p.assign pairs subject = assignChunks subject chunks := by
  have hmany : ¬ (p.workers = 1 || pairs.length < 2) = true := by
    simp only [Bool.or_eq_true, decide_eq_true_eq]
    omega
  unfold assign
  rw [if_neg hmany, hchunks]
  rfl

/-- A number of workers below one counts as one. -/
theorem new_workers_pos (termsField classField : Json) (workers : Int) :
    0 < (new termsField classField workers).workers := by
  show 0 < (max 1 workers).toNat
  omega

/-- A policy with workers either gives the pairs to one of them as they are, or deals out several pairs in
chunks among several workers. -/
theorem assign_cases {p : Policy} (hworkers : 0 < p.workers) (pairs : List RulePair)
    (subject : Option Text) :
    (p.workers < 2 ∨ pairs.length < 2) ∧ p.assign pairs subject = assignChunk subject pairs ∨
      2 ≤ p.workers ∧ 2 ≤ pairs.length ∧
        ∃ chunks, chunked pairs p.workers = .ok chunks ∧ chunks.flatten = pairs ∧
          p.assign pairs subject = assignChunks subject chunks := by
  by_cases h : p.workers < 2 ∨ pairs.length < 2
  · refine .inl ⟨h, assign_alone subject ?_⟩
    omega
  · rw [not_or, not_lt, not_lt] at h
    obtain ⟨hseveral, hpairs⟩ := h
    have hne : pairs ≠ [] := List.ne_nil_of_length_pos (by omega)
    obtain ⟨chunks, hchunks, hflatten⟩ := chunked_ok hne (Int.natCast_pos.mpr hworkers)
    exact .inr ⟨hseveral, hpairs, chunks, hchunks, hflatten, assign_dealt subject hseveral hpairs hchunks⟩

/-- A list that is not empty has chunks for any number of parts from one. They are the list, cut in pieces
of as many items as there are for each part, rounded up, and there are no more of them than there are
parts. A policy deals pairs out only when there are at least two workers and at least two pairs, so that
the size of chunks is not zero either; then the workers are given the chunks. Otherwise one worker is
given the pairs as they are. -/
theorem chunked_exact :
    (∀ {α : Type} (items : List α) (parts : Int), items ≠ [] → 1 ≤ parts →
      ∃ chunks, chunked items parts = .ok chunks ∧
        Cuts items ⌈(items.length : ℚ) / parts⌉ chunks ∧ (chunks.length : Int) ≤ parts) ∧
    ∀ (termsField classField : Json) (workers : Int) (pairs : List RulePair) (subject : Option Text),
      let p := Policy.new termsField classField workers
      (p.workers < 2 ∨ pairs.length < 2) ∧ p.assign pairs subject = assignChunk subject pairs ∨
        2 ≤ p.workers ∧ 2 ≤ pairs.length ∧ 0 < chunkSize pairs.length p.workers ∧
          ∃ chunks, chunked pairs p.workers = .ok chunks ∧
            p.assign pairs subject = assignChunks subject chunks := by
  refine ⟨fun items parts hitems hparts => ?_, fun termsField classField workers pairs subject => ?_⟩
  · rw [← chunkSize_eq_ceil items.length hparts]
    exact chunked_cuts hitems hparts
  · intro p
    have hworkers : 0 < p.workers := new_workers_pos termsField classField workers
    rcases assign_cases hworkers pairs subject with halone | hdealt
    · exact .inl halone
    · obtain ⟨hseveral, hpairs, chunks, hchunks, -, hassign⟩ := hdealt
      have hsize := chunkSize_pos (show 0 < pairs.length by omega) (Int.natCast_pos.mpr hworkers)
      exact .inr ⟨hseveral, hpairs, hsize, chunks, hchunks, hassign⟩

/-- Five items in four parts: with two items for each part, three chunks are enough. -/
theorem chunked_exact_five :
    ([1, 2, 3, 4, 5] : List Nat) ≠ [] ∧ (1 : Int) ≤ 4 ∧ ∃ chunks : List (List Nat),
      chunked [1, 2, 3, 4, 5] 4 = .ok chunks ∧ Cuts [1, 2, 3, 4, 5] 2 chunks ∧
        (chunks.length : Int) ≤ 4 ∧ chunks = [[1, 2], [3, 4], [5]] := by
  have hsize : ⌈(([1, 2, 3, 4, 5] : List Nat).length : ℚ) / (4 : Int)⌉ = 2 := by norm_num
  obtain ⟨chunks, hchunks, hcuts, hmost⟩ := chunked_exact.1 [1, 2, 3, 4, 5] 4 (by decide) (by decide)
  rw [hsize] at hcuts
  exact ⟨by decide, by decide, chunks, hchunks, hcuts, hmost, Except.ok.inj (hchunks.symm.trans rfl)⟩

end Policy

end TitleClasses
