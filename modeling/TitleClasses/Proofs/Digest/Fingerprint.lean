import TitleClasses.Digest.Fingerprint
import TitleClasses.Proofs.Json.Display

/-!
# What a fingerprint is made of

The source of a fingerprint is one line for the document and one for the vocabulary. A hash is written
in hexadecimal digits, so that the first line ends where the first line feed stands, and the source
tells both lines (`fingerprintSource_injective`).
-/

namespace TitleClasses

open Utf8 (Bytes)

namespace Text

theorem mem_toDigits {base : Nat} (hb : 1 < base) (n : Nat) {c : Char}
    (h : c ∈ Nat.toDigits base n) : ∃ m < base, c = m.digitChar := by
  induction n using Nat.strongRecOn with
  | ind n ih =>
    by_cases hn : n < base
    · rw [Nat.toDigits_of_lt_base hn] at h
      exact ⟨n, hn, List.mem_singleton.mp h⟩
    · have hle : base ≤ n := Nat.le_of_not_lt hn
      rw [Nat.toDigits_of_base_le hb hle] at h
      rcases List.mem_append.mp h with h | h
      · exact ih (n / base) (Nat.div_lt_self (by omega) hb) h
      · exact ⟨n % base, Nat.mod_lt _ (by omega), List.mem_singleton.mp h⟩

/-- A numeral consists of digits. -/
theorem mem_padded {base width n : Nat} (hb : 1 < base) {c : CodePoint} (h : c ∈ padded base width n) :
    ∃ m < base, c = digit m := by
  rcases List.mem_append.mp h with h | h
  · exact ⟨0, by omega, List.eq_of_mem_replicate h⟩
  · obtain ⟨d, hd, rfl⟩ := List.mem_map.mp h
    obtain ⟨m, hm, rfl⟩ := mem_toDigits hb n hd
    exact ⟨m, hm, rfl⟩

end Text

theorem encodable_hashText (bytes : Bytes) : Utf8.Encodable (hashText bytes) := by
  intro c hc
  obtain ⟨w, -, hw⟩ := List.mem_flatMap.mp hc
  exact Text.encodable_padded _ _ _ c hw

theorem newline_notMem_hashText (bytes : Bytes) : ('\n' : CodePoint) ∉ hashText bytes := by
  intro h
  obtain ⟨w, -, hw⟩ := List.mem_flatMap.mp h
  obtain ⟨m, hm, heq⟩ := Text.mem_padded (by decide) hw
  have hall : ∀ m < 16, ('\n' : CodePoint) ≠ Text.digit m := by decide
  exact hall m hm heq

/-- What stands before the first line feed and behind it can be told from the whole. -/
theorem append_newline_inj {t t' u u' : Text} (ht : ('\n' : CodePoint) ∉ t)
    (ht' : ('\n' : CodePoint) ∉ t')
    (h : t ++ ('\n' : CodePoint) :: u = t' ++ ('\n' : CodePoint) :: u') : t = t' ∧ u = u' := by
  have hfirst (s v : Text) (hs : ('\n' : CodePoint) ∉ s) :
      (s ++ ('\n' : CodePoint) :: v).takeWhile (· ≠ ('\n' : CodePoint)) = s := by
    have hall : ∀ c ∈ s, decide (c ≠ ('\n' : CodePoint)) = true := fun c hc =>
      decide_eq_true fun heq => hs (heq ▸ hc)
    rw [List.takeWhile_append_of_pos hall]
    simp
  obtain rfl : t = t' := by rw [← hfirst t u ht, h, hfirst t' u' ht']
  exact ⟨rfl, List.tail_eq_of_cons_eq (List.append_cancel_left h)⟩

/-- The source of a fingerprint tells the hash of the document and the digest, whatever text that is. -/
theorem fingerprintSource_lines {document document' : Bytes} {digest digest' : Text}
    (hdigest : Utf8.Encodable digest) (hdigest' : Utf8.Encodable digest')
    (h : fingerprintSource document digest = fingerprintSource document' digest') :
    hashText document = hashText document' ∧ digest = digest' := by
  have hsource (b : Bytes) (t : Text) : fingerprintSource b t =
      Utf8.bytesOf (hashText b ++ ('\n' : CodePoint) :: t) := by
    unfold fingerprintSource Utf8.bytesOf Text.concat
    simp only [List.flatten_cons, List.flatten_nil, List.append_nil]
    rfl
  have hencodable (b : Bytes) {t : Text} (ht : Utf8.Encodable t) :
      Utf8.Encodable (hashText b ++ ('\n' : CodePoint) :: t) :=
    Utf8.encodable_append (encodable_hashText b)
      (Utf8.encodable_cons.mpr ⟨Utf8.isSurrogate_ofChar _, ht⟩)
  rw [hsource, hsource] at h
  have hlines := Utf8.bytesOf_injective (hencodable document hdigest) (hencodable document' hdigest') h
  exact append_newline_inj (newline_notMem_hashText document) (newline_notMem_hashText document') hlines

/-- The source of a fingerprint tells the hash of the document and the digest of the vocabulary. -/
theorem fingerprintSource_injective {document document' source source' : Bytes}
    (h : fingerprintSource document (hashText source) =
      fingerprintSource document' (hashText source')) :
    hashText document = hashText document' ∧ hashText source = hashText source' :=
  fingerprintSource_lines (encodable_hashText source) (encodable_hashText source') h

/-- Whether no two of some byte strings have one hash. -/
def CollisionFree (inputs : List Bytes) : Prop :=
  ∀ x ∈ inputs, ∀ y ∈ inputs, hashText x = hashText y → x = y

/-- Fingerprints whose hashes do not collide tell the bytes of the document and the digest. -/
theorem fingerprint_eq_iff {document document' : Bytes} {digest digest' : Text}
    (hdigest : Utf8.Encodable digest) (hdigest' : Utf8.Encodable digest')
    (hfree : CollisionFree [document, document', fingerprintSource document digest,
      fingerprintSource document' digest']) :
    fingerprint document digest = fingerprint document' digest' ↔
      document = document' ∧ digest = digest' := by
  constructor
  · intro h
    have hsource := hfree (fingerprintSource document digest) (by simp)
      (fingerprintSource document' digest') (by simp) h
    obtain ⟨hhash, rfl⟩ := fingerprintSource_lines hdigest hdigest' hsource
    exact ⟨hfree document (by simp) document' (by simp) hhash, rfl⟩
  · rintro ⟨rfl, rfl⟩
    rfl

theorem collisionFree_of_forall_eq {inputs : List Bytes} {x : Bytes} (h : ∀ y ∈ inputs, y = x) :
    CollisionFree inputs := fun y hy z hz _ => (h y hy).trans (h z hz).symm

theorem collisionFree_of_ne {inputs : List Bytes} {x y : Bytes} (h : ∀ z ∈ inputs, z = x ∨ z = y)
    (hne : hashText x ≠ hashText y) : CollisionFree inputs := by
  intro z hz w hw heq
  rcases h z hz with rfl | rfl <;> rcases h w hw with rfl | rfl
  · rfl
  · exact absurd heq hne
  · exact absurd heq.symm hne
  · rfl

end TitleClasses
