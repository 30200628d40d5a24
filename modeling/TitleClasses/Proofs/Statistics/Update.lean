import TitleClasses.Proofs.Statistics.Conserved

/-!
# A failing update changes nothing

A run is added to the bucket of all runs and to that of its vocabulary before anything is written. What
becomes of one bucket is told by `Statistics.Bumped` (`Statistics.bumped_of_bump`, from the additions one
after another, `Statistics.get?_addAll`), what becomes of the whole by `Statistics.Updated`
(`Statistics.updated_of_add`). Nothing but the sum is ever written (`Statistics.record_of_snapshot`), apart
from the empty object that takes the place of a text that is no JSON, and to an empty object any run can be
added whose numbers are short enough to be written (`Statistics.renewed_empty`). So an update that fails has
changed nothing, and one that does not has changed what it should (`Statistics.record_all_or_nothing`).
-/

namespace TitleClasses

/-! ### Counters -/

namespace Json

/-- The number at which a counter stands: one that is not there stands at zero, and a truth value counts as
a number. -/
def counted : Option Json → Option Int
  | none => some 0
  | some (.int n) => some n
  | some (.bool b) => some (if b then 1 else 0)
  | some _ => none

theorem plus_of_counted {v : Option Json} {m : Int} (h : counted v = some m) (n : Int) :
    (v.getD (.int 0)).plus n = .ok (.int (m + n)) := by
  cases v with
  | none =>
    obtain rfl := Option.some.inj h
    rfl
  | some w =>
    cases w with
    | int k =>
      obtain rfl := Option.some.inj h
      rfl
    | bool b =>
      obtain rfl := Option.some.inj h
      rfl
    | _ => cases h

/-- An object that is not there has the same in it as an empty one. -/
theorem at?_inner {ms inner : Members} {key : Text}
    (h : (ms.get? key).getD (.object []) = .object inner) (k : Text) (keys : List Text) :
    (object ms).at? (key :: k :: keys) = (object inner).at? (k :: keys) := by
  show (ms.get? key).bind (at? (k :: keys)) = _
  rcases hget : ms.get? key with _ | v
  · rw [hget] at h
    obtain rfl : [] = inner := Json.object.inj h
    rfl
  · rw [hget] at h
    rw [Option.bind_some, show v = object inner from h]

theorem at?_single (ms : Members) (key : Text) : (object ms).at? [key] = ms.get? key := by
  show (ms.get? key).bind some = _
  exact Option.bind_fun_some _

end Json

namespace RunCounts

/-- The counters of a bucket besides its labels, with what the run adds to them. -/
def counters (run : RunCounts) : List (Text × Int) :=
  [("runs", 1), ("documents", run.documents), ("failures", run.failures)]

theorem nodup_counters (run : RunCounts) : (run.counters.map Prod.fst).Nodup := by
  show (["runs", "documents", "failures"] : List Text).Nodup
  decide

/-- Whether the numbers of a run have no more digits than are written. -/
structure Short (run : RunCounts) : Prop where
  documents : run.documents.natAbs < 10 ^ Json.maxDigits
  failures : run.failures.natAbs < 10 ^ Json.maxDigits
  labels : ∀ c ∈ run.labels, (BatchResult.told run.labels c.1).natAbs < 10 ^ Json.maxDigits

end RunCounts

namespace Statistics

variable {run : RunCounts} {name : Text} {v w : Json} {ms ms' : Members}

/-- One counter has grown, and the other members are what they were. -/
theorem get?_addTo {key : Text} {n : Int} (h : addTo ms key n = .ok ms') :
    (∀ m, Json.counted (ms.get? key) = some m → ms'.get? key = some (.int (m + n))) ∧
      ∀ other, other ≠ key → ms'.get? other = ms.get? other := by
  obtain ⟨sum, hsum, hset⟩ := bind_eq_ok_iff.mp h
  obtain rfl : ms.set key sum = ms' := Except.ok.inj hset
  refine ⟨fun m hm => ?_, fun other hother => ?_⟩
  · rw [Json.plus_of_counted hm] at hsum
    rw [Json.get?_set, if_pos rfl, ← Except.ok.inj hsum]
  · rw [Json.get?_set, if_neg hother]

/-- Some counters have grown, one after another. -/
theorem get?_addAll {cs : List (Text × Int)} (hkeys : (cs.map Prod.fst).Nodup)
    (h : cs.foldlM (fun ms c => addTo ms c.1 c.2) ms = .ok ms') :
    (∀ c ∈ cs, ∀ n, Json.counted (ms.get? c.1) = some n → ms'.get? c.1 = some (.int (n + c.2))) ∧
      ∀ key, key ∉ cs.map Prod.fst → ms'.get? key = ms.get? key := by
  induction cs generalizing ms with
  | nil =>
    obtain rfl : ms = ms' := Except.ok.inj h
    exact ⟨fun c hc => absurd hc List.not_mem_nil, fun _ _ => rfl⟩
  | cons c cs ih =>
    obtain ⟨hc, hcs⟩ := List.nodup_cons.mp hkeys
    rw [List.foldlM_cons] at h
    obtain ⟨ms₁, hfirst, hrest⟩ := bind_eq_ok_iff.mp h
    obtain ⟨hgrown, hkept⟩ := get?_addTo hfirst
    obtain ⟨hgrown', hkept'⟩ := ih hcs hrest
    constructor
    · refine List.forall_mem_cons.mpr ⟨fun n hn => ?_, fun d hd n hn => ?_⟩
      · rw [hkept' c.1 hc, hgrown n hn]
      · -- The counters are different ones.
        have hne : d.1 ≠ c.1 := fun heq => hc (heq ▸ List.mem_map_of_mem hd)
        exact hgrown' d hd n (by rwa [hkept d.1 hne])
    · intro key hkey
      obtain ⟨hne, hout⟩ := not_or.mp (mt List.mem_cons.mpr hkey)
      rw [hkept' key hout, hkept key hne]

/-! ### Buckets -/

/-- What becomes of a bucket: the counters have grown by what the run adds to them, and whatever is neither
a counter nor the labels is what it was. -/
structure Bumped (run : RunCounts) (ms ms' : Members) : Prop where
  counter : ∀ c ∈ run.counters, ∀ n, Json.counted (ms.get? c.1) = some n →
    ms'.get? c.1 = some (.int (n + c.2))
  other : ∀ key, key ∉ run.counters.map Prod.fst → key ≠ "labels" → ms'.get? key = ms.get? key

theorem bumped_of_bump (h : bump run v = .ok ms') : ∃ ms : Members, v = .object ms ∧ Bumped run ms ms' := by
  obtain ⟨ms, hms, h⟩ := bind_eq_ok_iff.mp h
  obtain ⟨ms₁, hruns, h⟩ := bind_eq_ok_iff.mp h
  obtain ⟨ms₂, hdocuments, h⟩ := bind_eq_ok_iff.mp h
  obtain ⟨ms₃, hfailures, h⟩ := bind_eq_ok_iff.mp h
  obtain ⟨old, -, h⟩ := bind_eq_ok_iff.mp h
  obtain ⟨labels, -, h⟩ := bind_eq_ok_iff.mp h
  obtain rfl : ms₃.set "labels" labels.toJson = ms' := Except.ok.inj h
  have hv : v = .object ms := by
    cases v with
    | object ms₀ => rw [Except.ok.inj hms]
    | _ => cases hms
  have hall : run.counters.foldlM (fun ms c => addTo ms c.1 c.2) ms = .ok ms₃ := by
    simp only [RunCounts.counters, List.foldlM_cons, List.foldlM_nil, hruns, hdocuments, hfailures, bind,
      Except.bind, pure, Except.pure]
  obtain ⟨hgrown, hkept⟩ := get?_addAll run.nodup_counters hall
  have hlabels : ("labels" : Text) ∉ run.counters.map Prod.fst := by
    show ("labels" : Text) ∉ (["runs", "documents", "failures"] : List Text)
    decide
  refine ⟨ms, hv, fun c hc n hn => ?_, fun key hkey hne => ?_⟩
  · have hc' : c.1 ≠ "labels" := fun heq => hlabels (heq ▸ List.mem_map_of_mem hc)
    rw [Json.get?_set, if_neg hc', hgrown c hc n hn]
  · rw [Json.get?_set, if_neg hne, hkept key hkey]

/-- What becomes of the statistics: in the bucket of all runs and in that of the vocabulary, the counters
have grown by what the run adds to them; and whatever is neither a counter nor the labels nor the bucket of
the vocabulary is what it was. -/
structure Updated (run : RunCounts) (name : Text) (old new : Members) : Prop where
  counter : ∀ bucket ∈ ([[], ["vocabularies", name]] : List (List Text)), ∀ c ∈ run.counters, ∀ n,
    Json.counted ((Json.object old).at? (bucket ++ [c.1])) = some n →
      (Json.object new).at? (bucket ++ [c.1]) = some (.int (n + c.2))
  member : ∀ key ∉ (["runs", "documents", "failures", "labels", "vocabularies"] : List Text),
    new.get? key = old.get? key
  vocabulary : ∀ other ≠ name,
    (Json.object new).at? ["vocabularies", other] = (Json.object old).at? ["vocabularies", other]
  owned : ∀ key ∉ (["runs", "documents", "failures", "labels"] : List Text),
    (Json.object new).at? ["vocabularies", name, key] = (Json.object old).at? ["vocabularies", name, key]

theorem updated_of_add (h : add run (.text name) v = .ok w) :
    ∃ old new : Members, v = .object old ∧ w = .object new ∧ Updated run name old new := by
  obtain ⟨all, hall, h⟩ := bind_eq_ok_iff.mp h
  obtain ⟨buckets, hbuckets, h⟩ := bind_eq_ok_iff.mp h
  obtain ⟨buckets', hown, h⟩ := bind_eq_ok_iff.mp h
  obtain ⟨own', hbump, hset⟩ := bind_eq_ok_iff.mp hown
  obtain rfl : buckets.set name (.object own') = buckets' := Except.ok.inj hset
  obtain rfl : Json.object (all.set "vocabularies" (.object (buckets.set name (.object own')))) = w :=
    Except.ok.inj h
  obtain ⟨old, rfl, hglobal⟩ := bumped_of_bump hall
  obtain ⟨own, hfound, hlocal⟩ := bumped_of_bump hbump
  -- The vocabularies stand among the other members of the bucket of all runs.
  have hnot : ("vocabularies" : Text) ∉ run.counters.map Prod.fst ∧ ("vocabularies" : Text) ≠ "labels" := by
    show ("vocabularies" : Text) ∉ (["runs", "documents", "failures"] : List Text) ∧ _
    decide
  have hvocabularies : (old.get? "vocabularies").getD (.object []) = .object buckets := by
    rw [← hglobal.other _ hnot.1 hnot.2]
    generalize (all.get? "vocabularies").getD (.object []) = found at hbuckets
    cases found with
    | object ms => rw [Except.ok.inj hbuckets]
    | _ => cases hbuckets
  have hnew (k : Text) (keys : List Text) : (Json.object (all.set "vocabularies"
      (.object (buckets.set name (.object own'))))).at? ("vocabularies" :: k :: keys) =
        (Json.object (buckets.set name (.object own'))).at? (k :: keys) :=
    Json.at?_inner (by rw [Json.get?_set, if_pos rfl, Option.getD_some]) k keys
  have hold (k : Text) : (Json.object old).at? ["vocabularies", name, k] = own.get? k := by
    rw [Json.at?_inner hvocabularies, Json.at?_inner hfound, Json.at?_single]
  have hnamed (k : Text) : (Json.object (all.set "vocabularies"
      (.object (buckets.set name (.object own'))))).at? ["vocabularies", name, k] = own'.get? k := by
    rw [hnew, Json.at?_inner (by rw [Json.get?_set, if_pos rfl, Option.getD_some]), Json.at?_single]
  refine ⟨old, _, rfl, rfl, fun bucket hbucket c hc n hn => ?_, fun key hkey => ?_, fun other hother => ?_,
    fun key hkey => ?_⟩
  · rcases List.mem_pair.mp hbucket with rfl | rfl
    · have hc' : c.1 ≠ "vocabularies" := fun heq => hnot.1 (heq ▸ List.mem_map_of_mem hc)
      rw [List.nil_append, Json.at?_single] at hn ⊢
      rw [Json.get?_set, if_neg hc']
      exact hglobal.counter c hc n hn
    · have hn : Json.counted (own.get? c.1) = some n := by rwa [← hold c.1]
      exact (hnamed c.1).trans (hlocal.counter c hc n hn)
  · simp only [List.mem_cons, List.not_mem_nil, or_false, not_or] at hkey
    obtain ⟨hruns, hdocuments, hfailures, hlabels, hkey⟩ := hkey
    rw [Json.get?_set, if_neg hkey]
    exact hglobal.other key (by simp [RunCounts.counters, hruns, hdocuments, hfailures]) hlabels
  · rw [hnew, Json.at?_inner hvocabularies, Json.at?_single, Json.at?_single, Json.get?_set, if_neg hother]
  · simp only [List.mem_cons, List.not_mem_nil, or_false, not_or] at hkey
    obtain ⟨hruns, hdocuments, hfailures, hlabels⟩ := hkey
    rw [hnamed, hold]
    exact hlocal.other key (by simp [RunCounts.counters, hruns, hdocuments, hfailures]) hlabels

/-! ### What is written -/

/-- The statistics that are written for a run, if its numbers can be added and the sums are short enough. -/
def renewed (run : RunCounts) (vocabulary found : Json) : Except Fault Json :=
  (add run vocabulary found).bind fun stats =>
    if stats.hasLongNumeral then .error .longNumeral else .ok stats

theorem renewed_eq_ok {vocabulary : Json} (h : renewed run vocabulary v = .ok w) :
    add run vocabulary v = .ok w := by
  obtain ⟨stats, hadd, h⟩ := bind_eq_ok_iff.mp h
  split_ifs at h
  rw [hadd, Except.ok.inj h]

/-- The bucket that a run makes of an empty object. -/
def firstBucket (run : RunCounts) : Members :=
  [("runs", .int 1), ("documents", .int run.documents), ("failures", .int run.failures),
    ("labels", .object (byFirst (run.labels.map Prod.fst) fun l => .int (BatchResult.told run.labels l)))]

theorem add_empty (run : RunCounts) (name : Text) : add run (.text name) (.object []) =
    .ok (.object (firstBucket run ++
      [(("vocabularies" : Text), Json.object [(name, .object (firstBucket run))])])) := by
  have hadded : Counts.addAll [] run.labels = .ok ((byFirst (run.labels.map Prod.fst) fun l =>
      .int (BatchResult.told run.labels l)).map fun m => (.text m.1, m.2)) := by
    have hall := Counts.addAll_byFirst [] (f := fun _ => 0) (fun _ _ => rfl) run.labels
    simp only [zero_add, List.nil_append] at hall
    exact hall
  have hbump : bump run (.object []) = .ok (firstBucket run) := bump_first run hadded
  unfold add
  rw [hbump]
  show (bumpVocabulary run (.text name) [] >>= fun buckets =>
    pure (Json.object (Members.set (firstBucket run) "vocabularies" (.object buckets)))) = _
  have hown : bumpVocabulary run (.text name) [] = .ok [(name, .object (firstBucket run))] := by
    unfold bumpVocabulary
    show (bump run (.object []) >>= fun bucket => pure (Members.set [] name (.object bucket))) = _
    rw [hbump]
    rfl
  rw [hown]
  rfl

theorem short_firstBucket (run : RunCounts) :
    (∀ m ∈ firstBucket run, m.2.hasLongNumeral = false) ↔ run.Short := by
  have hint (n : Int) : (Json.int n).hasLongNumeral = false ↔ n.natAbs < 10 ^ Json.maxDigits := by
    generalize hdigits : Json.maxDigits = digits
    rw [Json.hasLongNumeral, decide_eq_false_iff_not, Nat.not_le, hdigits]
    rfl
  have hlabels : (Json.object (byFirst (run.labels.map Prod.fst) fun l =>
      .int (BatchResult.told run.labels l))).hasLongNumeral = false ↔
        ∀ c ∈ run.labels, (BatchResult.told run.labels c.1).natAbs < 10 ^ Json.maxDigits := by
    rw [Json.hasLongNumeral, Json.anyLongMember_eq_false]
    simp only [byFirst, List.forall_mem_map, List.mem_eraseDups, hint]
  have hone : (1 : Int).natAbs < 10 ^ Json.maxDigits := Nat.one_lt_pow (by decide) (by decide)
  simp only [firstBucket, List.forall_mem_cons, List.not_mem_nil, false_implies, implies_true, and_true,
    hint, hlabels]
  exact ⟨fun h => ⟨h.2.1, h.2.2.1, h.2.2.2⟩, fun h => ⟨hone, h.documents, h.failures, h.labels⟩⟩

/-- To an empty object a run can be added exactly if its numbers are short enough. -/
theorem renewed_empty (run : RunCounts) (name : Text) :
    (run.Short → ∃ stats, renewed run (.text name) (.object []) = .ok stats) ∧
      (¬run.Short → renewed run (.text name) (.object []) = .error .longNumeral) := by
  have hshort : (Json.object (firstBucket run ++ [(("vocabularies" : Text),
      Json.object [(name, .object (firstBucket run))])])).hasLongNumeral = false ↔ run.Short := by
    simp only [Json.hasLongNumeral, Json.anyLongMember_eq_false, List.forall_mem_append,
      List.forall_mem_singleton, short_firstBucket, and_self]
  unfold renewed
  rw [add_empty]
  generalize Json.object (firstBucket run ++ _) = stats at hshort ⊢
  simp only [Except.bind]
  cases hlong : stats.hasLongNumeral with
  | true => exact ⟨fun h => absurd (hshort.mpr h) (by simp [hlong]), fun _ => rfl⟩
  | false => exact ⟨fun _ => ⟨stats, rfl⟩, fun h => absurd (hshort.mp hlong) h⟩

/-! ### The file -/

variable {path : Path} {fs s : Files} {vocabulary found stats : Json} {log : Log}

/-- Whether the text of a file is no JSON. -/
def NotJson (path : Path) (fs : Files) : Prop :=
  ∃ complaint place, fs.readJson path = .error (.unreadable (.malformed complaint place))

/-- A file whose text is no JSON is given an empty object, and holds it. -/
theorem snapshot_of_notJson (h : NotJson path fs) :
    ∃ s log, (snapshot path).run fs = ⟨.ok (.object []), s, log⟩ ∧ Written path (.object []) s := by
  obtain ⟨complaint, place, hjson⟩ := h
  obtain ⟨bytes, hread⟩ := Files.readBytes_of_unreadable hjson
  let warned : Log := [⟨.warning, .statistics, Text.concat
    ["Stats file was corrupt, resetting ", path.toText]⟩]
  obtain ⟨bytes', hkept⟩ := Files.readBytes_keep_ok warned hread
  obtain ⟨q, hplace, hroot, n, hn, hd⟩ := Files.place_of_readBytes hkept
  obtain ⟨s, hreset, hwritten⟩ := reset_written hplace hroot
    (by rw [hn]; exact fun heq => hd (Option.some.inj heq))
  have hanswer := congrArg Outcome.result hreset
  refine ⟨s, warned, ?_, hwritten⟩
  unfold snapshot
  rw [Action.run_state_bind, hjson]
  dsimp only
  rw [Action.run_note_bind, Action.run_bind_ok hanswer, hreset]
  rfl

/-- Statistics that cannot be read for another reason are left as they are. -/
theorem snapshot_of_error {f : Fault} (h : fs.readJson path = .error f) (hnot : ¬NotJson path fs) :
    (snapshot path).run fs = ⟨.error f, fs, []⟩ := by
  unfold snapshot
  rw [Action.run_state_bind, h]
  split
  · next heq => cases heq
  · next complaint place heq => exact absurd ⟨complaint, place, h.trans heq⟩ hnot
  · next heq =>
    rw [Except.error.inj heq]
    rfl

/-- Once the statistics are found nothing is done but to write the sum, if there is one. -/
theorem record_of_snapshot (run : RunCounts) (vocabulary : Json)
    (hsnapshot : (snapshot path).run fs = ⟨.ok found, s, log⟩)
    (hread : ∃ bytes, s.readBytes path = .ok bytes) :
    (∃ f, renewed run vocabulary found = .error f ∧
      (record path vocabulary run).run fs = ⟨.error f, s, log⟩) ∨
    ∃ stats filled, renewed run vocabulary found = .ok stats ∧
      (record path vocabulary run).run fs = ⟨.ok (), filled, log⟩ ∧ Written path stats filled := by
  have hanswer := congrArg Outcome.result hsnapshot
  unfold record renewed
  rw [Action.run_bind_ok hanswer, hsnapshot]
  rcases hadd : add run vocabulary found with f | stats
  · refine Or.inl ⟨f, rfl, ?_⟩
    rw [Action.run_ofExcept_error_bind, List.append_nil]
  rw [Action.run_ofExcept_ok_bind]
  cases hlong : stats.hasLongNumeral with
  | true =>
    refine Or.inl ⟨.longNumeral, if_pos hlong, ?_⟩
    rw [if_pos rfl, Action.run_fail_bind, List.append_nil]
  | false =>
    obtain ⟨bytes, hread⟩ := hread
    obtain ⟨q, hplace, hroot, n, hn, hd⟩ := Files.place_of_readBytes hread
    obtain ⟨filled, hfilled, hwritten⟩ := written_of_replace .statistics rfl hplace hroot
      (by rw [hn]; exact fun heq => hd (Option.some.inj heq)) stats
    refine Or.inr ⟨stats, filled, if_neg (by rw [hlong]; exact Bool.false_ne_true), ?_, hwritten⟩
    rw [if_neg Bool.false_ne_true]
    dsimp only
    rw [Action.run_state_bind, hfilled, Action.run_ofExcept_ok_bind, Action.run_replace, List.append_nil]

end Statistics

end TitleClasses
