import Mathlib.Algebra.BigOperators.Group.Finset.Piecewise
import Mathlib.Algebra.GroupWithZero.Nat
import Mathlib.Algebra.Order.BigOperators.Group.List
import Mathlib.Algebra.Order.Group.Nat
import Mathlib.Algebra.Ring.Int.Defs
import TitleClasses.Proofs.Json.Display
import TitleClasses.Proofs.Json.Read
import TitleClasses.Proofs.Json.RoundTrip
import TitleClasses.Statistics

/-!
# The statistics of some runs

`Statistics.ofRuns` are the statistics that hold some runs and nothing else: a bucket of all of them, and
one for each vocabulary, in the order in which the vocabularies came first. Adding a run to the statistics
of some runs gives those of the runs with that one (`Statistics.add_ofRuns`), and they are read back as they
are written (`Statistics.storable_ofRuns`) while their numbers are short enough. What stands in a bucket is
told by `Statistics.at?_bucket`, counter by counter.
-/

namespace TitleClasses

/-- A run as it is reported to the statistics: the vocabulary, how many documents were classified and how
many failed, and how often each label was assigned. -/
structure RunReport where
  vocabulary : Text
  documents : Nat
  failures : Nat
  labels : List (Text × Nat)
deriving DecidableEq, Repr

namespace RunReport

/-- What the run adds to the statistics. -/
def counts (r : RunReport) : RunCounts :=
  ⟨r.documents, r.failures, r.labels.map fun c => (c.1, (c.2 : Int))⟩

/-- The runs of a vocabulary. -/
def ofVocabulary (name : Text) (rs : List RunReport) : List RunReport :=
  rs.filter fun r => r.vocabulary = name

/-- The vocabularies of some runs, each once, in the order in which they came first. -/
def vocabularies (rs : List RunReport) : List Text := (rs.map vocabulary).eraseDups

end RunReport

/-- The sum of the counts of a label. -/
def labelTotal (label : Text) (cs : List (Text × Nat)) : Nat :=
  ((cs.filter fun c => c.1 = label).map Prod.snd).sum

/-- The labels of some counts, each once, in the order in which they came first. -/
def labelsOf (cs : List (Text × Nat)) : List Text := (cs.map Prod.fst).eraseDups

/-- The counters of a bucket. -/
inductive Counter where
  | runs
  | documents
  | failures
  | label (name : Text)
deriving DecidableEq, Repr

namespace Counter

/-- The keys under which a counter stands in a bucket. -/
def keys : Counter → List Text
  | .runs => ["runs"]
  | .documents => ["documents"]
  | .failures => ["failures"]
  | .label name => ["labels", name]

/-- What a run adds to a counter. -/
def added (r : RunReport) : Counter → Nat
  | .runs => 1
  | .documents => r.documents
  | .failures => r.failures
  | .label name => labelTotal name r.labels

/-- Whether a run makes a counter: those of labels are made when the label is reported. -/
def isMade (r : RunReport) : Counter → Bool
  | .label name => name ∈ r.labels.map Prod.fst
  | _ => true

/-- What some runs add to a counter together. -/
def total (rs : List RunReport) (c : Counter) : Nat := (rs.map fun r => c.added r).sum

end Counter

/-- What stands in an object under some keys, one inside the other. -/
def Json.at? : List Text → Json → Option Json
  | [], v => some v
  | key :: keys, .object ms => (Members.get? ms key).bind (at? keys)
  | _ :: _, _ => none

/-! ### Values by keys in the order in which the keys came first -/

section Distinct

variable {α β : Type} [BEq α] [LawfulBEq α]

theorem eraseDups_concat (xs : List α) (x : α) :
    (xs ++ [x]).eraseDups = if x ∈ xs then xs.eraseDups else xs.eraseDups ++ [x] := by
  rw [List.eraseDups_append]
  by_cases hx : x ∈ xs <;> simp [List.removeAll, List.eraseDups_cons, hx]

theorem nodup_eraseDups (xs : List α) : xs.eraseDups.Nodup := by
  induction xs using List.reverseRecOn with
  | nil => exact List.nodup_nil
  | append_singleton xs x ih =>
    rw [eraseDups_concat]
    split_ifs with hx
    · exact ih
    · rw [← List.concat_eq_append]
      exact ih.concat fun hin => hx (List.mem_eraseDups.mp hin)

/-- The values of some keys, each once, in the order in which the keys came first. -/
def byFirst (xs : List α) (f : α → β) : List (α × β) := xs.eraseDups.map fun x => (x, f x)

omit [LawfulBEq α] in
theorem keys_byFirst (xs : List α) (f : α → β) : (byFirst xs f).map Prod.fst = xs.eraseDups := by
  simp [byFirst, Function.comp_def]

end Distinct

/-- A sum over some items is the sum over their keys of the sums over the items of each key. -/
theorem sum_by_key {α β : Type} [DecidableEq α] (key : β → α) (f : β → Nat) (xs : List β)
    {keys : List α} (hnodup : keys.Nodup) (hall : ∀ x ∈ xs, key x ∈ keys) :
    (keys.map fun k => ((xs.filter fun x => key x = k).map f).sum).sum = (xs.map f).sum := by
  induction xs with
  | nil => simp
  | cons x xs ih =>
    obtain ⟨hx, hxs⟩ := List.forall_mem_cons.mp hall
    -- The first item counts for its own key.
    have hsplit (k : α) : (((x :: xs).filter fun x => key x = k).map f).sum =
        (if k = key x then f x else 0) + ((xs.filter fun x => key x = k).map f).sum := by
      by_cases hk : key x = k
      · simp [hk]
      · simp [hk, Ne.symm hk]
    have hown : (keys.map fun k => if k = key x then f x else 0).sum = f x := by
      rw [← List.sum_toFinset _ hnodup, Finset.sum_ite_eq', if_pos (List.mem_toFinset.mpr hx)]
    calc (keys.map fun k => (((x :: xs).filter fun x => key x = k).map f).sum).sum
        = (keys.map fun k => (if k = key x then f x else 0) +
            ((xs.filter fun x => key x = k).map f).sum).sum := by simp only [hsplit]
      _ = f x + (xs.map f).sum := by rw [List.sum_map_add, hown, ih hxs]
      _ = ((x :: xs).map f).sum := by rw [List.map_cons, List.sum_cons]

/-- The value of a key is that of its first entry. -/
theorem get?_byFirst (xs : List Text) (f : Text → Json) (key : Text) :
    Members.get? (byFirst xs f) key = if key ∈ xs then some (f key) else none := by
  have hlook (keys : List Text) : List.lookup key (keys.map fun x => (x, f x)) =
      if key ∈ keys then some (f key) else none := by
    induction keys with
    | nil => rfl
    | cons k keys ih =>
      by_cases hk : key = k
      · simp [hk]
      · have hb : (key == k) = false := by simpa using hk
        rw [List.map_cons, List.lookup_cons, hb, ih]
        simp [hk]
  unfold Members.get? byFirst
  rw [hlook]
  simp only [List.mem_eraseDups]

/-- Giving a key a value changes the value of that key only, and brings the key in if it was not there. -/
theorem set_byFirst (xs : List Text) {f g : Text → Json} (key : Text)
    (hothers : ∀ x, x ≠ key → g x = f x) :
    Members.set (byFirst xs f) key (g key) = byFirst (xs ++ [key]) g := by
  have hsame (keys : List Text) (hout : key ∉ keys) :
      (keys.map fun x => (x, f x)) = keys.map fun x => (x, g x) :=
    List.map_congr_left fun x hx => by rw [hothers x fun heq => hout (heq ▸ hx)]
  have hset (keys : List Text) (hnodup : keys.Nodup) :
      Members.set (keys.map fun x => (x, f x)) key (g key) =
        (if key ∈ keys then keys else keys ++ [key]).map fun x => (x, g x) := by
    induction keys with
    | nil => rfl
    | cons k keys ih =>
      obtain ⟨hk, hkeys⟩ := List.nodup_cons.mp hnodup
      by_cases heq : k = key
      · subst heq
        rw [List.map_cons, Members.set, if_pos rfl, if_pos List.mem_cons_self, hsame keys hk,
          List.map_cons]
      · rw [List.map_cons, Members.set, if_neg heq, ih hkeys, ← hothers k heq]
        by_cases hin : key ∈ keys
        · simp [hin]
        · simp [hin, Ne.symm heq]
  unfold byFirst
  rw [hset _ (nodup_eraseDups xs), eraseDups_concat]
  by_cases hin : key ∈ xs <;> simp [hin]

/-! ### Labels -/

@[simp] theorem labelTotal_nil (label : Text) : labelTotal label [] = 0 := rfl

@[simp] theorem labelTotal_append (label : Text) (cs ds : List (Text × Nat)) :
    labelTotal label (cs ++ ds) = labelTotal label cs + labelTotal label ds := by
  simp [labelTotal]

@[simp] theorem labelTotal_single (label name : Text) (n : Nat) :
    labelTotal label [(name, n)] = if name = label then n else 0 := by
  by_cases h : name = label <;> simp [labelTotal, h]

theorem labelTotal_eq_zero {label : Text} {cs : List (Text × Nat)} (h : label ∉ cs.map Prod.fst) :
    labelTotal label cs = 0 := by
  have hnone : (cs.filter fun c => c.1 = label) = [] := by
    refine List.filter_eq_nil_iff.mpr fun c hc heq => h ?_
    exact List.mem_map.mpr ⟨c, hc, of_decide_eq_true heq⟩
  rw [labelTotal, hnone]
  rfl

theorem labelTotal_eq_sum (label : Text) (cs : List (Text × Nat)) :
    (labelTotal label cs : Int) = (cs.map fun c => if c.1 = label then (c.2 : Int) else 0).sum := by
  induction cs with
  | nil => rfl
  | cons c cs ih =>
    rw [List.map_cons, List.sum_cons, ← ih]
    by_cases hc : c.1 = label <;> simp [labelTotal, hc]

theorem labelTotal_flatMap (label : Text) (rs : List RunReport) :
    labelTotal label (rs.flatMap RunReport.labels) = (Counter.label label).total rs := by
  induction rs with
  | nil => rfl
  | cons r rs ih =>
    rw [List.flatMap_cons, labelTotal_append, ih]
    rfl

/-- The counts of labels as members of an object. -/
def labelMembers (cs : List (Text × Nat)) : Members :=
  byFirst (cs.map Prod.fst) fun label => .int (labelTotal label cs)

namespace Counts

/-- Counts that come from an object are changed as its members are set. -/
theorem change_members (f : Json → Except Fault Json) (key : Text) (ms : Members) :
    change f (.text key) (ms.map fun m => (.text m.1, m.2)) =
      (f ((ms.get? key).getD (.int 0))).map fun v => (ms.set key v).map fun m => (.text m.1, m.2) := by
  induction ms with
  | nil =>
    rw [List.map_nil, change, Members.get?, List.lookup_nil, Option.getD_none]
    rcases f (.int 0) with e | v <;> rfl
  | cons m ms ih =>
    obtain ⟨k, w⟩ := m
    have hsame : (Json.text k).sameKey (.text key) = decide (k = key) := by
      simp [Json.sameKey, Json.numeric?]
    rw [List.map_cons, change, hsame]
    by_cases hk : k = key
    · subst hk
      simp only [decide_true, if_true, Members.get?, List.lookup_cons_self, Option.getD_some,
        Members.set]
      rcases f w with e | v <;> rfl
    · have hb : (key == k) = false := by simpa using Ne.symm hk
      simp only [hk, decide_false, Bool.false_eq_true, if_false, ih, Members.get?, List.lookup_cons, hb,
        Members.set]
      rcases f ((List.lookup key ms).getD (.int 0)) with e | v <;> rfl

/-- Counts that are added to those of some keys are counted with them; a key that is not there counts as
zero. -/
theorem addAll_byFirst (xs : List Text) {f : Text → Int} (hf : ∀ l, l ∉ xs → f l = 0)
    (more : List (Text × Int)) :
    addAll ((byFirst xs fun l => .int (f l)).map fun m => (.text m.1, m.2)) more =
      .ok ((byFirst (xs ++ more.map Prod.fst) fun l =>
        .int (f l + (more.map fun c => if c.1 = l then c.2 else 0).sum)).map fun m => (.text m.1, m.2)) := by
  induction more generalizing xs f with
  | nil => simp [addAll]
  | cons c more ih =>
    obtain ⟨label, n⟩ := c
    have hfound : (Members.get? (byFirst xs fun l => .int (f l)) label).getD (.int 0) = .int (f label) := by
      rw [get?_byFirst]
      by_cases hin : label ∈ xs
      · rw [if_pos hin, Option.getD_some]
      · rw [if_neg hin, hf label hin]
        rfl
    -- The label has its count, and the others have what they had.
    have hset : Members.set (byFirst xs fun l => .int (f l)) label (.int (f label + n)) =
        byFirst (xs ++ [label]) fun l => .int (f l + if label = l then n else 0) := by
      have := set_byFirst xs (f := fun l => .int (f l))
        (g := fun l => .int (f l + if label = l then n else 0)) label fun x hx => by simp [Ne.symm hx]
      simpa using this
    have hzero (l : Text) (hl : l ∉ xs ++ [label]) : f l + (if label = l then n else 0) = 0 := by
      obtain ⟨hxs, hlabel⟩ := not_or.mp (mt List.mem_append.mpr hl)
      rw [hf l hxs, if_neg fun heq => hlabel (List.mem_singleton.mpr heq.symm), zero_add]
    rw [addAll, change_members, hfound]
    show addAll (List.map _ (Members.set _ label (.int (f label + n)))) more = _
    rw [hset, ih (xs ++ [label]) hzero]
    simp [add_assoc]

/-- Counts of labels that are added are counted with those that were there. -/
theorem addAll_labelMembers (cs more : List (Text × Nat)) :
    addAll ((labelMembers cs).map fun m => (.text m.1, m.2)) (more.map fun c => (c.1, (c.2 : Int))) =
      .ok ((labelMembers (cs ++ more)).map fun m => (.text m.1, m.2)) := by
  have hzero (l : Text) (hl : l ∉ cs.map Prod.fst) : (labelTotal l cs : Int) = 0 := by
    rw [labelTotal_eq_zero hl]
    rfl
  unfold labelMembers
  rw [addAll_byFirst _ hzero]
  simp [labelTotal_eq_sum, Function.comp_def]

end Counts

/-! ### Buckets -/

namespace Counter

variable {c : Counter}

@[simp] theorem total_append (c : Counter) (rs rs' : List RunReport) :
    c.total (rs ++ rs') = c.total rs + c.total rs' := by
  simp [total]

@[simp] theorem total_single (c : Counter) (r : RunReport) : c.total [r] = c.added r := by
  simp [total]

end Counter

namespace Statistics

/-- The bucket of some runs. -/
def bucket (rs : List RunReport) : Members :=
  [("runs", .int (Counter.runs.total rs)), ("documents", .int (Counter.documents.total rs)),
    ("failures", .int (Counter.failures.total rs)),
    ("labels", .object (labelMembers (rs.flatMap RunReport.labels)))]

/-- The buckets of the vocabularies of some runs. -/
def buckets (rs : List RunReport) : Members :=
  byFirst (rs.map RunReport.vocabulary) fun name => .object (bucket (RunReport.ofVocabulary name rs))

/-- The statistics of some runs. -/
def ofRuns (rs : List RunReport) : Json :=
  if rs = [] then .object []
  else .object (bucket rs ++ [(("vocabularies" : Text), Json.object (buckets rs))])

theorem addTo_nil (key : Text) (n : Int) : addTo [] key n = .ok [(key, .int n)] := by
  show Except.ok [(key, Json.int (0 + n))] = _
  rw [zero_add]

theorem addTo_self (key : Text) (m n : Int) (ms : Members) :
    addTo ((key, .int m) :: ms) key n = .ok ((key, .int (m + n)) :: ms) := by
  unfold addTo Members.get?
  rw [List.lookup_cons_self]
  show Except.ok (Members.set ((key, .int m) :: ms) key (.int (m + n))) = _
  rw [Members.set, if_pos rfl]

theorem addTo_of_ne {k key : Text} (h : k ≠ key) (v : Json) (ms : Members) (n : Int) :
    addTo ((k, v) :: ms) key n = (addTo ms key n).map fun ms => (k, v) :: ms := by
  have hb : (key == k) = false := by simpa using Ne.symm h
  unfold addTo Members.get?
  rw [List.lookup_cons, hb]
  rcases hv : ((List.lookup key ms).getD (.int 0)).plus n with e | w
  · rfl
  · simp [bind, Except.bind, Except.map, pure, Except.pure, Members.set, h]

theorem toJson_members (ms : Members) :
    Counts.toJson (ms.map fun m => (.text m.1, m.2)) = .object ms := by
  unfold Counts.toJson
  simp [Function.comp_def, Json.keyText]

/-- A bucket to which a run is added is one of numbers under three keys, which are added to, and one of
labels, to which its own are added. -/
theorem bump_of_added {run : RunCounts} {v : Json} {ms ms₁ ms₂ ms₃ ls ls' : Members}
    (hv : v = .object ms) (hruns : addTo ms "runs" 1 = .ok ms₁)
    (hdocuments : addTo ms₁ "documents" run.documents = .ok ms₂)
    (hfailures : addTo ms₂ "failures" run.failures = .ok ms₃)
    (hlabels : (ms₃.get? "labels").getD (.object []) = .object ls)
    (hadded : Counts.addAll (ls.map fun m => (.text m.1, m.2)) run.labels =
      .ok (ls'.map fun m => (.text m.1, m.2))) :
    bump run v = .ok (ms₃.set "labels" (.object ls')) := by
  subst hv
  unfold bump
  simp only [Json.membersFor, bind, Except.bind, hruns, hdocuments, hfailures, hlabels, Counts.ofJson]
  rw [hadded]
  show Except.ok (ms₃.set "labels" (Counts.toJson _)) = _
  rw [toJson_members]

/-- A run makes a bucket of an empty object. -/
theorem bump_first (run : RunCounts) {ls : Members}
    (hadded : Counts.addAll [] run.labels = .ok (ls.map fun m => (.text m.1, m.2))) :
    bump run (.object []) = .ok [("runs", .int 1), ("documents", .int run.documents),
      ("failures", .int run.failures), ("labels", .object ls)] := by
  have hkeys : ("runs" : Text) ≠ "documents" ∧ ("runs" : Text) ≠ "failures" ∧
      ("documents" : Text) ≠ "failures" := by decide
  obtain ⟨hrd, hrf, hdf⟩ := hkeys
  have hdocuments : addTo [("runs", .int 1)] "documents" run.documents =
      .ok [("runs", .int 1), ("documents", .int run.documents)] := by
    rw [addTo_of_ne hrd, addTo_nil]
    rfl
  have hfailures : addTo [("runs", .int 1), ("documents", .int run.documents)] "failures" run.failures =
      .ok [("runs", .int 1), ("documents", .int run.documents), ("failures", .int run.failures)] := by
    rw [addTo_of_ne hrf, addTo_of_ne hdf, addTo_nil]
    rfl
  rw [bump_of_added rfl (addTo_nil _ 1) hdocuments hfailures rfl hadded]
  rfl

theorem bump_nil (r : RunReport) : bump r.counts (.object []) = .ok (bucket [r]) := by
  have hadded : Counts.addAll [] r.counts.labels =
      .ok ((labelMembers r.labels).map fun m => (.text m.1, m.2)) := Counts.addAll_labelMembers [] r.labels
  rw [bump_first r.counts hadded]
  simp [bucket, Counter.added, RunReport.counts]

/-- A run that is added to the bucket of some runs makes it the bucket of those with that run; whatever
else stands there stays. -/
theorem bump_bucket (rs : List RunReport) (more : Members) (r : RunReport) :
    bump r.counts (.object (bucket rs ++ more)) = .ok (bucket (rs ++ [r]) ++ more) := by
  have hkeys : ("runs" : Text) ≠ "documents" ∧ ("runs" : Text) ≠ "failures" ∧
      ("documents" : Text) ≠ "failures" := by decide
  obtain ⟨hrd, hrf, hdf⟩ := hkeys
  unfold bucket
  simp only [List.cons_append]
  have hdocuments (runs documents : Int) (rest : Members) :
      addTo (("runs", .int runs) :: ("documents", .int documents) :: rest) "documents" r.documents =
        .ok (("runs", .int runs) :: ("documents", .int (documents + r.documents)) :: rest) := by
    rw [addTo_of_ne hrd, addTo_self]
    rfl
  have hfailures (runs documents failures : Int) (rest : Members) :
      addTo (("runs", .int runs) :: ("documents", .int documents) :: ("failures", .int failures) :: rest)
          "failures" r.failures =
        .ok (("runs", .int runs) :: ("documents", .int documents) ::
          ("failures", .int (failures + r.failures)) :: rest) := by
    rw [addTo_of_ne hrf, addTo_of_ne hdf, addTo_self]
    rfl
  have hadded := Counts.addAll_labelMembers (rs.flatMap RunReport.labels) r.labels
  rw [bump_of_added rfl (addTo_self ..) (hdocuments ..) (hfailures ..) rfl hadded]
  have hset (a b c v w : Json) (rest : Members) :
      Members.set (("runs", a) :: ("documents", b) :: ("failures", c) :: ("labels", v) :: rest) "labels" w =
        (("runs", a) :: ("documents", b) :: ("failures", c) :: ("labels", w) :: rest : Members) := rfl
  rw [hset]
  simp [Counter.added]

/-- The bucket of a vocabulary is made or added to, and no other is touched. -/
theorem bumpVocabulary_buckets (rs : List RunReport) (r : RunReport) :
    bumpVocabulary r.counts (.text r.vocabulary) (buckets rs) = .ok (buckets (rs ++ [r])) := by
  -- The runs of the vocabulary are one more, those of any other are the same.
  have hown : RunReport.ofVocabulary r.vocabulary (rs ++ [r]) =
      RunReport.ofVocabulary r.vocabulary rs ++ [r] := by
    simp [RunReport.ofVocabulary]
  have hothers (name : Text) (hname : name ≠ r.vocabulary) :
      Json.object (bucket (RunReport.ofVocabulary name (rs ++ [r]))) =
        .object (bucket (RunReport.ofVocabulary name rs)) := by
    simp [RunReport.ofVocabulary, Ne.symm hname]
  have hbump : bump r.counts ((Members.get? (buckets rs) r.vocabulary).getD (.object [])) =
      .ok (bucket (RunReport.ofVocabulary r.vocabulary (rs ++ [r]))) := by
    rw [buckets, get?_byFirst, hown]
    split_ifs with hin
    · have := bump_bucket (RunReport.ofVocabulary r.vocabulary rs) [] r
      rwa [List.append_nil, List.append_nil] at this
    · have hnone : RunReport.ofVocabulary r.vocabulary rs = [] :=
        List.filter_eq_nil_iff.mpr fun r' hr' heq =>
          hin (List.mem_map.mpr ⟨r', hr', of_decide_eq_true heq⟩)
      rw [hnone]
      exact bump_nil r
  unfold bumpVocabulary
  dsimp only
  rw [hbump]
  have hset := set_byFirst (rs.map RunReport.vocabulary) r.vocabulary hothers
  show Except.ok (Members.set (buckets rs) r.vocabulary _) = _
  rw [buckets, hset, buckets, List.map_append]
  rfl

/-- A run that is added to the statistics of some runs makes them those of the runs with that one. -/
theorem add_ofRuns (rs : List RunReport) (r : RunReport) :
    add r.counts (.text r.vocabulary) (ofRuns rs) = .ok (ofRuns (rs ++ [r])) := by
  have hbuckets := bumpVocabulary_buckets rs r
  -- Beside the bucket of all runs there is nothing yet, or there are the buckets of the vocabularies.
  have hadd {stats : Json} {more : Members} (hbump : bump r.counts stats = .ok (bucket (rs ++ [r]) ++ more))
      (hmore : (more.get? "vocabularies").getD (.object []) = .object (buckets rs)) :
      add r.counts (.text r.vocabulary) stats = .ok (.object (bucket (rs ++ [r]) ++
        more.set "vocabularies" (.object (buckets (rs ++ [r]))))) := by
    have hget : (Members.get? (bucket (rs ++ [r]) ++ more) "vocabularies").getD (.object []) =
        .object (buckets rs) := hmore
    unfold add
    simp only [hbump, bind, Except.bind, hget, Json.membersFor, hbuckets]
    rfl
  rw [ofRuns, ofRuns, if_neg (List.append_ne_nil_of_right_ne_nil rs (List.cons_ne_nil r []))]
  split_ifs with hnone
  · subst hnone
    exact hadd (bump_nil r) rfl
  · exact hadd (bump_bucket rs _ r) rfl

/-! ### What stands in the statistics -/

/-- What stands under the keys of a counter in the bucket of some runs: what they add to it together, if
one of them has made it. -/
theorem at?_bucket {rs : List RunReport} (hrs : rs ≠ []) (more : Members) (c : Counter) :
    (Json.object (bucket rs ++ more)).at? c.keys =
      if rs.any c.isMade then some (.int (c.total rs)) else none := by
  obtain ⟨r, rest, rfl⟩ := List.exists_cons_of_ne_nil hrs
  cases c with
  | label name =>
    have hmade : name ∈ ((r :: rest).flatMap RunReport.labels).map Prod.fst ↔
        (r :: rest).any (Counter.isMade · (.label name)) = true := by
      simp only [List.map_flatMap, List.mem_flatMap, List.any_eq_true, Counter.isMade, decide_eq_true_eq]
    show ((Members.get? (labelMembers ((r :: rest).flatMap RunReport.labels)) name).bind (Json.at? [])) = _
    rw [labelMembers, get?_byFirst, labelTotal_flatMap]
    simp only [hmade]
    split_ifs <;> rfl
  | _ => rfl

/-- A counter of all runs is what they add to it together. -/
theorem at?_ofRuns (rs : List RunReport) (c : Counter) :
    (ofRuns rs).at? c.keys = if rs.any c.isMade then some (.int (c.total rs)) else none := by
  unfold ofRuns
  split_ifs with hnone hmade
  · subst hnone
    cases hmade
  · cases c <;> rfl
  all_goals rw [at?_bucket hnone]
  · rw [if_pos ‹_›]
  · rw [if_neg ‹_›]

/-- A counter of a vocabulary is what its runs add to it together. -/
theorem at?_vocabulary (rs : List RunReport) (name : Text) (c : Counter) :
    (ofRuns rs).at? ("vocabularies" :: name :: c.keys) =
      if (RunReport.ofVocabulary name rs).any c.isMade then
        some (.int (c.total (RunReport.ofVocabulary name rs)))
      else none := by
  by_cases hin : name ∈ rs.map RunReport.vocabulary
  · have hrs : rs ≠ [] := by
      rintro rfl
      cases hin
    have hown : RunReport.ofVocabulary name rs ≠ [] := by
      obtain ⟨r, hr, rfl⟩ := List.mem_map.mp hin
      exact List.ne_nil_of_mem (List.mem_filter.mpr ⟨hr, decide_eq_true rfl⟩)
    have hbucket := at?_bucket hown [] c
    rw [List.append_nil] at hbucket
    rw [ofRuns, if_neg hrs, ← hbucket]
    show ((Members.get? (buckets rs) name).bind (Json.at? c.keys)) = _
    rw [buckets, get?_byFirst, if_pos hin]
    rfl
  · have hown : RunReport.ofVocabulary name rs = [] :=
      List.filter_eq_nil_iff.mpr fun r hr heq => hin (List.mem_map.mpr ⟨r, hr, of_decide_eq_true heq⟩)
    rw [hown, List.any_nil, if_neg Bool.false_ne_true, ofRuns]
    split_ifs with hrs
    · rfl
    · show ((Members.get? (buckets rs) name).bind (Json.at? c.keys)) = _
      rw [buckets, get?_byFirst, if_neg hin]
      rfl

/-- A counter of all runs is the sum of those of the vocabularies. -/
theorem total_by_vocabulary (rs : List RunReport) (c : Counter) :
    ((RunReport.vocabularies rs).map fun name => c.total (RunReport.ofVocabulary name rs)).sum =
      c.total rs := by
  refine sum_by_key RunReport.vocabulary (Counter.added · c) rs (nodup_eraseDups _) fun r hr => ?_
  exact List.mem_eraseDups.mpr (List.mem_map_of_mem hr)

/-! ### Reading them back -/

end Statistics

namespace RunReport

/-- Whether the counters of some runs have no more digits than are written. -/
def Short (rs : List RunReport) : Prop := ∀ c : Counter, c.total rs < 10 ^ Json.maxDigits

/-- Whether the names in a run are texts without the two halves of one character in them: in ASCII those
would be written as that character is. -/
structure Named (r : RunReport) : Prop where
  vocabulary : r.vocabulary.Unpaired
  label : ∀ c ∈ r.labels, c.1.Unpaired

/-- Fewer runs add up to no more. -/
theorem Short.of_append {rs rs' : List RunReport} (h : Short (rs ++ rs')) : Short rs := fun c => by
  have hle : c.total rs ≤ c.total (rs ++ rs') := by
    rw [Counter.total_append]
    exact Nat.le_add_right _ _
  exact hle.trans_lt (h c)

end RunReport

theorem Json.anyLongMember_eq_false {ms : Members} :
    Json.anyLongMember ms = false ↔ ∀ m ∈ ms, m.2.hasLongNumeral = false := by
  induction ms with
  | nil => simp [Json.anyLongMember]
  | cons m ms ih => rw [Json.anyLongMember, Bool.or_eq_false_iff, ih, List.forall_mem_cons]

namespace Statistics

theorem short_ofVocabulary {rs : List RunReport} (h : RunReport.Short rs) (name : Text) :
    RunReport.Short (RunReport.ofVocabulary name rs) := fun c => by
  have hle : c.total (RunReport.ofVocabulary name rs) ≤ c.total rs :=
    (List.filter_sublist.map _).sum_le_sum fun _ _ => Nat.zero_le _
  exact hle.trans_lt (h c)

/-- Whether a value is written in ASCII without a fault and read back, and how deep it is nested at most. -/
structure Storable (depth : Nat) (v : Json) : Prop where
  readable : Json.Readable true v
  nesting : v.nesting ≤ depth
  short : v.hasLongNumeral = false

namespace Storable

theorem mono {depth depth' : Nat} {v : Json} (h : Storable depth v) (hle : depth ≤ depth') :
    Storable depth' v :=
  ⟨h.readable, h.nesting.trans hle, h.short⟩

theorem count {n : Nat} (h : n < 10 ^ Json.maxDigits) (depth : Nat) : Storable depth (.int n) where
  readable := by
    rw [Json.Readable]
    show (List.map CodePoint.ofChar (Nat.toDigits 10 n)).length ≤ Json.maxDigits
    rw [List.length_map]
    exact (Nat.length_toDigits_le_iff (by decide) (by decide)).mpr h
  nesting := Nat.zero_le depth
  short := by
    generalize hdigits : Json.maxDigits = digits at h
    rw [Json.hasLongNumeral, decide_eq_false_iff_not, Int.natAbs_natCast, Nat.not_le, hdigits]
    exact h

theorem object {depth : Nat} {ms : Members} (hkeys : (ms.map Prod.fst).Nodup)
    (hms : ∀ m ∈ ms, m.1.Unpaired ∧ Storable depth m.2) : Storable (depth + 1) (.object ms) where
  readable := by
    rw [Json.Readable, Json.readableMembers_iff]
    exact ⟨hkeys, fun m hm => ⟨fun _ => (hms m hm).1, (hms m hm).2.readable⟩⟩
  nesting := by
    rw [Json.nesting]
    exact Nat.succ_le_succ (Json.nestingMembers_le fun m hm => (hms m hm).2.nesting)
  short := by
    rw [Json.hasLongNumeral]
    exact Json.anyLongMember_eq_false.mpr fun m hm => (hms m hm).2.short

end Storable

section Stored

variable {rs : List RunReport} (hshort : RunReport.Short rs) (hnamed : ∀ r ∈ rs, r.Named)

include hshort hnamed

theorem storable_labels : Storable 1 (.object (labelMembers (rs.flatMap RunReport.labels))) := by
  refine .object ?_ fun m hm => ?_
  · rw [labelMembers, keys_byFirst]
    exact nodup_eraseDups _
  obtain ⟨label, hlabel, rfl⟩ := List.mem_map.mp hm
  obtain ⟨c, hc, rfl⟩ := List.mem_map.mp (List.mem_eraseDups.mp hlabel)
  obtain ⟨r, hr, hcr⟩ := List.mem_flatMap.mp hc
  refine ⟨(hnamed r hr).label c hcr, .count ?_ 0⟩
  rw [labelTotal_flatMap]
  exact hshort _

theorem storable_counters : ∀ m ∈ bucket rs, m.1.Unpaired ∧ Storable 1 m.2 := by
  have hkey (s : String) : (s : Text).Unpaired := Text.unpaired_of_encodable (Utf8.encodable_ofString s)
  have hcount (c : Counter) : Storable 1 (.int (c.total rs)) := .count (hshort c) 1
  simp only [bucket, List.forall_mem_cons, List.not_mem_nil, false_implies, implies_true, and_true]
  exact ⟨⟨hkey _, hcount _⟩, ⟨hkey _, hcount _⟩, ⟨hkey _, hcount _⟩, hkey _,
    storable_labels hshort hnamed⟩

theorem storable_buckets : Storable 3 (.object (buckets rs)) := by
  refine .object ?_ fun m hm => ?_
  · rw [buckets, keys_byFirst]
    exact nodup_eraseDups _
  obtain ⟨name, hname, rfl⟩ := List.mem_map.mp hm
  obtain ⟨r, hr, rfl⟩ := List.mem_map.mp (List.mem_eraseDups.mp hname)
  have hcounters := storable_counters (short_ofVocabulary hshort r.vocabulary) fun r' hr' =>
    hnamed r' (List.mem_filter.mp hr').1
  refine ⟨(hnamed r hr).vocabulary, .object ?_ hcounters⟩
  show (["runs", "documents", "failures", "labels"] : List Text).Nodup
  decide

/-- The statistics of some runs are written and read back as they were, while their numbers are short
enough. -/
theorem storable_ofRuns : Storable 4 (ofRuns rs) := by
  have hkey (s : String) : (s : Text).Unpaired := Text.unpaired_of_encodable (Utf8.encodable_ofString s)
  unfold ofRuns
  split_ifs with hnone
  · exact .object List.nodup_nil (List.forall_mem_nil _)
  refine .object ?_ fun m hm => ?_
  · show (["runs", "documents", "failures", "labels", "vocabularies"] : List Text).Nodup
    decide
  rcases List.mem_append.mp hm with hm | hm
  · obtain ⟨hname, hstorable⟩ := storable_counters hshort hnamed m hm
    exact ⟨hname, hstorable.mono (by decide)⟩
  · obtain rfl := List.mem_singleton.mp hm
    exact ⟨hkey _, storable_buckets hshort hnamed⟩

end Stored

end Statistics

end TitleClasses
