import TitleClasses.Assignment.Classifier
import TitleClasses.Proofs.Action
import TitleClasses.Proofs.Assignment.Finding
import TitleClasses.Proofs.Text.Words

/-!
# What strategies find together

Strategies are asked one after another, each where those before it have left the state; `Replies` tells
what they reply in a run. Classifying answers if all of them do, and otherwise fails as the first one that
has failed (`classify_of_answered`, `classify_of_failed`). What it makes of the replies is told without
their order but for the first fault (`Joins`, `joins_classify`): the answer has the labels of all of them,
stripped and without blank ones, in increasing order. An increasing list is known by its members, so that of
strategies that reply the same wherever they are asked neither order nor repetition matters (`classify_same`).
Stripping a label once more does nothing, so that what was found adds nothing when it is a reply in its turn
(`classify_fed`).
-/

namespace TitleClasses

/-- What a strategy replies: labels, of which some may be absent, or a fault. -/
abbrev Reply := Except Fault (List (Option Text))

/-- The strategy that has one reply to everything. -/
def Strategy.fixed {σ : Type} (reply : Reply) : Strategy σ :=
  ⟨"FixedStrategy", fun _ => Action.ofExcept reply⟩

namespace Classifier

/-! ### Clean labels -/

section Clean

variable {labels : List (Option Text)} {l : Text}

theorem clean_increasing (labels : List (Option Text)) : Text.Increasing (clean labels) :=
  Text.sortDistinct_increasing _

theorem mem_clean : l ∈ clean labels ↔ ∃ label, some label ∈ labels ∧ label.isBlank = false ∧
    l = label.strip := by
  unfold clean
  simp only [Text.mem_sortDistinct, List.mem_map, List.mem_filterMap, Policy.usable?_eq_some]
  constructor
  · rintro ⟨label, ⟨_, hmem, rfl, hblank⟩, rfl⟩
    exact ⟨label, hmem, hblank, rfl⟩
  · rintro ⟨label, hmem, hblank, rfl⟩
    exact ⟨label, ⟨_, hmem, rfl, hblank⟩, rfl⟩

/-- An increasing list of labels that are not blank and have no white space at their ends is clean. -/
theorem clean_of_stripped {ls : List Text} (hls : Text.Increasing ls)
    (h : ∀ l ∈ ls, l.isBlank = false ∧ l.strip = l) : clean (ls.map some) = ls := by
  refine Text.eq_of_mem_iff (clean_increasing _) hls fun l => ?_
  simp only [mem_clean, List.mem_map, Option.some.injEq, exists_eq_right]
  constructor
  · rintro ⟨label, hmem, -, rfl⟩
    rw [(h label hmem).2]
    exact hmem
  · intro hmem
    exact ⟨l, hmem, (h l hmem).1, (h l hmem).2.symm⟩

end Clean

/-! ### Asking -/

variable {σ : Type} [LogKeeper σ] {element : Element} {strategies : List (Strategy σ)} {w : σ}
  {replies : List Reply} {founds : List (List (Option Text))}

/-- What strategies reply when they are asked one after another from a state on. None is asked any more when
one has failed, and so nothing is said of the replies behind a fault. -/
inductive Replies (element : Element) : List (Strategy σ) → σ → List Reply → Prop
  | nil (w : σ) : Replies element [] w []
  | answered {s : Strategy σ} {others : List (Strategy σ)} {w : σ} {found : List (Option Text)}
      {replies : List Reply} (hs : ((s.labels element).run w).result = .ok found)
      (hothers : Replies element others ((ask element s).run w).state replies) :
      Replies element (s :: others) w (.ok found :: replies)
  | failed {s : Strategy σ} {others : List (Strategy σ)} {w : σ} {f : Fault} {replies : List Reply}
      (hs : ((s.labels element).run w).result = .error f) (hlength : replies.length = others.length) :
      Replies element (s :: others) w (.error f :: replies)

/-- A strategy that is asked replies what it finds. -/
theorem ask_result (s : Strategy σ) : ((ask element s).run w).result = ((s.labels element).run w).result := by
  unfold ask
  rcases h : ((s.labels element).run w).result with f | found
  · rw [Action.run_bind_error h]
  · rw [Action.run_bind_ok h]
    rfl

/-- In every run strategies have some replies. -/
theorem exists_replies (element : Element) (strategies : List (Strategy σ)) (w : σ) :
    ∃ replies, Replies element strategies w replies := by
  induction strategies generalizing w with
  | nil => exact ⟨[], .nil w⟩
  | cons s others ih =>
    rcases hs : ((s.labels element).run w).result with f | found
    · exact ⟨.error f :: List.replicate others.length (.error f), .failed hs List.length_replicate⟩
    · obtain ⟨replies, hreplies⟩ := ih ((ask element s).run w).state
      exact ⟨.ok found :: replies, .answered hs hreplies⟩

/-- If all strategies answer, their answers are what was found. -/
theorem each_of_answered (h : Replies element strategies w replies) (hall : replies = founds.map .ok) :
    ((Action.each (ask element) strategies).run w).result = .ok founds := by
  induction h generalizing founds with
  | nil w =>
    obtain rfl := List.map_eq_nil_iff.mp hall.symm
    rfl
  | @answered s others w found replies hs _ ih =>
    obtain ⟨found', founds', rfl, hfound, hfounds⟩ := List.map_eq_cons_iff.mp hall.symm
    obtain rfl := Except.ok.inj hfound
    exact (Action.each_cons_ok ((ask_result s).trans hs) (ih hfounds.symm)).1
  | failed =>
    obtain ⟨_, _, _, hfound, _⟩ := List.map_eq_cons_iff.mp hall.symm
    cases hfound

/-- If a strategy fails and none before it has, that is how asking ends. -/
theorem each_of_failed {f : Fault} {behind : List Reply} (h : Replies element strategies w replies)
    (hfirst : replies = founds.map .ok ++ .error f :: behind) :
    ((Action.each (ask element) strategies).run w).result = .error f := by
  induction h generalizing founds with
  | nil w => simp at hfirst
  | @answered s others w found replies hs _ ih =>
    cases founds with
    | nil =>
      obtain ⟨hfound, -⟩ := List.cons.inj hfirst
      cases hfound
    | cons found' founds =>
      obtain ⟨-, hreplies⟩ := List.cons.inj hfirst
      rw [Action.run_each_cons ((ask_result s).trans hs), ih hreplies]
      rfl
  | @failed s others w f' replies hs _ =>
    cases founds with
    | nil =>
      obtain ⟨hfault, -⟩ := List.cons.inj hfirst
      obtain rfl := Except.error.inj hfault
      rw [Action.each_cons, Action.run_bind_error ((ask_result s).trans hs)]
    | cons found' founds =>
      obtain ⟨hfault, -⟩ := List.cons.inj hfirst
      cases hfault

/-- Classifying answers if all strategies do. -/
theorem classify_of_answered (h : Replies element strategies w (founds.map .ok)) :
    ((classify strategies element).run w).result = .ok (clean founds.flatten) := by
  unfold classify
  rw [Action.run_bind_ok (each_of_answered h rfl)]
  rfl

/-- It fails as the first strategy that fails. -/
theorem classify_of_failed {f : Fault} {behind : List Reply}
    (h : Replies element strategies w (founds.map .ok ++ .error f :: behind)) :
    ((classify strategies element).run w).result = .error f := by
  unfold classify
  rw [Action.run_bind_error (each_of_failed h rfl)]

/-! ### What is made of replies -/

/-- Whether a fault is the first among replies. -/
def FirstFault (replies : List Reply) (f : Fault) : Prop :=
  ∃ (founds : List (List (Option Text))) (behind : List Reply), replies = founds.map .ok ++ .error f :: behind

/-- Either all replies are answers, or there is a first fault. -/
theorem answered_or_failed (replies : List Reply) :
    (∃ founds : List (List (Option Text)), replies = founds.map .ok) ∨ ∃ f, FirstFault replies f := by
  induction replies with
  | nil => exact .inl ⟨[], rfl⟩
  | cons r replies ih =>
    rcases r with f | found
    · exact .inr ⟨f, [], replies, rfl⟩
    · rcases ih with ⟨founds, rfl⟩ | ⟨f, founds, behind, rfl⟩
      · exact .inl ⟨found :: founds, rfl⟩
      · exact .inr ⟨f, found :: founds, behind, rfl⟩

theorem FirstFault.mem {f : Fault} (h : FirstFault replies f) : .error f ∈ replies := by
  obtain ⟨founds, behind, rfl⟩ := h
  exact List.mem_append_right _ List.mem_cons_self

/-- Whether a result is what is to be made of replies: if none is a fault, the labels of all of them that are
there and not blank, stripped, each once and in increasing order; otherwise the first fault. -/
structure Joins (replies : List Reply) (result : Except Fault (List Text)) : Prop where
  answer : (∃ labels, result = .ok labels) ↔ ∀ f, .error f ∉ replies
  increasing : ∀ labels, result = .ok labels → Text.Increasing labels
  labels : ∀ labels, result = .ok labels → ∀ l, l ∈ labels ↔ ∃ found, .ok found ∈ replies ∧
    ∃ label, some label ∈ found ∧ label.isBlank = false ∧ l = label.strip
  fault : ∀ f, result = .error f ↔ FirstFault replies f

/-- Labels that were made of replies are not blank, and have no white space at their ends. -/
theorem Joins.stripped {result : Except Fault (List Text)} {labels : List Text} (h : Joins replies result)
    (hresult : result = .ok labels) : ∀ l ∈ labels, l.isBlank = false ∧ l.strip = l := by
  intro l hl
  obtain ⟨-, -, label, -, hblank, rfl⟩ := (h.labels _ hresult l).mp hl
  exact ⟨by rw [Text.isBlank_strip, hblank], Text.strip_strip label⟩

/-- Classifying makes of the replies of strategies what is to be made of them. -/
theorem joins_classify (h : Replies element strategies w replies) :
    Joins replies ((classify strategies element).run w).result := by
  rcases answered_or_failed replies with ⟨founds, rfl⟩ | ⟨f, hfirst⟩
  · have hnone (f : Fault) : (.error f : Reply) ∉ founds.map .ok := by simp
    rw [classify_of_answered h]
    refine ⟨iff_of_true ⟨_, rfl⟩ hnone, ?_, ?_, fun f => iff_of_false (fun heq => nomatch heq) ?_⟩
    · rintro _ ⟨⟩
      exact clean_increasing _
    · rintro _ ⟨⟩ l
      simp only [mem_clean, List.mem_flatten, List.mem_map, Except.ok.injEq, exists_eq_right]
      constructor
      · rintro ⟨label, ⟨found, hfound, hmem⟩, hlabel⟩
        exact ⟨found, hfound, label, hmem, hlabel⟩
      · rintro ⟨found, hfound, label, hmem, hlabel⟩
        exact ⟨label, ⟨found, hfound, hmem⟩, hlabel⟩
    · exact fun hfirst => hnone f hfirst.mem
  · have hfails (f : Fault) (hfirst : FirstFault replies f) :
        ((classify strategies element).run w).result = .error f := by
      obtain ⟨founds, behind, rfl⟩ := hfirst
      exact classify_of_failed h
    have hresult := hfails f hfirst
    refine ⟨iff_of_false (by simp [hresult]) fun hnone => hnone f hfirst.mem, by simp [hresult],
      by simp [hresult], fun f' => ⟨fun heq => ?_, hfails f'⟩⟩
    obtain rfl := Except.error.inj (hresult.symm.trans heq)
    exact hfirst

/-- Replies that answer with the same labels, in whatever order and however often, make the same. -/
theorem Joins.eq_ok {given : List Reply} {result other : Except Fault (List Text)} {labels : List Text}
    (h : Joins replies result) (h' : Joins given other) (hresult : result = .ok labels)
    (hnone : ∀ f, .error f ∉ given)
    (hsame : ∀ l, (∃ found, .ok found ∈ given ∧ ∃ label, some label ∈ found ∧ label.isBlank = false ∧
      l = label.strip) ↔ l ∈ labels) : other = .ok labels := by
  obtain ⟨labels', hother⟩ := h'.answer.mpr hnone
  have hequal : labels' = labels := by
    refine Text.eq_of_mem_iff (h'.increasing _ hother) (h.increasing _ hresult) fun l => ?_
    rw [h'.labels _ hother, hsame]
  rw [hother, hequal]

/-! ### Strategies that reply the same wherever they are asked -/

/-- Whether a strategy, wherever an invariant holds, has a certain reply for an element and keeps the
invariant. -/
structure Settled (I : σ → Prop) (element : Element) (s : Strategy σ) (reply : Reply) : Prop where
  result : ∀ w, I w → ((s.labels element).run w).result = reply
  keeps : ∀ w, I w → I ((s.labels element).run w).state

section Settled

variable {I : σ → Prop} (hkeep : ∀ log w, I w → I (LogKeeper.keep log w)) {reply : Strategy σ → Reply}
  (hsettled : ∀ s ∈ strategies, Settled I element s (reply s))
include hkeep hsettled

/-- Such strategies have their replies in every order. -/
theorem replies_of_settled (hw : I w) : Replies element strategies w (strategies.map reply) := by
  induction strategies generalizing w with
  | nil => exact .nil w
  | cons s others ih =>
    obtain ⟨hs, hothers⟩ := List.forall_mem_cons.mp hsettled
    have hresult := hs.result w hw
    rw [List.map_cons]
    rcases hreply : reply s with f | found
    · exact .failed (hresult.trans hreply) (List.length_map _)
    · have hasked : I ((ask element s).run w).state := by
        unfold ask
        rw [Action.run_bind_ok (hresult.trans hreply)]
        exact hkeep _ _ (hs.keeps w hw)
      exact .answered (hresult.trans hreply) (ih hothers hasked)

variable {labels : List Text} (hw : I w)
  (hlabels : ((classify strategies element).run w).result = .ok labels)
include hw hlabels

/-- Neither the order of the strategies nor their repetitions make a difference to the labels. -/
theorem classify_same {others : List (Strategy σ)} {w' : σ} (hothers : ∀ s, s ∈ others ↔ s ∈ strategies)
    (hw' : I w') : ((classify others element).run w').result = .ok labels := by
  have h := joins_classify (replies_of_settled hkeep hsettled hw)
  have hsettled' : ∀ s ∈ others, Settled I element s (reply s) := fun s hs => hsettled s ((hothers s).mp hs)
  have hmem (r : Reply) : r ∈ others.map reply ↔ r ∈ strategies.map reply := by
    simp only [List.mem_map, hothers]
  refine h.eq_ok (joins_classify (replies_of_settled hkeep hsettled' hw')) hlabels ?_ fun l => ?_
  · simpa only [hmem] using h.answer.mp ⟨labels, hlabels⟩
  · rw [h.labels _ hlabels]
    simp only [hmem]

/-- Labels that were found add nothing when they are a reply in their turn. -/
theorem classify_fed {s : Strategy σ} (hs : Settled I element s (.ok (labels.map some)))
    {fed : List (Strategy σ)} {w' : σ} (hmem : s ∈ fed) (hfed : ∀ x ∈ fed, x = s ∨ x ∈ strategies)
    (hw' : I w') : ((classify fed element).run w').result = .ok labels := by
  classical
  have h := joins_classify (replies_of_settled hkeep hsettled hw)
  -- What is fed replies the labels, whatever it has replied among the others.
  let replyFed := Function.update reply s (.ok (labels.map some))
  have hself : replyFed s = .ok (labels.map some) := Function.update_self ..
  have hreply : ∀ x ∈ fed, replyFed x = .ok (labels.map some) ∧ x = s ∨
      replyFed x = reply x ∧ x ∈ strategies := by
    intro x hx
    by_cases hxs : x = s
    · exact .inl ⟨hxs ▸ hself, hxs⟩
    · exact .inr ⟨Function.update_of_ne hxs .., (hfed x hx).resolve_left hxs⟩
  have hsettled' : ∀ x ∈ fed, Settled I element x (replyFed x) := by
    intro x hx
    rcases hreply x hx with ⟨heq, rfl⟩ | ⟨heq, hx'⟩
    · exact heq ▸ hs
    · exact heq ▸ hsettled x hx'
  have h' := joins_classify (replies_of_settled hkeep hsettled' hw')
  refine h.eq_ok h' hlabels ?_ fun l => ⟨?_, fun hl => ?_⟩
  · intro f hf
    obtain ⟨x, hx, hfault⟩ := List.mem_map.mp hf
    rcases hreply x hx with ⟨heq, -⟩ | ⟨heq, hx'⟩
    · cases heq.symm.trans hfault
    · exact h.answer.mp ⟨labels, hlabels⟩ f (List.mem_map.mpr ⟨x, hx', heq.symm.trans hfault⟩)
  · rintro ⟨found, hfound, label, hlabel, hblank, rfl⟩
    obtain ⟨x, hx, hanswer⟩ := List.mem_map.mp hfound
    rcases hreply x hx with ⟨heq, -⟩ | ⟨heq, hx'⟩
    · -- Stripping a label that was found leaves it as it is.
      obtain rfl := Except.ok.inj (heq.symm.trans hanswer)
      obtain ⟨l, hl, rfl⟩ : ∃ l ∈ labels, l = label := by simpa using hlabel
      rw [(h.stripped hlabels l hl).2]
      exact hl
    · exact (h.labels _ hlabels _).mpr
        ⟨found, List.mem_map.mpr ⟨x, hx', heq.symm.trans hanswer⟩, label, hlabel, hblank, rfl⟩
  · obtain ⟨hblank, hstrip⟩ := h.stripped hlabels l hl
    exact ⟨labels.map some, List.mem_map.mpr ⟨s, hmem, hself⟩, l, List.mem_map_of_mem hl, hblank, hstrip.symm⟩

end Settled

omit [LogKeeper σ] in
theorem settled_fixed (element : Element) (reply : Reply) :
    Settled (fun _ => True) element (Strategy.fixed reply : Strategy σ) reply := by
  refine ⟨fun w _ => ?_, fun _ _ => trivial⟩
  rcases reply with f | found <;> rfl

/-- What several strategies find together. In every run each of them has a reply, and what classifying makes
of the replies, whatever they are, is the labels that are there and not blank, stripped, each once and in
increasing order; but if a strategy fails, nothing else than the fault of the first that does. Of strategies
that reply the same wherever they are asked the answer is the same in every order and with every repetition,
and is not changed by a strategy that replies what was found. -/
theorem classify_joins (element : Element) :
    (∀ (strategies : List (Strategy σ)) (w : σ), (∃ replies, Replies element strategies w replies) ∧
      ∀ replies, Replies element strategies w replies →
        Joins replies ((classify strategies element).run w).result) ∧
    ∀ I : σ → Prop, (∀ log w, I w → I (LogKeeper.keep log w)) →
      ∀ (reply : Strategy σ → Reply) (strategies : List (Strategy σ)),
        (∀ s ∈ strategies, Settled I element s (reply s)) → ∀ w, I w →
        Replies element strategies w (strategies.map reply) ∧
        ∀ labels, ((classify strategies element).run w).result = .ok labels →
          (∀ (others : List (Strategy σ)) (w' : σ), (∀ s, s ∈ others ↔ s ∈ strategies) → I w' →
            ((classify others element).run w').result = .ok labels) ∧
          ∀ (s : Strategy σ) (fed : List (Strategy σ)) (w' : σ), Settled I element s (.ok (labels.map some)) →
            s ∈ fed → (∀ x ∈ fed, x = s ∨ x ∈ strategies) → I w' →
            ((classify fed element).run w').result = .ok labels := by
  refine ⟨fun strategies w => ⟨exists_replies element strategies w, fun _ => joins_classify⟩, ?_⟩
  intro I hkeep reply strategies hsettled w hw
  refine ⟨replies_of_settled hkeep hsettled hw, fun labels hlabels => ⟨fun others w' hothers hw' => ?_, ?_⟩⟩
  · exact classify_same hkeep hsettled hw hlabels hothers hw'
  · exact fun s fed w' hs hmem hfed hw' => classify_fed hkeep hsettled hw hlabels hs hmem hfed hw'

/-- Two strategies with labels that are absent, blank, padded or the same once they are stripped, asked in
two orders and with what they have found, and a third one that fails between them. -/
theorem classify_joins_finance :
    let element : Element := ⟨"monograph", false, [], []⟩
    let work : Strategy Engine := .fixed (.ok [some "Work", none, some " "])
    let finance : Strategy Engine := .fixed (.ok [some "Finance\n", some "Work "])
    let found : Strategy Engine := .fixed (.ok [some "Finance", some "Work"])
    let lost : Strategy Engine := .fixed (.error (.unknownVocabulary "music" "main"))
    let w := Engine.new fun _ => none
    ((classify [work, finance] element).run w).result = .ok ["Finance", "Work"] ∧
      ((classify [finance, work, finance] element).run w).result = .ok ["Finance", "Work"] ∧
      ((classify [finance, found, finance] element).run w).result = .ok ["Finance", "Work"] ∧
      ((classify [work, lost, finance] element).run w).result = .error (.unknownVocabulary "music" "main") := by
  intro element work finance found lost w
  let reply : Strategy Engine → Reply := fun s => ((s.labels element).run w).result
  have hsettled : ∀ s ∈ [work, finance], Settled (fun _ => True) element s (reply s) := by
    simp only [List.forall_mem_cons, List.not_mem_nil, false_imp_iff, implies_true, and_true]
    exact ⟨settled_fixed element _, settled_fixed element _⟩
  obtain ⟨hrun, hsame⟩ := classify_joins (σ := Engine) element
  have hlabels : ((classify [work, finance] element).run w).result = .ok ["Finance", "Work"] := rfl
  obtain ⟨-, hlabels'⟩ := hsame (fun _ => True) (fun _ _ _ => trivial) reply [work, finance] hsettled w trivial
  obtain ⟨horder, hfed⟩ := hlabels' _ hlabels
  refine ⟨hlabels, horder _ w ?_ trivial, hfed found _ w (settled_fixed element _) ?_ ?_ trivial, ?_⟩
  · intro s
    simp only [List.mem_cons, List.not_mem_nil, or_false]
    tauto
  · simp
  · intro s
    simp only [List.mem_cons, List.not_mem_nil, or_false]
    tauto
  · -- The second of three replies is the first fault among them.
    have hreplies : Replies element [work, lost, finance] w
        [.ok [some "Work", none, some " "], .error (.unknownVocabulary "music" "main"), .ok []] :=
      .answered rfl (.failed rfl rfl)
    exact ((hrun _ w).2 _ hreplies).fault _ |>.mpr ⟨[[some "Work", none, some " "]], [.ok []], rfl⟩

end Classifier

end TitleClasses
