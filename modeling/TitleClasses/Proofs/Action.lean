import TitleClasses.Action

/-!
# What actions leave behind

One equation for each way of building an action. An action that goes on after another one is opened
from the front: `run_bind_ok` when the first one has answered, `run_bind_error` when it has not, and the
shorter equations when the first one can only do one thing. `result_bind_eq_ok` reads a whole that has
answered backwards into its two parts.
-/

namespace TitleClasses.Action

variable {σ τ α β : Type}

@[simp] theorem run_pure (x : α) (s : σ) : (pure x : Action σ α).run s = ⟨.ok x, s, []⟩ := rfl

@[simp] theorem run_answer (x : α) (s : σ) : (answer x : Action σ α).run s = ⟨.ok x, s, []⟩ := rfl

@[simp] theorem run_fail (f : Fault) (s : σ) : (fail f : Action σ α).run s = ⟨.error f, s, []⟩ := rfl

@[simp] theorem run_state (s : σ) : (state : Action σ σ).run s = ⟨.ok s, s, []⟩ := rfl

@[simp] theorem run_replace (s' s : σ) : (replace s').run s = ⟨.ok (), s', []⟩ := rfl

@[simp] theorem run_update (f : σ → σ) (s : σ) : (update f).run s = ⟨.ok (), f s, []⟩ := rfl

@[simp] theorem run_tell [LogKeeper σ] (l : Log) (s : σ) :
    (tell l : Action σ Unit).run s = ⟨.ok (), LogKeeper.keep l s, l⟩ := rfl

@[simp] theorem run_note [LogKeeper σ] (level : Level) (source : LogSource) (m : Text) (s : σ) :
    (note level source m : Action σ Unit).run s =
      ⟨.ok (), LogKeeper.keep [⟨level, source, m⟩] s, [⟨level, source, m⟩]⟩ := rfl

@[simp] theorem run_attempt (a : Action σ α) (s : σ) :
    (attempt a).run s = ⟨.ok (a.run s).result, (a.run s).state, (a.run s).log⟩ := rfl

@[simp] theorem run_unlogged (a : Action σ α) (s : σ) :
    (unlogged a).run s = ⟨(a.run s).result, (a.run s).state, []⟩ := rfl

@[simp] theorem run_ofExcept (x : Except Fault α) (s : σ) :
    (ofExcept x : Action σ α).run s = ⟨x, s, []⟩ := by cases x <;> rfl

@[simp] theorem run_within (get : τ → σ) (set : σ → τ → τ) (a : Action σ α) (t : τ) :
    (within get set a).run t =
      ⟨(a.run (get t)).result, set (a.run (get t)).state t, (a.run (get t)).log⟩ := rfl

@[simp] theorem run_each_nil (f : α → Action σ β) (s : σ) :
    (each f []).run s = ⟨.ok [], s, []⟩ := rfl

theorem each_cons (f : α → Action σ β) (x : α) (xs : List α) :
    each f (x :: xs) = f x >>= fun y => each f xs >>= fun ys => answer (y :: ys) := rfl

/-! ### One action after another -/

@[simp] theorem run_pure_bind (x : α) (b : α → Action σ β) (s : σ) :
    ((pure x : Action σ α) >>= b).run s = (b x).run s := rfl

@[simp] theorem run_answer_bind (x : α) (b : α → Action σ β) (s : σ) :
    (answer x >>= b).run s = (b x).run s := rfl

@[simp] theorem run_fail_bind (f : Fault) (b : α → Action σ β) (s : σ) :
    (fail f >>= b).run s = ⟨.error f, s, []⟩ := rfl

@[simp] theorem run_state_bind (b : σ → Action σ β) (s : σ) :
    (state >>= b).run s = (b s).run s := rfl

@[simp] theorem run_replace_bind (s' : σ) (b : Unit → Action σ β) (s : σ) :
    (replace s' >>= b).run s = (b ()).run s' := rfl

@[simp] theorem run_update_bind (f : σ → σ) (b : Unit → Action σ β) (s : σ) :
    (update f >>= b).run s = (b ()).run (f s) := rfl

@[simp] theorem run_note_bind [LogKeeper σ] (level : Level) (source : LogSource) (m : Text)
    (b : Unit → Action σ β) (s : σ) :
    (note level source m >>= b).run s =
      ⟨((b ()).run (LogKeeper.keep [⟨level, source, m⟩] s)).result,
        ((b ()).run (LogKeeper.keep [⟨level, source, m⟩] s)).state,
        ⟨level, source, m⟩ :: ((b ()).run (LogKeeper.keep [⟨level, source, m⟩] s)).log⟩ := rfl

@[simp] theorem run_ofExcept_ok_bind (x : α) (b : α → Action σ β) (s : σ) :
    (ofExcept (.ok x) >>= b).run s = (b x).run s := rfl

@[simp] theorem run_ofExcept_error_bind (f : Fault) (b : α → Action σ β) (s : σ) :
    (ofExcept (.error f) >>= b).run s = ⟨.error f, s, []⟩ := rfl

/-- An action goes on where the first part has left the state, if that part has answered. -/
theorem run_bind_ok {a : Action σ α} {s : σ} {x : α} (h : (a.run s).result = .ok x)
    (b : α → Action σ β) :
    (a >>= b).run s = ⟨((b x).run (a.run s).state).result, ((b x).run (a.run s).state).state,
      (a.run s).log ++ ((b x).run (a.run s).state).log⟩ := by
  show andThen a b s = _
  unfold andThen
  unfold run at h ⊢
  rcases ha : a s with ⟨r, s', l⟩
  rw [ha] at h
  obtain rfl : r = .ok x := h
  rfl

/-- An action stops where its first part has left the state, if that part has failed. -/
theorem run_bind_error {a : Action σ α} {s : σ} {f : Fault} (h : (a.run s).result = .error f)
    (b : α → Action σ β) :
    (a >>= b).run s = ⟨.error f, (a.run s).state, (a.run s).log⟩ := by
  show andThen a b s = _
  unfold andThen
  unfold run at h ⊢
  rcases ha : a s with ⟨r, s', l⟩
  rw [ha] at h
  obtain rfl : r = .error f := h
  rfl

/-- An action that was attempted goes on with its answer or its fault. -/
theorem run_attempt_bind {a : Action σ α} {s : σ} {x : Except Fault α} (h : (a.run s).result = x)
    (b : Except Fault α → Action σ β) :
    (attempt a >>= b).run s = ⟨((b x).run (a.run s).state).result, ((b x).run (a.run s).state).state,
      (a.run s).log ++ ((b x).run (a.run s).state).log⟩ := by
  have hattempt : ((attempt a).run s).result = .ok x := congrArg Except.ok h
  exact run_bind_ok hattempt b

/-- What comes after depends on what the first part leaves behind. -/
theorem run_bind_congr {a a' : Action σ α} {s s' : σ} (h : a.run s = a'.run s') (b : α → Action σ β) :
    (a >>= b).run s = (a' >>= b).run s' := by
  show andThen a b s = andThen a' b s'
  unfold run at h
  unfold andThen
  rw [h]

/-- What is made of an answer leaves the state and the log records as they are. -/
theorem run_map (f : α → β) (a : Action σ α) (s : σ) :
    (a >>= fun x => pure (f x)).run s = ⟨(a.run s).result.map f, (a.run s).state, (a.run s).log⟩ := by
  rcases h : (a.run s).result with e | x
  · rw [run_bind_error h]
    rfl
  · rw [run_bind_ok h, run_pure, List.append_nil]
    rfl

/-- A whole has answered exactly when its first part has and then its second. -/
theorem result_bind_eq_ok {a : Action σ α} {b : α → Action σ β} {s : σ} {y : β} :
    ((a >>= b).run s).result = .ok y ↔
      ∃ x, (a.run s).result = .ok x ∧ ((b x).run (a.run s).state).result = .ok y := by
  cases h : (a.run s).result with
  | error f => simp [run_bind_error h]
  | ok x => simp [run_bind_ok h]

/-- What holds of the state from which both parts start holds where the whole ends. -/
theorem state_bind (P : σ → Prop) {a : Action σ α} {b : α → Action σ β} {s : σ}
    (ha : P (a.run s).state)
    (hb : ∀ x, (a.run s).result = .ok x → P ((b x).run (a.run s).state).state) :
    P ((a >>= b).run s).state := by
  cases h : (a.run s).result with
  | error f =>
    rw [run_bind_error h]
    exact ha
  | ok x =>
    rw [run_bind_ok h]
    exact hb x h

/-- An action that answers for the first item goes on to the others from there. -/
theorem run_each_cons {f : α → Action σ β} {x : α} {s : σ} {y : β} (hy : ((f x).run s).result = .ok y)
    (xs : List α) :
    let others := (each f xs).run ((f x).run s).state
    (each f (x :: xs)).run s =
      ⟨others.result.map (y :: ·), others.state, ((f x).run s).log ++ others.log⟩ := by
  intro others
  have hmore : (each f xs >>= fun ys => answer (y :: ys)).run ((f x).run s).state =
      ⟨others.result.map (y :: ·), others.state, others.log⟩ := run_map (y :: ·) (each f xs) _
  rw [each_cons, run_bind_ok hy, hmore]

/-- If it answers for the others too it answers for all, and ends where it has ended for them. -/
theorem each_cons_ok {f : α → Action σ β} {x : α} {xs : List α} {s : σ} {y : β} {ys : List β}
    (hy : ((f x).run s).result = .ok y)
    (hys : ((each f xs).run ((f x).run s).state).result = .ok ys) :
    ((each f (x :: xs)).run s).result = .ok (y :: ys) ∧
      ((each f (x :: xs)).run s).state = ((each f xs).run ((f x).run s).state).state := by
  rw [run_each_cons hy, hys]
  exact ⟨rfl, rfl⟩

/-- What holds at first and is kept for each item holds where the action ends for a list of them. -/
theorem each_state {f : α → Action σ β} {I : σ → Prop} (xs : List α)
    (h : ∀ x ∈ xs, ∀ s, I s → I ((f x).run s).state) {s : σ} (hs : I s) : I ((each f xs).run s).state := by
  induction xs generalizing s with
  | nil => exact hs
  | cons x xs ih =>
    obtain ⟨hx, hxs⟩ := List.forall_mem_cons.mp h
    rcases hy : ((f x).run s).result with e | y
    · rw [each_cons, run_bind_error hy]
      exact hx s hs
    · rw [run_each_cons hy]
      exact ih hxs (hx s hs)

/-- What was answered for a list of items is an answer for each of them. -/
theorem length_of_each {f : α → Action σ β} {xs : List α} {s : σ} {ys : List β}
    (h : ((each f xs).run s).result = .ok ys) : ys.length = xs.length := by
  induction xs generalizing s ys with
  | nil =>
    obtain rfl := Except.ok.inj h
    rfl
  | cons x xs ih =>
    rw [each_cons] at h
    obtain ⟨y, -, h⟩ := result_bind_eq_ok.mp h
    obtain ⟨ys', hys, h⟩ := result_bind_eq_ok.mp h
    obtain rfl := Except.ok.inj h
    exact congrArg (· + 1) (ih hys)

/-- An action that keeps an invariant, and has answers and faults of certain kinds where it holds, has
no others for a list of items. -/
theorem each_invariant {f : α → Action σ β} {I : σ → Prop} {R : β → Prop} {E : Fault → Prop}
    (xs : List α) (h : ∀ x ∈ xs, ∀ s, I s → I ((f x).run s).state ∧
      (∀ y, ((f x).run s).result = .ok y → R y) ∧ ∀ e, ((f x).run s).result = .error e → E e)
    {s : σ} (hs : I s) :
    (∀ ys, ((each f xs).run s).result = .ok ys → ∀ y ∈ ys, R y) ∧
      ∀ e, ((each f xs).run s).result = .error e → E e := by
  induction xs generalizing s with
  | nil =>
    refine ⟨fun ys hys => ?_, fun e he => nomatch he⟩
    obtain rfl := Except.ok.inj hys
    exact List.forall_mem_nil R
  | cons x xs ih =>
    obtain ⟨hx, hxs⟩ := List.forall_mem_cons.mp h
    obtain ⟨hkept, hanswer, hfault⟩ := hx s hs
    obtain ⟨hanswers, hfaults⟩ := ih hxs hkept
    rw [each_cons]
    rcases hy : ((f x).run s).result with e | y
    · rw [run_bind_error hy]
      refine ⟨(fun ys hys => nomatch hys), fun e' he' => ?_⟩
      obtain rfl := Except.error.inj he'
      exact hfault e hy
    · rw [run_bind_ok hy]
      rcases hys : ((each f xs).run ((f x).run s).state).result with e | ys
      · rw [run_bind_error hys]
        refine ⟨(fun ys hys => nomatch hys), fun e' he' => ?_⟩
        obtain rfl := Except.error.inj he'
        exact hfaults e hys
      · rw [run_bind_ok hys]
        refine ⟨fun all hall => ?_, fun e he => nomatch he⟩
        obtain rfl := Except.ok.inj hall
        exact List.forall_mem_cons.mpr ⟨hanswer y hy, hanswers ys hys⟩

end TitleClasses.Action
