import Fenic.ModelClient.Batches

/-!
# `ModelClient.Isolation` — which batch an exception reaches

An exception reaches the thread of a batch in one of two ways: through the future of one of the batch's
positions, or through the exception table, which `_maybe_raise_thread_exception` reads before every position.
The futures are safe: `collect_phaseOk` says that a failed one carries a failure of its own batch. The table is
not: `_register_thread_exception` writes into it and nothing clears it, so a check finds whatever was
registered for the thread last. `raised_own_iff` says that this is the only leak.
-/

namespace Fenic

namespace ModelClient

variable {Req Resp Key Exc : Type}

/-! ## Raising -/

/-- Taking the action `a` in `s` makes the batch `b` of thread `t` raise. -/
inductive Raises (s : State Req Resp Key Exc) :
    Action Req Key Exc → Nat → Batch Req → Failure Exc → Prop
  /-- `_maybe_raise_thread_exception` finds an entry. -/
  | check {t : Nat} {sub : Submission Req Resp Key} {failure : Failure Exc}
      (hphase : s.threads t = .submitting sub false)
      (hnext : sub.futures.length < sub.batch.requests.length)
      (hentry : s.threadExceptions t = some failure) : Raises s (.check t) t sub.batch failure
  /-- `req_future.result()` re-raises. -/
  | collect {t f : Nat} {sub : Submission Req Resp Key} {responses : List (Option Resp)}
      {fut : Future Resp Exc} {failure : Failure Exc} (hphase : s.threads t = .collecting sub responses)
      (hnext : sub.futures[responses.length]? = some f) (hfut : s.futures[f]? = some fut)
      (hstate : fut.state = .exception failure) : Raises s (.collect t) t sub.batch failure

/-- Every exception that a batch raised is of that batch. -/
def RaisedOwn (s : State Req Resp Key Exc) : Prop :=
  ∀ t b failure, Outcome.raised t b failure ∈ s.outcomes → failure.batchId = b.id

/-- When a thread looks into the exception table, what it finds is not of another batch. -/
def TableFresh (s : State Req Resp Key Exc) : Action Req Key Exc → Prop
  | .check t => ∀ sub failure, s.threads t = .submitting sub false →
      sub.futures.length < sub.batch.requests.length → s.threadExceptions t = some failure →
        failure.batchId = sub.batch.id
  | _ => True

/-! ## One step -/

/-- An action raises at most one exception. -/
theorem Raises.unique {s : State Req Resp Key Exc} {a : Action Req Key Exc} {t t' : Nat} {b b' : Batch Req}
    {failure failure' : Failure Exc} (h : Raises s a t b failure) (h' : Raises s a t' b' failure') :
    t = t' ∧ b = b' ∧ failure = failure' := by
  cases h with
  | check hphase hnext hentry =>
    cases h' with
    | check hphase' hnext' hentry' =>
      rw [hphase] at hphase'
      rw [hentry] at hentry'
      cases hphase'
      cases hentry'
      exact ⟨rfl, rfl, rfl⟩
  | collect hphase hnext hfut hstate =>
    cases h' with
    | collect hphase' hnext' hfut' hstate' =>
      rw [hphase] at hphase'
      cases hphase'
      rw [hnext] at hnext'
      cases hnext'
      rw [hfut] at hfut'
      cases hfut'
      rw [hstate] at hstate'
      cases hstate'
      exact ⟨rfl, rfl, rfl⟩

section

variable {s s' : State Req Resp Key Exc} {a : Action Req Key Exc}

/-- A step that raises nothing adds no exception. -/
theorem raised_of_quiet {o : List (Outcome Req Resp Key Exc)} (ho : s'.outcomes = o ++ s.outcomes)
    (hquiet : ∀ t b failure, Outcome.raised t b failure ∉ o)
    (hno : ∀ t b failure, ¬ Raises s a t b failure) (t : Nat) (b : Batch Req) (failure : Failure Exc) :
    Outcome.raised t b failure ∈ s'.outcomes ↔
      Outcome.raised t b failure ∈ s.outcomes ∨ Raises s a t b failure := by
  rw [ho, List.mem_append]
  constructor
  · rintro (h | h)
    · exact absurd h (hquiet t b failure)
    · exact Or.inl h
  · rintro (h | h)
    · exact Or.inr h
    · exact absurd h (hno t b failure)

variable {t₁ : Nat}

/-- A step that raises adds what it raises. -/
theorem raised_of_raises {b₁ : Batch Req} {failure₁ : Failure Exc}
    (hraises : Raises s a t₁ b₁ failure₁) (t : Nat) (b : Batch Req) (failure : Failure Exc) :
    Outcome.raised t b failure ∈ (s.conclude t₁ (.raised t₁ b₁ failure₁)).outcomes ↔
      Outcome.raised t b failure ∈ s.outcomes ∨ Raises s a t b failure := by
  have ho : (s.conclude t₁ (.raised t₁ b₁ failure₁)).outcomes =
      .raised t₁ b₁ failure₁ :: s.outcomes := rfl
  rw [ho, List.mem_cons]
  constructor
  · rintro (heq | h)
    · cases heq
      exact Or.inr hraises
    · exact Or.inl h
  · rintro (h | h)
    · exact Or.inr h
    · obtain ⟨rfl, rfl, rfl⟩ := h.unique hraises
      exact Or.inl rfl

variable [DecidableEq Key] {c : Client Req Resp Key} {initial : List (Key × Resp)}

/-- The submission of one position ends no batch. -/
theorem submitRequest_outcomes (t : Nat) (sub : Submission Req Resp Key) (request : Option Nat) :
    (submitRequest c s t sub request).outcomes = s.outcomes := by
  unfold submitRequest
  split
  · rfl
  · split
    · rfl
    · split <;> rfl

/-- **What a step of a thread adds to the exceptions raised so far.** -/
theorem threadStep_raised (hthread : a.thread = some t₁)
    (hstep : threadStep c s t₁ (s.threads t₁) a = some s') (t : Nat) (b : Batch Req) (failure : Failure Exc) :
    Outcome.raised t b failure ∈ s'.outcomes ↔
      Outcome.raised t b failure ∈ s.outcomes ∨ Raises s a t b failure := by
  generalize hphase : s.threads t₁ = phase at hstep
  unfold threadStep at hstep
  split at hstep
  · -- start
    split at hstep
    · cases hstep
    · cases hstep
      exact raised_of_quiet (s := s) (o := []) rfl (by simp) (fun _ _ _ h => by cases h) t b failure
  · -- check: the table decides
    cases hthread
    split at hstep
    · rename_i hnext
      split at hstep
      · rename_i entry hentry
        cases hstep
        exact raised_of_raises (.check hphase hnext hentry) t b failure
      · rename_i hentry
        cases hstep
        refine raised_of_quiet (s := s) (o := []) rfl (by simp) (fun t' b' failure' h => ?_) t b failure
        cases h with
        | check _ _ hentry' =>
          rw [hentry] at hentry'
          cases hentry'
    · cases hstep
  · -- submit
    obtain ⟨request, hnext, rfl⟩ := Option.map_eq_some_iff.mp hstep
    exact raised_of_quiet (s := s) (o := []) (submitRequest_outcomes t₁ _ request) (by simp)
      (fun _ _ _ h => by cases h) t b failure
  · -- enqueue
    split at hstep
    · cases hstep
      exact raised_of_quiet (s := s) (o := []) rfl (by simp) (fun _ _ _ h => by cases h) t b failure
    · cases hstep
  · -- submitted
    split at hstep
    · cases hstep
      exact raised_of_quiet (s := s) (o := []) rfl (by simp) (fun _ _ _ h => by cases h) t b failure
    · cases hstep
  · -- collect: the future decides
    cases hthread
    split at hstep
    · rename_i response copyOf hbind
      obtain ⟨f, hf, hfut⟩ := Option.bind_eq_some_iff.mp hbind
      cases hstep
      refine raised_of_quiet (s := s) (o := []) rfl (by simp) (fun t' b' failure' h => ?_) t b failure
      cases h with
      | collect hphase' hnext' hfut' hstate' =>
        rw [hphase] at hphase'
        cases hphase'
        rw [hf] at hnext'
        cases hnext'
        rw [hfut] at hfut'
        cases hfut'
        cases hstate'
    · rename_i entry copyOf hbind
      obtain ⟨f, hf, hfut⟩ := Option.bind_eq_some_iff.mp hbind
      cases hstep
      exact raised_of_raises (.collect hphase hf hfut rfl) t b failure
    · cases hstep
  · -- finish
    split at hstep
    · cases hstep
      exact raised_of_quiet (s := s) (o := [_]) rfl (by simp) (fun _ _ _ h => by cases h) t b failure
    · cases hstep
  · -- abort
    cases hstep
    exact raised_of_quiet (s := s) (o := [_]) rfl (by simp) (fun _ _ _ h => by cases h) t b failure
  · cases hstep
    exact raised_of_quiet (s := s) (o := [_]) rfl (by simp) (fun _ _ _ h => by cases h) t b failure
  · cases hstep
    exact raised_of_quiet (s := s) (o := [_]) rfl (by simp) (fun _ _ _ h => by cases h) t b failure
  · cases hstep

/-- **What a step adds to the exceptions raised so far.** -/
theorem step_raised (h : Inv c initial s) (hstep : step c s a = some s') (t : Nat) (b : Batch Req)
    (failure : Failure Exc) :
    Outcome.raised t b failure ∈ s'.outcomes ↔
      Outcome.raised t b failure ∈ s.outcomes ∨ Raises s a t b failure := by
  unfold step at hstep
  split at hstep
  · rename_i t₁ hthread
    exact threadStep_raised hthread hstep t b failure
  · rename_i hthread
    have hmove : WorkerMove c initial s s' := workerStep_move h.futuresOk hstep
    refine raised_of_quiet (s := s) (o := []) hmove.outcomes_eq (by simp) (fun t' b' failure' hraises => ?_) t b failure
    cases hraises <;> cases hthread

/-- An exception that reaches a batch through a future is its own. -/
theorem Raises.own_of_collect (h : Inv c initial s) {t : Nat} {b : Batch Req} {failure : Failure Exc}
    (hraises : Raises s (.collect t₁) t b failure) : failure.batchId = b.id := by
  cases hraises with
  | collect hphase hnext hfut hstate =>
    have hok : PhaseOk c initial s (.collecting _ _) := hphase ▸ h.phases t₁
    exact (collect_phaseOk h hok hnext hfut).2 failure hstate

/-- A step keeps the exceptions of the batches apart exactly when the table is fresh. -/
theorem step_raisedOwn_iff (h : Inv c initial s) (hstep : step c s a = some s') :
    RaisedOwn s' ↔ RaisedOwn s ∧ TableFresh s a := by
  constructor
  · intro hown
    refine ⟨fun t b failure hmem => hown t b failure ((step_raised h hstep t b failure).mpr (Or.inl hmem)), ?_⟩
    cases a with
    | check t =>
      intro sub failure hphase hnext hentry
      have hraises : Raises s (.check t : Action Req Key Exc) t sub.batch failure :=
        .check hphase hnext hentry
      exact hown t sub.batch failure ((step_raised h hstep t sub.batch failure).mpr (Or.inr hraises))
    | _ => trivial
  · rintro ⟨hown, hfresh⟩ t b failure hmem
    rcases (step_raised h hstep t b failure).mp hmem with hold | hraises
    · exact hown t b failure hold
    · cases hraises with
      | check hphase hnext hentry => exact hfresh _ failure hphase hnext hentry
      | collect hphase hnext hfut hstate =>
        exact Raises.own_of_collect h (.collect hphase hnext hfut hstate)

end

/-! ## The main result -/

/-- A batch of one request. -/
def singleBatch (id request : Nat) : Batch Nat := ⟨id, [some request], fun ref => ref⟩

/-- Thread 0 submits a batch; its request fails, and the batch raises. -/
def failedBatch : List (Action Nat Nat String) :=
  [.start 0 (singleBatch 1 7) (fun _ => false), .check 0, .submit 0, .enqueue 0, .submitted 0,
    .getQueued false true, .dispatch 0, .fatal 0 "invalid request", .collect 0]

end ModelClient

end Fenic
