import Fenic.ModelClient.Shutdown

/-!
# `ModelClient.ShutdownSteps` — which steps lose no request

`shutdown` fails what it finds in the pending requests and in the queues, and it cancels the tasks in flight. A request
that is at another place at that moment, or that comes to one of these places later, is not found. `Lossless` says of
one step that it does not use this gap.

## Contents
- **Invariants.** A request that waits is at some place (`Located`), a duplicate copies the future of a request
  (`Sourced`), and once the tasks have been cancelled nothing but a cancelled task waits (`Finishing`).
- **Steps.** The lemmas of each party: the worker, the call of `shutdown`, the tasks, and the threads.
-/

namespace Fenic

namespace ModelClient

variable {Req Resp Key Exc : Type}

/-! ## The condition -/

/-- The step loses no request: it drops none that waits, and it leaves none behind the back of `shutdown`. -/
def Lossless [DecidableEq Key] (c : Client Req Resp Key) (s : System Req Resp Key Exc) :
    SystemAction Req Key Exc → Prop
  -- the worker ends while the get tasks hold nothing that waits
  | .resume true => ∀ f, Has s.got f → ¬ Waiting s.client.futures f
  -- what the rate limiter holds back is still among the pending requests
  | .skip => ∀ item rest, s.worker.rest = item :: rest → Waiting s.client.futures item.future →
      Has s.client.queues.pendingRequests item.future ∨ s.Elsewhere item.future
  -- `shutdown` does not throw away a request that it has not failed
  | .clearPending => ∀ f, Has s.client.queues.pendingRequests f → Waiting s.client.futures f →
      Has s.worker.rest f ∨ s.Elsewhere f
  -- whatever still waits is with a task that has started
  | .cancelInFlight => ∀ f, s.Holds f → Waiting s.client.futures f → Has s.client.queues.inflightRequests f
  -- a cancelled task does not put its request back
  | .endCancelled i .retried => ∀ item, s.cancelled[i]? = some item → ¬ Waiting s.client.futures item.future
  -- a thread makes no request when the tasks have been cancelled
  | .client (.submit t) => s.call = .awaiting ∨ s.call = .completed → ¬ MakesRequest c s.client t
  | _ => True

/-! ## Invariants -/

/-- A request that waits is at some place. -/
structure Located (s : System Req Resp Key Exc) : Prop where
  placed : ∀ f, Waiting s.client.futures f → s.Holds f
  processed : ∀ f, Waiting s.client.futures f → Has s.worker.processed f → s.Elsewhere f
  idle : s.worker = .waiting → s.client.queues.pendingRequests = []

/-- The future is that of a request which is the first of its key. -/
def IsFirst (futures : List (Future Resp Exc)) (f : Nat) : Prop :=
  ∃ fut : Future Resp Exc, futures[f]? = some fut ∧ fut.copyOf = none

/-- A duplicate copies the future of a first request. -/
structure Sourced (s : State Req Resp Key Exc) : Prop where
  copies : ∀ (f : Nat) (fut : Future Resp Exc) (g : Nat), s.futures[f]? = some fut → fut.copyOf = some g →
    IsFirst s.futures g
  unique : ∀ t, ∀ entry ∈ (s.threads t).unique, IsFirst s.futures entry.2

/-- When a duplicate has no answer, the first request of its key has none. -/
def Synced (futures : List (Future Resp Exc)) : Prop :=
  ∀ (f : Nat) (fut : Future Resp Exc) (g : Nat), futures[f]? = some fut → fut.copyOf = some g →
    fut.state = .pending → Waiting futures g

/-- Once the tasks have been cancelled, what waits is with one of them. -/
structure Finishing (s : System Req Resp Key Exc) : Prop where
  cancelled : s.call = .awaiting ∨ s.call = .completed → ∀ f, Waiting s.client.futures f → Has s.cancelled f
  completed : s.call = .completed → s.cancelled = []

section

variable {s s' : System Req Resp Key Exc}

/-- A request stays located when the step moves it. -/
theorem Located.carry (h : Located s) (hwaiting : ∀ f, Waiting s'.client.futures f → Waiting s.client.futures f)
    (hholds : ∀ f, Waiting s'.client.futures f → s.Holds f → s'.Holds f)
    (hprocessed : ∀ f, Waiting s'.client.futures f → Has s'.worker.processed f →
      (Has s.worker.processed f → s.Elsewhere f) → s'.Elsewhere f)
    (hidle : s'.worker = .waiting → s'.client.queues.pendingRequests = []) : Located s' where
  placed := by
    intro f hf
    exact hholds f hf (h.placed f (hwaiting f hf))
  processed := by
    intro f hf hmem
    exact hprocessed f hf hmem (h.processed f (hwaiting f hf))
  idle := hidle

theorem Finishing.carry (h : Finishing s) (hwaiting : ∀ f, Waiting s'.client.futures f → Waiting s.client.futures f)
    (hcancelled : s'.cancelled = s.cancelled) (hcall : s'.call = .awaiting ∨ s'.call = .completed → s'.call = s.call) :
    Finishing s' where
  cancelled := by
    intro hended f hf
    rw [hcancelled]
    rw [hcall hended] at hended
    exact h.cancelled hended f (hwaiting f hf)
  completed := by
    intro hended
    rw [hcancelled]
    rw [hcall (Or.inr hended)] at hended
    exact h.completed hended

theorem SettledFrom.isFirst {futures futures' : List (Future Resp Exc)} (h : SettledFrom futures futures') {f : Nat}
    (hf : IsFirst futures f) : IsFirst futures' f := by
  obtain ⟨fut, hfut, hnone⟩ := hf
  have hcopy := h.copyOf f
  rw [hfut] at hcopy
  obtain ⟨fut', hfut', heq⟩ := Option.map_eq_some_iff.mp hcopy
  exact ⟨fut', hfut', heq.trans hnone⟩

theorem IsFirst.append {futures : List (Future Resp Exc)} {f : Nat} (h : IsFirst futures f)
    (fut : Future Resp Exc) : IsFirst (futures ++ [fut]) f := by
  obtain ⟨first, hfirst, hnone⟩ := h
  have hlt := (List.getElem?_eq_some_iff.mp hfirst).1
  refine ⟨first, ?_, hnone⟩
  rw [List.getElem?_append_left hlt]
  exact hfirst

/-- A step that makes no future keeps the sources. -/
theorem Sourced.carry {s s' : State Req Resp Key Exc} (h : Sourced s) (hsettled : SettledFrom s.futures s'.futures)
    (hunique : ∀ t, ∀ entry ∈ (s'.threads t).unique, entry ∈ (s.threads t).unique) : Sourced s' where
  copies := by
    intro f fut' g hfut' hcopy
    have heq := hsettled.copyOf f
    rw [hfut'] at heq
    obtain ⟨fut, hfut, hsame⟩ := Option.map_eq_some_iff.mp heq.symm
    apply hsettled.isFirst
    exact h.copies f fut g hfut (hsame.trans hcopy)
  unique := by
    intro t entry hentry
    apply hsettled.isFirst
    exact h.unique t entry (hunique t entry hentry)

end

/-! ## The worker -/

section

variable {s s' : System Req Resp Key Exc} {f : Nat}

/-- Requests stay elsewhere when every place keeps its own. -/
theorem System.Elsewhere.imp (h : s.Elsewhere f) (henqueues : s.client.Enqueues f → s'.client.Enqueues f)
    (hrequest : Has s.client.queues.requestQueue f → Has s'.client.queues.requestQueue f)
    (hretry : Has s.client.queues.retryQueue f → Has s'.client.queues.retryQueue f)
    (hinflight : Has s.client.queues.inflightRequests f → Has s'.client.queues.inflightRequests f)
    (hunstarted : Has s.unstarted f → Has s'.unstarted f) (hcancelled : Has s.cancelled f → Has s'.cancelled f) :
    s'.Elsewhere f :=
  Or.imp henqueues (Or.imp hrequest (Or.imp hretry (Or.imp hinflight (Or.imp hunstarted hcancelled)))) h

theorem System.Holds.imp (h : s.Holds f) (helsewhere : s.Elsewhere f → s'.Elsewhere f)
    (hpending : Has s.client.queues.pendingRequests f → Has s'.client.queues.pendingRequests f)
    (hrest : Has s.worker.rest f → Has s'.worker.rest f) (hgot : Has s.got f → Has s'.got f) : s'.Holds f :=
  Or.imp helsewhere (Or.imp hpending (Or.imp hrest hgot)) h

/-- A future that the worker or `shutdown` fails. -/
theorem register_waiting {item : QueueItem Req Key} {e : Exc}
    (hf : Waiting (s.register item e).client.futures f) : Waiting s.client.futures f ∧ item.future ≠ f := by
  constructor
  · exact (settledFrom_modify s.client.futures item.future _).waiting hf
  · rintro rfl
    have hst : (FutureState.exception ⟨item.batchId, e⟩ : FutureState Resp Exc) ≠ .pending := nofun
    exact not_waiting_modify _ _ hst hf

/-- A task that is created holds its request, and the others are where they were. -/
theorem System.Elsewhere.create (h : s.Elsewhere f) (item : QueueItem Req Key) :
    ({ s with unstarted := item :: s.unstarted } : System Req Resp Key Exc).Elsewhere f :=
  h.imp id id id id (fun hf => has_cons.mpr (Or.inr hf)) id

theorem elsewhere_created (item : QueueItem Req Key) :
    ({ s with unstarted := item :: s.unstarted } : System Req Resp Key Exc).Elsewhere item.future :=
  Or.inr (Or.inr (Or.inr (Or.inr (Or.inl (has_cons.mpr (Or.inl rfl))))))

/-- **The worker loses no request.** -/
theorem loopStep_located [DecidableEq Key] {c : Client Req Resp Key} {a : SystemAction Req Key Exc} (h : Located s)
    (hlossless : Lossless c s a) (hstep : loopStep s s.worker a = some s') : Located s' := by
  obtain ⟨client, worker, gotRetry, gotRequest, unstarted, cancelled, shutdownEvent, call⟩ := s
  dsimp only at hstep
  generalize hs : System.mk client worker gotRetry gotRequest unstarted cancelled shutdownEvent call = s at *
  revert hstep
  fun_cases loopStep s worker a <;> rintro ⟨⟩ <;> cases hs
  case case1 hempty => exact h.carry (fun f hf => hf) (fun f _ hf => hf) nofun (fun _ => List.isEmpty_iff.mp hempty)
  case case2 hempty =>
    refine h.carry (fun f hf => hf) (fun f _ hf => ?_) (fun f _ hmem => absurd hmem (has_nil f)) nofun
    exact hf.imp id id (fun hrest => absurd hrest (has_nil f)) id
  case case3 item rest hqueue hgot =>
    -- a request comes out of the retry queue
    refine h.carry (fun f hf => hf) ?_ (fun f _ hmem => absurd hmem (has_nil f)) (fun _ => h.idle rfl)
    simp only [System.Holds, System.Elsewhere, System.got] at *
    intro f _ hf
    simp only [hqueue, hgot, State.setQueues, Option.toList_none, Option.toList_some, List.nil_append, has_append, has_cons] at hf ⊢
    tauto
  case case5 item rest hqueue hgot =>
    -- a request comes out of the request queue
    refine h.carry (fun f hf => hf) ?_ (fun f _ hmem => absurd hmem (has_nil f)) (fun _ => h.idle rfl)
    simp only [System.Holds, System.Elsewhere, System.got] at *
    intro f _ hf
    simp only [hqueue, hgot, State.setQueues, Option.toList_none, Option.toList_some, List.append_nil, has_append, has_cons] at hf ⊢
    tauto
  case case7 =>
    -- the worker ends, and what the get tasks hold is gone
    refine h.carry (fun f hf => hf) (fun f hwaiting hf => ?_) (fun f _ hmem => absurd hmem (has_nil f)) nofun
    exact hf.imp id id id (fun hgot => absurd hwaiting (hlossless f hgot))
  case case10 =>
    -- what the get tasks hold becomes the pending requests, of which there was none
    refine h.carry (fun f hf => hf) ?_ (fun f _ hmem => absurd hmem (has_nil f)) nofun
    rintro f - (hf | hf | hf | hf)
    · exact Or.inl hf
    · exact absurd (h.idle rfl ▸ hf) (has_nil f)
    · exact absurd hf (has_nil f)
    · exact Or.inr (Or.inl hf)
  case case11 item rest processed =>
    -- a task is created for the next pending request
    refine h.carry (fun f hf => hf) ?_ ?_ nofun
    · rintro f - (hf | hf | hf | hf)
      · exact Or.inl (hf.create item)
      · exact Or.inr (Or.inl hf)
      · rcases has_cons.mp hf with rfl | hf
        · exact Or.inl (elsewhere_created item)
        · exact Or.inr (Or.inr (Or.inl hf))
      · exact Or.inr (Or.inr (Or.inr hf))
    · intro f _ hmem hold
      rcases has_append.mp hmem with hmem | hmem
      · exact (hold hmem).create item
      · rcases has_singleton.mp hmem with rfl
        exact elsewhere_created item
  case case12 item rest processed =>
    -- the rate limiter holds the next pending request back
    refine h.carry (fun f hf => hf) ?_ (fun f _ hmem hold => hold hmem) nofun
    rintro f hwaiting (hf | hf | hf | hf)
    · exact Or.inl hf
    · exact Or.inr (Or.inl hf)
    · rcases has_cons.mp hf with rfl | hf
      · rcases hlossless item rest rfl hwaiting with hpending | helsewhere
        · exact Or.inr (Or.inl hpending)
        · exact Or.inl helsewhere
      · exact Or.inr (Or.inr (Or.inl hf))
    · exact Or.inr (Or.inr (Or.inr hf))
  case case13 item rest processed e =>
    -- the next pending request fails before its task was created
    refine h.carry (fun f hf => (register_waiting hf).1) (fun f hwaiting hf => ?_) ?_ nofun
    · exact hf.imp id id (fun hrest => (has_cons.mp hrest).resolve_left (register_waiting hwaiting).2) id
    · intro f hwaiting hmem hold
      exact hold ((has_append.mp hmem).resolve_right fun hmem => (register_waiting hwaiting).2 (has_singleton.mp hmem))
  case case14 item rest processed e =>
    -- the next pending request fails after its task was created
    refine h.carry (fun f hf => (register_waiting hf).1) (fun f hwaiting hf => ?_) ?_ nofun
    · exact hf.imp (fun helsewhere => helsewhere.create item) id
        (fun hrest => (has_cons.mp hrest).resolve_left (register_waiting hwaiting).2) id
    · intro f hwaiting hmem hold
      refine (hold ((has_append.mp hmem).resolve_right fun hmem => ?_)).create item
      rcases has_cons.mp hmem with hmem | hmem
      · exact (register_waiting hwaiting).2 hmem
      · exact (register_waiting hwaiting).2 (has_singleton.mp hmem)
  case case15 => exact h.carry (fun f hf => hf) (fun f _ hf => hf) (fun f _ hmem hold => hold hmem) nofun
  case case16 item processed pending hremove =>
    -- a processed request leaves the pending ones
    refine h.carry (fun f hf => hf) ?_ (fun f _ hmem hold => hold (has_cons.mpr (Or.inr hmem))) nofun
    rintro f hwaiting (hf | hf | hf | hf)
    · exact Or.inl hf
    · rcases has_removeItem hremove hf with rfl | hf
      · exact Or.inl (h.processed _ hwaiting (has_cons.mpr (Or.inl rfl)))
      · exact Or.inr (Or.inl hf)
    · exact absurd hf (has_nil f)
    · exact Or.inr (Or.inr (Or.inr hf))
  all_goals exact h.carry (fun f hf => hf) (fun f _ hf => hf) (fun f _ hmem => absurd hmem (has_nil f)) nofun

/-- The worker settles futures at most, and cancels no task. -/
theorem loopStep_frame {a : SystemAction Req Key Exc} (hstep : loopStep s s.worker a = some s') :
    (s'.client.threads = s.client.threads ∧ SettledFrom s.client.futures s'.client.futures) ∧
      s'.cancelled = s.cancelled ∧ (s'.call = .awaiting ∨ s'.call = .completed → s'.call = s.call) := by
  revert hstep
  generalize s.worker = worker
  fun_cases loopStep s worker a <;> rintro ⟨⟩
  case case10 =>
    -- only the loop over the old list ends
    refine ⟨⟨rfl, .refl _⟩, rfl, fun hended => ?_⟩
    dsimp only at hended ⊢
    split at hended
    · rcases hended with h | h <;> cases h
    · rfl
  case case13 | case14 => exact ⟨⟨rfl, settledFrom_modify _ _ _⟩, rfl, fun _ => rfl⟩
  all_goals exact ⟨⟨rfl, .refl _⟩, rfl, fun _ => rfl⟩

end

/-! ## The call of `shutdown` -/

section

variable [DecidableEq Key] {c : Client Req Resp Key} {s s' : System Req Resp Key Exc}

omit [DecidableEq Key] in
/-- A step that does not concern the worker keeps the requests located when it moves those elsewhere that still
    wait. -/
theorem Located.move (h : Located s) (hwaiting : ∀ f, Waiting s'.client.futures f → Waiting s.client.futures f)
    (helsewhere : ∀ f, Waiting s'.client.futures f → s.Elsewhere f → s'.Elsewhere f) (hworker : s'.worker = s.worker)
    (hgot : s'.got = s.got) (hpending : s'.client.queues.pendingRequests = s.client.queues.pendingRequests) :
    Located s' := by
  refine h.carry hwaiting (fun f hf hplace => ?_) ?_ ?_
  · exact hplace.imp (helsewhere f hf) (fun h => hpending ▸ h) (fun h => hworker ▸ h) (fun h => hgot ▸ h)
  · intro f hf hmem hold
    rw [hworker] at hmem
    exact helsewhere f hf (hold hmem)
  · intro hidle
    rw [hworker] at hidle
    rw [hpending]
    exact h.idle hidle

omit [DecidableEq Key] in
/-- Taking the first request of a queue and failing it. -/
theorem drain_inv {queue : List (QueueItem Req Key)} {build : QueueItem Req Key → State Req Resp Key Exc}
    {client : State Req Resp Key Exc} (h : (queue[0]?).map build = some client) :
    ∃ item rest, queue = item :: rest ∧ build item = client := by
  cases queue with
  | nil => cases h
  | cons item rest => exact ⟨item, rest, rfl, Option.some.inj h⟩

omit [DecidableEq Key] in
/-- The request that leaves a queue has failed, and the others stay. -/
theorem has_drained {queue rest : List (QueueItem Req Key)} {item : QueueItem Req Key} {f : Nat}
    (hqueue : queue = item :: rest) (hne : item.future ≠ f) (h : Has queue f) : Has (queue.drop 1) f := by
  subst hqueue
  exact (has_cons.mp h).resolve_left hne

variable {a : SystemAction Req Key Exc}

/-- **The call of `shutdown` loses no request.** -/
theorem shutdownStep_located (h : Located s) (hlossless : Lossless c s a)
    (hstep : shutdownStep c s s.call a = some s') : Located s' := by
  revert hstep
  generalize s.call = call
  fun_cases shutdownStep c s call a <;> rintro ⟨⟩
  case case4 item _ => exact h.move (fun f hf => (register_waiting hf).1) (fun f _ hf => hf) rfl rfl rfl
  case case6 =>
    -- the pending requests are thrown away
    refine h.carry (fun f hf => hf) ?_ (fun f _ hmem hold => hold hmem) (fun _ => rfl)
    rintro f hwaiting (hf | hf | hf | hf)
    · exact Or.inl hf
    · rcases hlossless f hf hwaiting with hrest | helsewhere
      · exact Or.inr (Or.inr (Or.inl hrest))
      · exact Or.inl helsewhere
    · exact Or.inr (Or.inr (Or.inl hf))
    · exact Or.inr (Or.inr (Or.inr hf))
  case case7 client hdrain =>
    obtain ⟨item, rest, hqueue, rfl⟩ := drain_inv hdrain
    refine h.move (fun f hf => (register_waiting hf).1) (fun f hf helsewhere => ?_) rfl rfl rfl
    exact helsewhere.imp id (has_drained hqueue (register_waiting hf).2) id id id id
  case case9 client hdrain =>
    obtain ⟨item, rest, hqueue, rfl⟩ := drain_inv hdrain
    refine h.move (fun f hf => (register_waiting hf).1) (fun f hf helsewhere => ?_) rfl rfl rfl
    exact helsewhere.imp id id (has_drained hqueue (register_waiting hf).2) id id id
  case case11 =>
    -- what waits is with a task that has started, and these are cancelled
    refine h.move (fun f hf => hf) (fun f hf helsewhere => ?_) rfl rfl rfl
    exact Or.inr (Or.inr (Or.inr (Or.inr (Or.inr (hlossless f (Or.inl helsewhere) hf)))))
  all_goals exact ⟨h.placed, h.processed, h.idle⟩

omit [DecidableEq Key] in
/-- The call of `shutdown` settles futures at most. -/
theorem shutdownStep_settled (hstep : shutdownStep c s s.call a = some s') :
    s'.client.threads = s.client.threads ∧ SettledFrom s.client.futures s'.client.futures := by
  revert hstep
  generalize s.call = call
  fun_cases shutdownStep c s call a <;> rintro ⟨⟩
  case case4 => exact ⟨rfl, settledFrom_modify _ _ _⟩
  case case7 | case9 =>
    rename_i client hdrain
    obtain ⟨item, rest, -, rfl⟩ := drain_inv hdrain
    exact ⟨rfl, settledFrom_modify _ _ _⟩
  all_goals exact ⟨rfl, .refl _⟩

/-- **When the tasks have been cancelled, nothing but them waits.** -/
theorem shutdownStep_finishing (hlocated : Located s) (h : Finishing s)
    (hlossless : Lossless c s a) (hstep : shutdownStep c s s.call a = some s') : Finishing s' := by
  obtain ⟨-, hsettled⟩ := shutdownStep_settled hstep
  generalize hcall : s.call = call at hstep
  revert hstep
  fun_cases shutdownStep c s call a <;> rintro ⟨⟩
  case case7 | case9 => exact h.carry (fun f => hsettled.waiting) rfl (fun _ => rfl)
  case case11 => exact ⟨fun _ f hf => hlossless f (hlocated.placed f hf) hf, nofun⟩
  case case13 hempty => exact ⟨fun _ f hf => h.cancelled (Or.inl hcall) f hf, fun _ => List.isEmpty_iff.mp hempty⟩
  all_goals exact ⟨nofun, nofun⟩

end

/-! ## Tasks -/

section

variable [DecidableEq Key] {c : Client Req Resp Key} {s s' : System Req Resp Key Exc}

variable {i f : Nat} {item : QueueItem Req Key}

omit [DecidableEq Key] in
/-- A task that starts keeps its request. -/
theorem startTask_elsewhere (hitem : s.unstarted[i]? = some item)
    (h : s.Elsewhere f) :
    ({ s with
      unstarted := s.unstarted.eraseIdx i
      client := s.client.setQueues
        { s.client.queues with inflightRequests := item :: s.client.queues.inflightRequests } } :
      System Req Resp Key Exc).Elsewhere f := by
  by_cases heq : item.future = f
  · exact Or.inr (Or.inr (Or.inr (Or.inl (has_cons.mpr (Or.inl heq)))))
  · exact h.imp id id id (fun hf => has_cons.mpr (Or.inr hf)) (fun hf => ((has_eraseIdx hitem).mp hf).resolve_left heq) id

variable {how : CancelledEnd Exc}

omit [DecidableEq Key] in
/-- A future that a cancelled task leaves open was open before, and it is not that of the task unless the request is
    tried again. -/
theorem endCancelledTask_waiting
    (hf : Waiting (endCancelledTask c s item how).client.futures f) :
    Waiting s.client.futures f ∧ (how ≠ .retried → item.future ≠ f) := by
  cases how with
  | raised e =>
    obtain ⟨hwaiting, hne⟩ := register_waiting hf
    exact ⟨hwaiting, fun _ => hne⟩
  | answered stored =>
    have hfutures := (answer_same (c := c) s.client item stored).2.1
    change Waiting (s.client.answer c item stored).futures f at hf
    rw [hfutures] at hf
    refine ⟨(settledFrom_modify _ _ _).waiting hf, ?_⟩
    rintro - rfl
    have hst : (FutureState.result (c.respond item.request) : FutureState Resp Exc) ≠ .pending := nofun
    exact not_waiting_modify _ _ hst hf
  | retried => exact ⟨hf, fun h => absurd rfl h⟩

omit [DecidableEq Key] in
/-- The end of a cancelled task settles a future at most. -/
theorem endCancelledTask_settled (item : QueueItem Req Key) (how : CancelledEnd Exc) :
    (endCancelledTask c s item how).client.threads = s.client.threads ∧
      SettledFrom s.client.futures (endCancelledTask c s item how).client.futures := by
  cases how with
  | raised e => exact ⟨rfl, settledFrom_modify _ _ _⟩
  | answered stored =>
    obtain ⟨hthreads, hfutures, -⟩ := answer_same (c := c) s.client item stored
    refine ⟨hthreads, ?_⟩
    show SettledFrom s.client.futures (s.client.answer c item stored).futures
    rw [hfutures]
    exact settledFrom_modify _ _ _
  | retried => exact ⟨rfl, .refl _⟩

omit [DecidableEq Key] in
/-- What the end of a cancelled task leaves where it is. -/
theorem endCancelledTask_places (item : QueueItem Req Key) (how : CancelledEnd Exc) :
    (endCancelledTask c s item how).worker = s.worker ∧ (endCancelledTask c s item how).got = s.got ∧
      (endCancelledTask c s item how).call = s.call ∧ (endCancelledTask c s item how).cancelled = s.cancelled ∧
      (endCancelledTask c s item how).client.queues.pendingRequests = s.client.queues.pendingRequests ∧
      ∀ f, s.Elsewhere f → (endCancelledTask c s item how).Elsewhere f := by
  cases how with
  | raised e => exact ⟨rfl, rfl, rfl, rfl, rfl, fun f hf => hf⟩
  | answered stored =>
    obtain ⟨hthreads, -, hqueues⟩ := answer_same (c := c) s.client item stored
    refine ⟨rfl, rfl, rfl, rfl, congrArg Queues.pendingRequests hqueues, ?_⟩
    intro f hf
    unfold System.Elsewhere State.Enqueues endCancelledTask
    dsimp only
    rw [hthreads, hqueues]
    exact hf
  | retried =>
    refine ⟨rfl, rfl, rfl, rfl, rfl, fun f hf => ?_⟩
    exact hf.imp id id (fun hretry => has_append.mpr (Or.inl hretry)) id id id

/-- A cancelled task that ends leaves its own future open only when it was open and is put back. -/
theorem endCancelled_waiting
    (hlossless : Lossless c s (.endCancelled i how)) (hitem : s.cancelled[i]? = some item)
    (hf : Waiting (endCancelledTask c { s with cancelled := s.cancelled.eraseIdx i } item how).client.futures f) :
    Waiting s.client.futures f ∧ item.future ≠ f := by
  obtain ⟨hwaiting, hsettled⟩ := endCancelledTask_waiting hf
  refine ⟨hwaiting, ?_⟩
  by_cases hhow : how = .retried
  · subst hhow
    rintro rfl
    exact hlossless item hitem hwaiting
  · exact hsettled hhow

/-- **The end of a cancelled task loses no request.** -/
theorem endCancelled_located (h : Located s)
    (hlossless : Lossless c s (.endCancelled i how)) (hitem : s.cancelled[i]? = some item) :
    Located (endCancelledTask c { s with cancelled := s.cancelled.eraseIdx i } item how) := by
  obtain ⟨hworker, hgot, -, -, hpending, helsewhere⟩ :=
    endCancelledTask_places (c := c) (s := { s with cancelled := s.cancelled.eraseIdx i }) item how
  refine h.move (fun f hf => (endCancelled_waiting hlossless hitem hf).1) ?_ hworker hgot hpending
  intro f hf hplace
  have hne : item.future ≠ f := (endCancelled_waiting hlossless hitem hf).2
  apply helsewhere
  exact hplace.imp id id id id id (fun hcancelled => ((has_eraseIdx hitem).mp hcancelled).resolve_left hne)

theorem endCancelled_finishing (h : Finishing s)
    (hlossless : Lossless c s (.endCancelled i how)) (hitem : s.cancelled[i]? = some item) :
    Finishing (endCancelledTask c { s with cancelled := s.cancelled.eraseIdx i } item how) := by
  obtain ⟨-, -, hcall, hcancelled, -, -⟩ :=
    endCancelledTask_places (c := c) (s := { s with cancelled := s.cancelled.eraseIdx i }) item how
  constructor
  · intro hended f hf
    rw [hcall] at hended
    rw [hcancelled]
    obtain ⟨hwaiting, hne⟩ := endCancelled_waiting hlossless hitem hf
    exact ((has_eraseIdx hitem).mp (h.cancelled hended f hwaiting)).resolve_left hne
  · intro hended
    rw [hcall] at hended
    rw [hcancelled]
    show s.cancelled.eraseIdx i = []
    rw [h.completed hended, List.eraseIdx_nil]

omit [DecidableEq Key] in
/-- A request in flight that lands is elsewhere only if it is tried again. -/
theorem land_elsewhere {client : State Req Resp Key Exc}
    (hitem : s.client.queues.inflightRequests[i]? = some item) (hthreads : client.threads = s.client.threads)
    (retried : List (QueueItem Req Key)) (hqueues : client.queues =
      { s.client.queues.land i with retryQueue := s.client.queues.retryQueue ++ retried })
    (hretried : item.future = f → Has retried f) (h : s.Elsewhere f) : System.Elsewhere { s with client := client } f := by
  unfold System.Elsewhere State.Enqueues at *
  dsimp only
  rw [hthreads, hqueues]
  by_cases heq : item.future = f
  · exact Or.inr (Or.inr (Or.inl (has_append.mpr (Or.inr (hretried heq)))))
  · exact Or.imp id (Or.imp id (Or.imp (fun hf => has_append.mpr (Or.inl hf))
      (Or.imp (fun hf => ((has_eraseIdx hitem).mp hf).resolve_left heq) id))) h

omit [DecidableEq Key] in
/-- **The end of a task in flight loses no request.** -/
theorem taskMove_located {client : State Req Resp Key Exc} (h : Located s) (hmove : TaskMove s.client client) :
    Located { s with client := client } := by
  cases hmove with
  | quiet hthreads hfutures hqueues =>
    have hsame : ∀ f, s.Elsewhere f → System.Elsewhere { s with client := client } f := by
      unfold System.Elsewhere State.Enqueues
      dsimp only
      rw [hthreads, hqueues]
      exact fun f hf => hf
    exact h.move (fun f hf => hfutures ▸ hf) (fun f _ => hsame f) rfl rfl (congrArg Queues.pendingRequests hqueues)
  | retried i item hitem hthreads hfutures hqueues =>
    have hpending : client.queues.pendingRequests = s.client.queues.pendingRequests := by
      rw [hqueues]
      rfl
    refine h.move (fun f hf => hfutures ▸ hf) (fun f _ => ?_) rfl rfl hpending
    exact land_elsewhere hitem hthreads [item] hqueues has_singleton.mpr
  | settled i item st hitem hst hthreads hfutures hqueues =>
    have hwaiting : ∀ f, Waiting client.futures f → Waiting s.client.futures f ∧ item.future ≠ f := by
      intro f hf
      rw [hfutures] at hf
      refine ⟨(settledFrom_modify _ _ _).waiting hf, ?_⟩
      rintro rfl
      exact not_waiting_modify _ _ hst hf
    have hpending : client.queues.pendingRequests = s.client.queues.pendingRequests := by
      rw [hqueues]
      rfl
    refine h.move (fun f hf => (hwaiting f hf).1) ?_ rfl rfl hpending
    intro f hf
    refine land_elsewhere hitem hthreads [] ?_ (fun heq => absurd heq (hwaiting f hf).2)
    rw [hqueues, List.append_nil]
    rfl

omit [DecidableEq Key] in
theorem taskMove_settled {s s' : State Req Resp Key Exc} (h : TaskMove s s') :
    s'.threads = s.threads ∧ SettledFrom s.futures s'.futures := by
  cases h with
  | quiet hthreads hfutures hqueues => exact ⟨hthreads, hfutures ▸ .refl _⟩
  | retried i item hitem hthreads hfutures hqueues => exact ⟨hthreads, hfutures ▸ .refl _⟩
  | settled i item st hitem hst hthreads hfutures hqueues => exact ⟨hthreads, hfutures ▸ settledFrom_modify _ _ _⟩

end

/-! ## Threads -/

section

variable [DecidableEq Key] {c : Client Req Resp Key} {s : System Req Resp Key Exc} {client : State Req Resp Key Exc}

variable {t : Nat} {phase : Phase Req Resp Key} {f : Nat}

omit [DecidableEq Key] in
/-- When a thread moves, the requests of the others wait for the queue as before. -/
theorem enqueues_update {s s' : State Req Resp Key Exc}
    (hthreads : s'.threads = Function.update s.threads t phase) (h : s.Enqueues f) :
    s'.Enqueues f ∨ ∃ sub item, s.threads t = .enqueuing sub item ∧ item.future = f := by
  obtain ⟨t', sub, item, hphase, rfl⟩ := h
  by_cases ht : t' = t
  · subst ht
    exact Or.inr ⟨sub, item, hphase, rfl⟩
  · refine Or.inl ⟨t', sub, item, ?_, rfl⟩
    rw [hthreads, Function.update_of_ne ht]
    exact hphase

omit [DecidableEq Key] in
/-- A future that is new and waits is that of a first request. -/
theorem waiting_append {futures : List (Future Resp Exc)} {fut : Future Resp Exc}
    (h : Waiting (futures ++ [fut]) f) :
    Waiting futures f ∨ (f = futures.length ∧ fut.state = .pending ∧ fut.copyOf = none) := by
  obtain ⟨fut', hfut', hpending, hnone⟩ := h
  by_cases hlt : f < futures.length
  · rw [List.getElem?_append_left hlt] at hfut'
    exact Or.inl ⟨fut', hfut', hpending, hnone⟩
  · have hlength := (List.getElem?_eq_some_iff.mp hfut').1
    rw [List.length_append, List.length_singleton] at hlength
    have hf : f = futures.length := by omega
    subst hf
    rw [List.getElem?_concat_length] at hfut'
    cases hfut'
    exact Or.inr ⟨rfl, hpending, hnone⟩

omit [DecidableEq Key] in
/-- A thread that is not at the queue leaves the requests elsewhere where they are. -/
theorem elsewhere_of_thread
    (hthreads : client.threads = Function.update s.client.threads t phase)
    (hbefore : ∀ sub item, s.client.threads t ≠ .enqueuing sub item) (hqueues : client.queues = s.client.queues)
    (h : s.Elsewhere f) : System.Elsewhere { s with client := client } f := by
  rcases h with hf | hf
  · rcases enqueues_update hthreads hf with hf | ⟨sub, item, hphase, -⟩
    · exact Or.inl hf
    · exact absurd hphase (hbefore sub item)
  · unfold System.Elsewhere
    dsimp only
    rw [hqueues]
    exact Or.inr hf

variable {a : Action Req Key Exc}

/-- **A step of a thread loses no request.** -/
theorem threadMove_located (h : Located s)
    (hmove : ThreadMove c s.client client t a) : Located { s with client := client } := by
  cases hmove with
  | quiet phase hthreads hbefore hafter hfutures hqueues hunique =>
    refine h.move (fun f hf => hfutures ▸ hf) (fun f _ => ?_) rfl rfl (congrArg Queues.pendingRequests hqueues)
    exact elsewhere_of_thread hthreads hbefore hqueues
  | put phase sub item hbefore hthreads hafter hfutures hqueues hunique =>
    have hpending : client.queues.pendingRequests = s.client.queues.pendingRequests := by
      rw [hqueues]
    refine h.move (fun f hf => hfutures ▸ hf) (fun f _ hplace => ?_) rfl rfl hpending
    unfold System.Elsewhere
    dsimp only
    rw [hqueues]
    rcases hplace with hf | hf | hf
    · rcases enqueues_update hthreads hf with hf | ⟨sub', item', hphase, rfl⟩
      · exact Or.inl hf
      · rw [hbefore] at hphase
        cases hphase
        exact Or.inr (Or.inl (has_append.mpr (Or.inr (has_singleton.mpr rfl))))
    · exact Or.inr (Or.inl (has_append.mpr (Or.inl hf)))
    · exact Or.inr (Or.inr hf)
  | future phase fut hthreads hbefore hafter hfutures hqueues hfut hunique =>
    refine h.move ?_ ?_ rfl rfl (congrArg Queues.pendingRequests hqueues)
    · intro f hf
      change Waiting client.futures f at hf
      rw [hfutures] at hf
      rcases waiting_append hf with hf | ⟨-, hpending, hnone⟩
      · exact hf
      · -- the new future is done or copies another one
        rcases hfut with ⟨hdone, -⟩ | ⟨entry, -, hcopy⟩
        · exact absurd hpending hdone
        · rw [hnone] at hcopy
          cases hcopy
    · intro f _
      exact elsewhere_of_thread hthreads hbefore hqueues
  | request sub item hmakes ha hthreads hbefore hfuture hfutures hqueues hunique =>
    have helsewhere : ∀ f, s.Elsewhere f → System.Elsewhere { s with client := client } f :=
      fun f => elsewhere_of_thread hthreads hbefore hqueues
    have hold : ∀ f, Waiting client.futures f → Waiting s.client.futures f ∨
        System.Elsewhere { s with client := client } f := by
      intro f hf
      rw [hfutures] at hf
      rcases waiting_append hf with hf | ⟨rfl, -, -⟩
      · exact Or.inl hf
      · refine Or.inr (Or.inl ⟨t, sub, item, ?_, hfuture⟩)
        show client.threads t = _
        rw [hthreads, Function.update_self]
    have hpending : client.queues.pendingRequests = s.client.queues.pendingRequests :=
      congrArg Queues.pendingRequests hqueues
    refine ⟨?_, ?_, ?_⟩
    · intro f hf
      rcases hold f hf with hf | hf
      · exact (h.placed f hf).imp (helsewhere f) (fun hplace => hpending ▸ hplace) id id
      · exact Or.inl hf
    · intro f hf hmem
      rcases hold f hf with hf | hf
      · exact helsewhere f (h.processed f hf hmem)
      · exact hf
    · intro hidle
      show client.queues.pendingRequests = []
      rw [hpending]
      exact h.idle hidle

omit [DecidableEq Key] in
/-- A step that makes one future keeps the sources. -/
theorem Sourced.append {s s' : State Req Resp Key Exc} (h : Sourced s) {fut : Future Resp Exc}
    (hfutures : s'.futures = s.futures ++ [fut]) (hcopy : ∀ g, fut.copyOf = some g → IsFirst s.futures g)
    (hunique : ∀ t, ∀ entry ∈ (s'.threads t).unique, entry ∈ (s.threads t).unique ∨ IsFirst s'.futures entry.2) :
    Sourced s' where
  copies := by
    intro f fut' g hfut' hg
    rw [hfutures] at hfut' ⊢
    by_cases hlt : f < s.futures.length
    · rw [List.getElem?_append_left hlt] at hfut'
      exact (h.copies f fut' g hfut' hg).append fut
    · have hlength := (List.getElem?_eq_some_iff.mp hfut').1
      rw [List.length_append, List.length_singleton] at hlength
      have hf : f = s.futures.length := by omega
      subst hf
      rw [List.getElem?_concat_length] at hfut'
      cases hfut'
      exact (hcopy g hg).append _
  unique := by
    intro t entry hentry
    rcases hunique t entry hentry with hold | hfirst
    · rw [hfutures]
      exact (h.unique t entry hold).append fut
    · exact hfirst

omit [DecidableEq Key] in
/-- What the other threads have is what they had. -/
theorem unique_update {threads threads' : Nat → Phase Req Resp Key}
    (hthreads : threads' = Function.update threads t phase) {P : (Key ⊕ Nat) × Nat → Prop}
    (hphase : ∀ entry ∈ phase.unique, entry ∈ (threads t).unique ∨ P entry) (t' : Nat) (entry : (Key ⊕ Nat) × Nat)
    (hentry : entry ∈ (threads' t').unique) : entry ∈ (threads t').unique ∨ P entry := by
  rw [hthreads] at hentry
  by_cases ht : t' = t
  · subst ht
    rw [Function.update_self] at hentry
    exact hphase entry hentry
  · rw [Function.update_of_ne ht] at hentry
    exact Or.inl hentry

theorem threadMove_sourced {s s' : State Req Resp Key Exc} (h : Sourced s)
    (hmove : ThreadMove c s s' t a) : Sourced s' := by
  cases hmove with
  | quiet _ hthreads _ _ hfutures _ hunique | put _ _ _ _ hthreads _ hfutures _ hunique =>
    refine h.carry (hfutures ▸ .refl _) ?_
    intro t' entry hentry
    exact (unique_update (P := fun _ => False) hthreads (fun entry he => Or.inl (hunique entry he)) t' entry
      hentry).resolve_right id
  | future phase fut hthreads hbefore hafter hfutures hqueues hfut hunique =>
    refine h.append hfutures ?_ (unique_update hthreads (fun entry he => Or.inl (hunique entry he)))
    intro g hg
    rcases hfut with ⟨-, hnone⟩ | ⟨entry, hentry, hcopy⟩
    · rw [hnone] at hg
      cases hg
    · rw [hcopy] at hg
      cases hg
      exact h.unique t entry hentry
  | request sub item hmakes ha hthreads hbefore hfuture hfutures hqueues hunique =>
    refine h.append hfutures nofun (unique_update hthreads ?_)
    intro entry hentry
    rcases hunique entry hentry with hold | hnew
    · exact Or.inl hold
    · refine Or.inr ⟨⟨.pending, none⟩, ?_, rfl⟩
      rw [hnew, hfuture, hfutures, List.getElem?_concat_length]

/-- A thread that makes no request leaves only those waiting that waited. -/
theorem threadMove_waiting {s s' : State Req Resp Key Exc}
    (hmove : ThreadMove c s s' t a) (hf : Waiting s'.futures f) :
    Waiting s.futures f ∨ (MakesRequest c s t ∧ ∃ t', a = .submit t') := by
  cases hmove with
  | quiet phase hthreads hbefore hafter hfutures hqueues hunique => exact Or.inl (hfutures ▸ hf)
  | put phase sub item hbefore hthreads hafter hfutures hqueues hunique => exact Or.inl (hfutures ▸ hf)
  | future phase fut hthreads hbefore hafter hfutures hqueues hfut hunique =>
    rw [hfutures] at hf
    rcases waiting_append hf with hf | ⟨-, hpending, hnone⟩
    · exact Or.inl hf
    · rcases hfut with ⟨hdone, -⟩ | ⟨entry, -, hcopy⟩
      · exact absurd hpending hdone
      · rw [hnone] at hcopy
        cases hcopy
  | request sub item hmakes ha hthreads hbefore hfuture hfutures hqueues hunique => exact Or.inr ⟨hmakes, ha⟩

theorem threadMove_finishing (h : Finishing s) (hthread : a.thread = some t)
    (hlossless : Lossless c s (.client a)) (hmove : ThreadMove c s.client client t a) :
    Finishing { s with client := client } where
  cancelled := by
    intro hended f hf
    rcases threadMove_waiting hmove hf with hf | ⟨hmakes, t', rfl⟩
    · exact h.cancelled hended f hf
    · cases hthread
      exact absurd hmakes (hlossless hended)
  completed := h.completed

end

end ModelClient

end Fenic
