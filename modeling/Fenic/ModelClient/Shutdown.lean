import Fenic.ModelClient.Invariant

/-!
# `ModelClient.Shutdown` — the client while it is shut down

Here the worker loop and the call of `shutdown` are taken apart into the steps between which another party may
intervene: a request is in neither queue while a get task holds it, a task that was created has not started yet, and
`shutdown` empties one place after the other from a thread of its own. The threads that submit and the requests in
flight are those of `ModelClient.Step`.

The callbacks of a future run inside the step that settles it.

## Contents
- **Places.** A request that waits for its answer is somewhere: with its thread, in a queue, with a get task, among the
  pending requests, with the worker, or with a task (`Holds`).
- **Moves.** What a step of a thread and the end of a task do to the places and to the futures (`ThreadMove`,
  `TaskMove`).
-/

namespace Fenic

namespace ModelClient

variable {Req Resp Key Exc : Type}

/-- What the worker is doing. -/
inductive Worker (Req Key : Type) where
  /-- At the head of `while True`. -/
  | looping
  /-- In `_get_queued_requests`. -/
  | waiting
  /-- In the loop over the pending requests, with those to come and `processed_requests`. -/
  | passing (rest processed : List (QueueItem Req Key))
  /-- Removing the processed requests from the pending ones. -/
  | removing (processed : List (QueueItem Req Key))
  | ended

/-- Where the call of `shutdown` is. -/
inductive ShutdownCall where
  | none
  /-- At `if self.pending_requests`. -/
  | checking
  /-- In the loop over the pending requests. -/
  | failing (next : Nat)
  /-- At `self.pending_requests = []`. -/
  | clearing
  /-- In the loop over the request queue. -/
  | drainingRequests
  /-- In the loop over the retry queue. -/
  | drainingRetries
  /-- Before `_cancel_in_flight_requests` runs. -/
  | cancelling
  /-- In `cancel_future.result()`. -/
  | awaiting
  | completed
  deriving DecidableEq

/-- The client, its worker and the call of `shutdown`. -/
structure System (Req Resp Key Exc : Type) where
  /-- Its tasks in flight are those that have started. -/
  client : State Req Resp Key Exc
  worker : Worker Req Key
  /-- What the get tasks of the worker hold. -/
  gotRetry : Option (QueueItem Req Key)
  gotRequest : Option (QueueItem Req Key)
  /-- The tasks that were created and have not started. -/
  unstarted : List (QueueItem Req Key)
  /-- The tasks that were cancelled and have not ended. -/
  cancelled : List (QueueItem Req Key)
  shutdownEvent : Bool
  call : ShutdownCall

/-- How a task ends that was cancelled. -/
inductive CancelledEnd (Exc : Type) where
  | raised (e : Exc)
  /-- The response was there already. -/
  | answered (stored : Bool)
  /-- The timeout or the transient exception was there already. -/
  | retried

/-- One atomic action. -/
inductive SystemAction (Req Key Exc : Type) where
  /-- An action of a submitting thread, or the end of a task in flight. -/
  | client (a : Action Req Key Exc)
  /-- The worker goes on at the head of its loop. -/
  | loop
  /-- A get task takes the first item of its queue. -/
  | pop (retry : Bool)
  /-- The worker goes on after `asyncio.wait`; `sawShutdown` says whether the shutdown task was done. -/
  | resume (sawShutdown : Bool)
  /-- The rate limiter lets the next pending item through. -/
  | dispatch
  /-- The rate limiter does not. -/
  | skip
  /-- An error for the next pending item, before its task was created or (`dispatched`) after. -/
  | failItem (dispatched : Bool) (e : Exc)
  | endPass
  | removeProcessed
  /-- A task starts. -/
  | startTask (i : Nat)
  | callShutdown
  | setEvent
  | failPending (e : Exc)
  | clearPending
  | drainRequests (e : Exc)
  | drainRetries (e : Exc)
  | cancelInFlight
  | endCancelled (i : Nat) (how : CancelledEnd Exc)
  | completeShutdown

/-- The actions of `ModelClient.Step` that are taken over. -/
def Action.ofThreadOrTask : Action Req Key Exc → Bool
  | .getQueued _ _ => false
  | .dispatch _ => false
  | .failPending _ _ => false
  | .failDispatched _ _ => false
  | .drainRequest _ => false
  | .drainRetry _ => false
  | .callback _ => false
  | _ => true

/-! ## Callbacks -/

/-- The future of a duplicate copies that of the first request when it is done. -/
def Future.copyFrom (futures : List (Future Resp Exc)) : Future Resp Exc → Future Resp Exc
  | ⟨.pending, some source⟩ => ⟨((futures[source]?).map Future.state).getD .pending, some source⟩
  | fut => fut

def State.runCallbacks (s : State Req Resp Key Exc) : State Req Resp Key Exc :=
  { s with futures := s.futures.map (Future.copyFrom s.futures) }

/-! ## Steps -/

namespace System

/-- What the get tasks hold, `queue_items`. -/
def got (s : System Req Resp Key Exc) : List (QueueItem Req Key) :=
  s.gotRetry.toList ++ s.gotRequest.toList

def setPending (s : System Req Resp Key Exc) (pending : List (QueueItem Req Key)) : System Req Resp Key Exc :=
  { s with client := s.client.setQueues { s.client.queues with pendingRequests := pending } }

def register (s : System Req Resp Key Exc) (item : QueueItem Req Key) (e : Exc) : System Req Resp Key Exc :=
  { s with client := s.client.registerThreadException item e }

end System

def systemInit (cache : List (Key × Resp)) : System Req Resp Key Exc where
  client := init cache
  worker := .looping
  gotRetry := none
  gotRequest := none
  unstarted := []
  cancelled := []
  shutdownEvent := false
  call := .none

/-- `list.remove`, if there is the item. -/
def removeItem (item : QueueItem Req Key) (items : List (QueueItem Req Key)) : Option (List (QueueItem Req Key)) :=
  if items.any (fun other => other.future = item.future) then
    some (items.eraseP (fun other => other.future = item.future))
  else none

section

/-- The worker. -/
def loopStep (s : System Req Resp Key Exc) :
    Worker Req Key → SystemAction Req Key Exc → Option (System Req Resp Key Exc)
  | .looping, .loop =>
    if s.client.queues.pendingRequests.isEmpty then some { s with worker := .waiting }
    else some { s with worker := .passing s.client.queues.pendingRequests [] }
  | .waiting, .pop true =>
    match s.gotRetry, s.client.queues.retryQueue with
    | none, item :: rest =>
      some { s with
        gotRetry := some item
        client := s.client.setQueues { s.client.queues with retryQueue := rest } }
    | _, _ => none
  | .waiting, .pop false =>
    match s.gotRequest, s.client.queues.requestQueue with
    | none, item :: rest =>
      some { s with
        gotRequest := some item
        client := s.client.setQueues { s.client.queues with requestQueue := rest } }
    | _, _ => none
  | .waiting, .resume true =>
    -- what the get tasks hold is dropped
    if s.shutdownEvent then some { s with worker := .ended, gotRetry := none, gotRequest := none } else none
  | .waiting, .resume false =>
    if s.got.isEmpty then none
    else
      some { s.setPending s.got with
        worker := .looping
        gotRetry := none
        gotRequest := none
        -- the list that `shutdown` goes through is the old one, which is empty
        call := match s.call with
          | .failing _ => .clearing
          | call => call }
  | .passing (item :: rest) processed, .dispatch =>
    some { s with unstarted := item :: s.unstarted, worker := .passing rest (processed ++ [item]) }
  | .passing (_ :: rest) processed, .skip => some { s with worker := .passing rest processed }
  | .passing (item :: rest) processed, .failItem false e =>
    some { s.register item e with worker := .passing rest (processed ++ [item]) }
  | .passing (item :: rest) processed, .failItem true e =>
    some { s.register item e with
      unstarted := item :: s.unstarted
      worker := .passing rest (processed ++ [item, item]) }
  | .passing [] processed, .endPass => some { s with worker := .removing processed }
  | .removing (item :: processed), .removeProcessed =>
    match removeItem item s.client.queues.pendingRequests with
    | some pending => some { s.setPending pending with worker := .removing processed }
    | none => some { s with worker := .ended }
  | .removing [], .removeProcessed => some { s with worker := .looping }
  | _, _ => none

variable [DecidableEq Key]

/-- The call of `shutdown`. -/
def shutdownStep (c : Client Req Resp Key) (s : System Req Resp Key Exc) :
    ShutdownCall → SystemAction Req Key Exc → Option (System Req Resp Key Exc)
  | .none, .callShutdown => some { s with call := .checking }
  | .checking, .failPending _ =>
    if s.client.queues.pendingRequests.isEmpty then some { s with call := .drainingRequests }
    else some { s with call := .failing 0 }
  | .failing next, .failPending e =>
    match s.client.queues.pendingRequests[next]? with
    | some item => some { s.register item e with call := .failing (next + 1) }
    | none => some { s with call := .clearing }
  | .clearing, .clearPending => some { s.setPending [] with call := .drainingRequests }
  | .drainingRequests, .drainRequests e =>
    match workerStep c s.client (.drainRequest e) with
    | some client => some { s with client := client }
    | none => some { s with call := .drainingRetries }
  | .drainingRetries, .drainRetries e =>
    match workerStep c s.client (.drainRetry e) with
    | some client => some { s with client := client }
    | none => some { s with call := .cancelling }
  | .cancelling, .cancelInFlight =>
    -- the event was scheduled before; a task that has not started ends without running
    if s.shutdownEvent then
      some { s with
        client := s.client.setQueues { s.client.queues with inflightRequests := [] }
        unstarted := []
        cancelled := s.client.queues.inflightRequests
        call := .awaiting }
    else none
  | .awaiting, .completeShutdown => if s.cancelled.isEmpty then some { s with call := .completed } else none
  | _, _ => none

/-- The end of a task that was cancelled. -/
def endCancelledTask (c : Client Req Resp Key) (s : System Req Resp Key Exc) (item : QueueItem Req Key) :
    CancelledEnd Exc → System Req Resp Key Exc
  | .raised e => s.register item e
  | .answered stored => { s with client := s.client.answer c item stored }
  | .retried =>
    { s with
      client := s.client.setQueues { s.client.queues with retryQueue := s.client.queues.retryQueue ++ [item] } }

/-- What an action does, callbacks apart. -/
def effect (c : Client Req Resp Key) (s : System Req Resp Key Exc) :
    SystemAction Req Key Exc → Option (System Req Resp Key Exc)
  | .client a =>
    if a.ofThreadOrTask then (step c s.client a).map fun client => { s with client := client } else none
  | .startTask i =>
    (s.unstarted[i]?).map fun item =>
      { s with
        unstarted := s.unstarted.eraseIdx i
        client := s.client.setQueues
          { s.client.queues with inflightRequests := item :: s.client.queues.inflightRequests } }
  | .setEvent => if s.call = .none then none else some { s with shutdownEvent := true }
  | .endCancelled i how =>
    (s.cancelled[i]?).map fun item => endCancelledTask c { s with cancelled := s.cancelled.eraseIdx i } item how
  | a => (loopStep s s.worker a).or (shutdownStep c s s.call a)

/-- One step of the system. -/
def systemStep (c : Client Req Resp Key) (s : System Req Resp Key Exc) (a : SystemAction Req Key Exc) :
    Option (System Req Resp Key Exc) :=
  (effect c s a).map fun s => { s with client := s.client.runCallbacks }

end

/-! ## Where a request is, and how it gets there -/

/-! ## Places -/

/-- The first request of its key whose future this is has no answer yet. -/
def Waiting (futures : List (Future Resp Exc)) (f : Nat) : Prop :=
  ∃ fut : Future Resp Exc, futures[f]? = some fut ∧ fut.state = .pending ∧ fut.copyOf = none

/-- The pending requests that the worker has before it. -/
def Worker.rest : Worker Req Key → List (QueueItem Req Key)
  | .passing rest _ => rest
  | _ => []

/-- The requests that the worker has processed and not yet removed. -/
def Worker.processed : Worker Req Key → List (QueueItem Req Key)
  | .passing _ processed => processed
  | .removing processed => processed
  | _ => []

/-- The futures that the duplicates in the batch of a thread copy. -/
def Phase.unique : Phase Req Resp Key → List ((Key ⊕ Nat) × Nat)
  | .idle => []
  | .submitting sub _ => sub.unique
  | .enqueuing sub _ => sub.unique
  | .collecting sub _ => sub.unique

/-- The future is that of one of the requests. -/
def Has (items : List (QueueItem Req Key)) (f : Nat) : Prop :=
  ∃ item ∈ items, item.future = f

/-- A thread waits to put the request of the future into the queue. -/
def State.Enqueues (s : State Req Resp Key Exc) (f : Nat) : Prop :=
  ∃ t sub item, s.threads t = .enqueuing sub item ∧ item.future = f

/-- The request of the future is at a place that the worker does not look at while it goes through the pending
    requests. -/
def System.Elsewhere (s : System Req Resp Key Exc) (f : Nat) : Prop :=
  s.client.Enqueues f ∨ Has s.client.queues.requestQueue f ∨ Has s.client.queues.retryQueue f ∨
    Has s.client.queues.inflightRequests f ∨ Has s.unstarted f ∨ Has s.cancelled f

/-- The request of the future is at some place. -/
def System.Holds (s : System Req Resp Key Exc) (f : Nat) : Prop :=
  s.Elsewhere f ∨ Has s.client.queues.pendingRequests f ∨ Has s.worker.rest f ∨ Has s.got f

theorem has_nil (f : Nat) : ¬ Has ([] : List (QueueItem Req Key)) f :=
  nofun

variable {item : QueueItem Req Key} {items : List (QueueItem Req Key)} {f : Nat}

theorem has_cons :
    Has (item :: items) f ↔ item.future = f ∨ Has items f := by
  unfold Has
  rw [List.exists_mem_cons_iff]

theorem has_append {items' : List (QueueItem Req Key)} :
    Has (items ++ items') f ↔ Has items f ∨ Has items' f := by
  unfold Has
  simp only [List.mem_append, or_and_right, exists_or]

theorem has_singleton : Has [item] f ↔ item.future = f := by
  rw [has_cons, or_iff_left (has_nil f)]

theorem has_of_getElem? {i : Nat}
    (h : items[i]? = some item) : Has items item.future :=
  ⟨item, List.mem_of_getElem? h, rfl⟩

/-- Without one of the requests there are the others. -/
theorem has_eraseIdx {i : Nat}
    (h : items[i]? = some item) : Has items f ↔ item.future = f ∨ Has (items.eraseIdx i) f := by
  constructor
  · rintro ⟨other, hother, rfl⟩
    obtain ⟨k, hk⟩ := List.mem_iff_getElem?.mp hother
    by_cases hik : k = i
    · subst hik
      rw [h] at hk
      exact Or.inl (congrArg QueueItem.future (Option.some.inj hk))
    · exact Or.inr ⟨other, List.mem_eraseIdx_iff_getElem?.mpr ⟨k, hik, hk⟩, rfl⟩
  · rintro (rfl | ⟨other, hother, rfl⟩)
    · exact has_of_getElem? h
    · exact ⟨other, List.mem_of_mem_eraseIdx hother, rfl⟩

theorem has_removeItem {items' : List (QueueItem Req Key)}
    (h : removeItem item items = some items') (hf : Has items f) : item.future = f ∨ Has items' f := by
  obtain ⟨other, hother, rfl⟩ := hf
  unfold removeItem at h
  split at h
  · cases h
    by_cases heq : other.future = item.future
    · exact Or.inl heq.symm
    · refine Or.inr ⟨other, ?_, rfl⟩
      exact (List.mem_eraseP_of_neg (by rw [decide_eq_true_eq]; exact heq)).mpr hother
  · cases h

/-! ## Futures -/

/-- No future was added; some may have been settled. -/
structure SettledFrom (futures futures' : List (Future Resp Exc)) : Prop where
  copyOf : ∀ f : Nat, (futures'[f]?).map Future.copyOf = (futures[f]?).map Future.copyOf
  pending : ∀ (f : Nat) (fut' : Future Resp Exc), futures'[f]? = some fut' → fut'.state = .pending →
    ∃ fut : Future Resp Exc, futures[f]? = some fut ∧ fut.state = .pending

theorem SettledFrom.refl (futures : List (Future Resp Exc)) : SettledFrom futures futures :=
  ⟨fun _ => rfl, fun _ fut h hpending => ⟨fut, h, hpending⟩⟩

theorem settledFrom_modify (futures : List (Future Resp Exc)) (i : Nat) (st : FutureState Resp Exc) :
    SettledFrom futures (futures.modify i (Future.settle st)) where
  copyOf := by
    intro f
    rw [List.getElem?_modify]
    cases hf : futures[f]? with
    | none => rfl
    | some fut =>
      by_cases hi : i = f
      · simp [hi, Future.settle_copyOf]
      · simp [hi]
  pending := by
    intro f fut' hf hpending
    obtain ⟨fut, hfut, rfl⟩ := getElem?_settle hf
    refine ⟨fut, hfut, ?_⟩
    by_cases hi : i = f
    · rw [if_pos hi] at hpending
      by_contra hdone
      rw [Future.settle_done st hdone] at hpending
      exact hdone hpending
    · rw [if_neg hi] at hpending
      exact hpending

theorem SettledFrom.waiting {futures futures' : List (Future Resp Exc)} (h : SettledFrom futures futures')
    (hf : Waiting futures' f) : Waiting futures f := by
  obtain ⟨fut', hfut', hpending, hnone⟩ := hf
  obtain ⟨fut, hfut, hpending'⟩ := h.pending f fut' hfut' hpending
  have hcopy := h.copyOf f
  rw [hfut, hfut'] at hcopy
  refine ⟨fut, hfut, hpending', ?_⟩
  rw [← Option.some.inj hcopy]
  exact hnone

/-- A future that was settled does not wait. -/
theorem not_waiting_modify (futures : List (Future Resp Exc)) (i : Nat) {st : FutureState Resp Exc}
    (h : st ≠ .pending) : ¬ Waiting (futures.modify i (Future.settle st)) i := by
  rintro ⟨fut', hfut', hpending, -⟩
  obtain ⟨⟨state, copyOf⟩, -, rfl⟩ := getElem?_settle hfut'
  rw [if_pos rfl] at hpending
  cases state with
  | pending => exact h hpending
  | result response => cases hpending
  | exception failure => cases hpending

/-! ## Threads -/

/-- The next position of the batch of the thread needs a request of its own. -/
def MakesRequest [DecidableEq Key] (c : Client Req Resp Key) (s : State Req Resp Key Exc) (t : Nat) : Prop :=
  ∃ sub checked ref, s.threads t = .submitting sub checked ∧
    sub.batch.requests[sub.futures.length]? = some (some ref) ∧
    cachedResponse c sub.cached (sub.batch.object ref) = none ∧ sub.uniqueFuture? (dedupKey c sub.batch ref) = none

/-- What an action of thread `t` does. -/
inductive ThreadMove [DecidableEq Key] (c : Client Req Resp Key) (s s' : State Req Resp Key Exc) (t : Nat)
    (a : Action Req Key Exc) : Prop
  /-- It neither makes a future nor puts a request into the queue. -/
  | quiet (phase : Phase Req Resp Key) (hthreads : s'.threads = Function.update s.threads t phase)
      (hbefore : ∀ sub item, s.threads t ≠ .enqueuing sub item) (hafter : ∀ sub item, phase ≠ .enqueuing sub item)
      (hfutures : s'.futures = s.futures) (hqueues : s'.queues = s.queues)
      (hunique : ∀ entry ∈ phase.unique, entry ∈ (s.threads t).unique)
  /-- It puts its request into the queue. -/
  | put (phase : Phase Req Resp Key) (sub : Submission Req Resp Key) (item : QueueItem Req Key)
      (hbefore : s.threads t = .enqueuing sub item) (hthreads : s'.threads = Function.update s.threads t phase)
      (hafter : ∀ sub item, phase ≠ .enqueuing sub item) (hfutures : s'.futures = s.futures)
      (hqueues : s'.queues = { s.queues with requestQueue := s.queues.requestQueue ++ [item] })
      (hunique : ∀ entry ∈ phase.unique, entry ∈ (s.threads t).unique)
  /-- It makes a future that is done, or one that copies the future of an earlier request. -/
  | future (phase : Phase Req Resp Key) (fut : Future Resp Exc)
      (hthreads : s'.threads = Function.update s.threads t phase)
      (hbefore : ∀ sub item, s.threads t ≠ .enqueuing sub item) (hafter : ∀ sub item, phase ≠ .enqueuing sub item)
      (hfutures : s'.futures = s.futures ++ [fut]) (hqueues : s'.queues = s.queues)
      (hfut : (fut.state ≠ .pending ∧ fut.copyOf = none) ∨
        ∃ entry ∈ (s.threads t).unique, fut.copyOf = some entry.2)
      (hunique : ∀ entry ∈ phase.unique, entry ∈ (s.threads t).unique)
  /-- It makes a request. -/
  | request (sub : Submission Req Resp Key) (item : QueueItem Req Key) (hmakes : MakesRequest c s t)
      (ha : ∃ t', a = .submit t') (hthreads : s'.threads = Function.update s.threads t (.enqueuing sub item))
      (hbefore : ∀ sub item, s.threads t ≠ .enqueuing sub item) (hfuture : item.future = s.futures.length)
      (hfutures : s'.futures = s.futures ++ [⟨.pending, none⟩]) (hqueues : s'.queues = s.queues)
      (hunique : ∀ entry ∈ sub.unique, entry ∈ (s.threads t).unique ∨ entry.2 = item.future)

section

variable [DecidableEq Key] {c : Client Req Resp Key} {s s' : State Req Resp Key Exc}

theorem submitRequest_move {t : Nat} {sub : Submission Req Resp Key} {checked : Bool}
    (hphase : s.threads t = .submitting sub checked) {request : Option Nat}
    (hrequest : sub.batch.requests[sub.futures.length]? = some request) (t' : Nat) :
    ThreadMove c s (submitRequest c s t sub request) t (.submit t') := by
  have hbefore : ∀ sub' item, s.threads t ≠ .enqueuing sub' item := by
    intro sub' item h
    rw [hphase] at h
    cases h
  have hafter : ∀ (sub'' : Submission Req Resp Key) (sub' : Submission Req Resp Key) (item : QueueItem Req Key),
      (.submitting sub'' false : Phase Req Resp Key) ≠ .enqueuing sub' item := nofun
  have hunique : (s.threads t).unique = sub.unique := by
    rw [hphase]
    rfl
  cases request with
  | none =>
    exact .future _ ⟨.result none, none⟩ rfl hbefore (hafter _) rfl rfl (Or.inl ⟨nofun, rfl⟩)
      (fun entry hentry => hunique ▸ hentry)
  | some ref =>
    unfold submitRequest
    cases hcached : cachedResponse c sub.cached (sub.batch.object ref) with
    | some response =>
      simp only [hcached]
      exact .future _ ⟨.result (some response), none⟩ rfl hbefore (hafter _) rfl rfl (Or.inl ⟨nofun, rfl⟩)
        (fun entry hentry => hunique ▸ hentry)
    | none =>
      simp only [hcached]
      cases hfound : sub.uniqueFuture? (dedupKey c sub.batch ref) with
      | some f =>
        have hentry := Submission.mem_of_uniqueFuture? hfound
        rw [← hunique] at hentry
        exact .future _ _ rfl hbefore (hafter _) rfl rfl (Or.inr ⟨_, hentry, rfl⟩)
          (fun entry hentry => hunique ▸ hentry)
      | none =>
        refine .request _ _ ⟨sub, checked, ref, hphase, hrequest, hcached, hfound⟩ ⟨t', rfl⟩ rfl hbefore rfl rfl
          rfl ?_
        intro entry hentry
        rcases List.mem_cons.mp hentry with rfl | hentry
        · exact Or.inr rfl
        · exact Or.inl (hunique ▸ hentry)

/-- **What a step of a thread does.** -/
theorem threadStep_move {t : Nat} {a : Action Req Key Exc} (hstep : threadStep c s t (s.threads t) a = some s') :
    ThreadMove c s s' t a := by
  generalize hphase : s.threads t = phase at hstep
  unfold threadStep at hstep
  -- a phase that is not `enqueuing` makes or puts no request unless it submits one
  split at hstep
  · split at hstep
    · cases hstep
    · cases hstep
      exact .quiet _ rfl (by rw [hphase]; nofun) nofun rfl rfl nofun
  · split at hstep
    · split at hstep
      · cases hstep
        exact .quiet _ rfl (by rw [hphase]; nofun) nofun rfl rfl nofun
      · cases hstep
        exact .quiet _ rfl (by rw [hphase]; nofun) nofun rfl rfl (by rw [hphase]; exact fun _ h => h)
    · cases hstep
  · obtain ⟨request, hrequest, rfl⟩ := Option.map_eq_some_iff.mp hstep
    exact submitRequest_move hphase hrequest _
  · rename_i sub item _
    split at hstep
    · cases hstep
      exact .put _ sub item hphase rfl nofun rfl rfl (by rw [hphase]; exact fun _ h => h)
    · cases hstep
  · split at hstep
    · cases hstep
      exact .quiet _ rfl (by rw [hphase]; nofun) nofun rfl rfl (by rw [hphase]; exact fun _ h => h)
    · cases hstep
  · split at hstep
    · cases hstep
      exact .quiet _ rfl (by rw [hphase]; nofun) nofun rfl rfl (by rw [hphase]; exact fun _ h => h)
    · cases hstep
      exact .quiet _ rfl (by rw [hphase]; nofun) nofun rfl rfl nofun
    · cases hstep
  · split at hstep
    · cases hstep
      exact .quiet _ rfl (by rw [hphase]; nofun) nofun rfl rfl nofun
    · cases hstep
  · cases hstep
    exact .quiet _ rfl (by rw [hphase]; nofun) nofun rfl rfl nofun
  · rename_i sub item _
    cases hstep
    exact .put _ sub item hphase rfl nofun rfl rfl nofun
  · cases hstep
    exact .quiet _ rfl (by rw [hphase]; nofun) nofun rfl rfl nofun
  · cases hstep

/-! ## Tasks -/

/-- What the end of a task in flight does. -/
inductive TaskMove (s s' : State Req Resp Key Exc) : Prop
  /-- Nothing of this concerns a request. -/
  | quiet (hthreads : s'.threads = s.threads) (hfutures : s'.futures = s.futures) (hqueues : s'.queues = s.queues)
  /-- The request is tried again. -/
  | retried (i : Nat) (item : QueueItem Req Key) (hitem : s.queues.inflightRequests[i]? = some item)
      (hthreads : s'.threads = s.threads) (hfutures : s'.futures = s.futures)
      (hqueues : s'.queues = { s.queues.land i with retryQueue := s.queues.retryQueue ++ [item] })
  /-- The request is answered or failed. -/
  | settled (i : Nat) (item : QueueItem Req Key) (st : FutureState Resp Exc)
      (hitem : s.queues.inflightRequests[i]? = some item) (hst : st ≠ .pending) (hthreads : s'.threads = s.threads)
      (hfutures : s'.futures = s.futures.modify item.future (Future.settle st))
      (hqueues : s'.queues = s.queues.land i)

omit [DecidableEq Key] in
theorem storeResponse_same (s : State Req Resp Key Exc) (item : QueueItem Req Key) (stored : Bool) :
    (s.storeResponse c item stored).threads = s.threads ∧ (s.storeResponse c item stored).futures = s.futures ∧
      (s.storeResponse c item stored).queues = s.queues := by
  unfold State.storeResponse
  split
  · split
    · exact ⟨rfl, rfl, rfl⟩
    · exact ⟨rfl, rfl, rfl⟩
  · exact ⟨rfl, rfl, rfl⟩

omit [DecidableEq Key] in
theorem answer_same (s : State Req Resp Key Exc) (item : QueueItem Req Key) (stored : Bool) :
    (s.answer c item stored).threads = s.threads ∧
      (s.answer c item stored).futures =
        s.futures.modify item.future (Future.settle (.result (c.respond item.request))) ∧
      (s.answer c item stored).queues = s.queues := by
  obtain ⟨hthreads, hfutures, hqueues⟩ := storeResponse_same (c := c) s item stored
  exact ⟨hthreads, congrArg (List.modify · item.future _) hfutures, hqueues⟩

omit [DecidableEq Key] in
/-- **What the end of a task in flight does.** -/
theorem workerStep_taskMove {a : Action Req Key Exc} (ha : a.ofThreadOrTask = true) (hstep : workerStep c s a = some s') :
    TaskMove s s' := by
  cases a with
  | timeout i =>
    obtain ⟨item, hitem, rfl⟩ := Option.map_eq_some_iff.mp hstep
    exact .retried i item hitem rfl rfl rfl
  | transient i e =>
    obtain ⟨item, hitem, heq⟩ := Option.map_eq_some_iff.mp hstep
    by_cases hmax : c.maxBackoffs ≤ s.numBackoffs
    · rw [if_pos hmax] at heq
      subst heq
      exact .settled i item (.exception ⟨item.batchId, e⟩) hitem nofun rfl rfl rfl
    · rw [if_neg hmax] at heq
      subst heq
      exact .retried i item hitem rfl rfl rfl
  | fatal i e =>
    obtain ⟨item, hitem, rfl⟩ := Option.map_eq_some_iff.mp hstep
    exact .settled i item (.exception ⟨item.batchId, e⟩) hitem nofun rfl rfl rfl
  | succeed i stored =>
    obtain ⟨item, hitem, rfl⟩ := Option.map_eq_some_iff.mp hstep
    obtain ⟨hthreads, hfutures, hqueues⟩ := answer_same (c := c) (s.setQueues (s.queues.land i)) item stored
    exact .settled i item (.result (c.respond item.request)) hitem nofun hthreads hfutures hqueues
  | succeedThenFail i stored e =>
    obtain ⟨item, hitem, rfl⟩ := Option.map_eq_some_iff.mp hstep
    obtain ⟨hthreads, hfutures, hqueues⟩ := storeResponse_same (c := c) (s.setQueues (s.queues.land i)) item stored
    exact .settled i item (.exception ⟨item.batchId, e⟩) hitem nofun hthreads
      (congrArg (List.modify · item.future _) hfutures) hqueues
  | backoff =>
    cases hstep
    exact .quiet rfl rfl rfl
  | start _ _ _ | check _ | submit _ | enqueue _ | submitted _ | collect _ | finish _ | abort _ => cases hstep
  | getQueued _ _ | dispatch _ | failPending _ _ | failDispatched _ _ | drainRequest _ | drainRetry _
  | callback _ => cases ha

end

end ModelClient

end Fenic
