import Fenic.Lib.Transition
import Mathlib.Data.List.Basic
import Mathlib.Logic.Function.Basic

/-!
# `ModelClient.Step` — what can happen next

One `ModelClient` is shared by the threads that submit batches and by one worker on the event loop. This
module embeds `_inference/model_client.py`: the submission loop of a batch, the collection of its responses,
and what the worker does with the items of the queues.

A *step* is what happens between two points where another party may intervene, so a run is any interleaving
of the threads, the worker and the requests in flight. What the model leaves to the run is what depends on
time or on the outside: which items the rate limiter lets through, which requests time out or fail and how,
which cache entries a lookup still finds, and when a callback of a future runs. What a request is *answered*,
when it is answered, is fixed by `Client.respond`.

Token estimates, metrics and progress bars are left out: nothing below reads them.

`step c s a` is the state after the action `a`, or nothing when `a` cannot happen in `s`. The actions of a
thread follow `_submit_batch_requests` and `_collect_batch_responses`; those of the worker follow
`_process_queue`, `_process_single_request` and `_handle_response`.
-/

namespace Fenic

namespace ModelClient

variable {Req Resp Key Exc : Type}

/-! ## Clients, batches and items -/

/-- A client, seen from the batch machinery. -/
structure Client (Req Resp Key : Type) where
  /-- `_safe_build_request_key`. -/
  requestKey : Req → Option Key
  /-- There is a response cache and the requests are completion requests, the only ones that are cached. -/
  caches : Bool
  /-- What the provider answers when it answers; `None` is a possible answer. -/
  respond : Req → Option Resp
  /-- A response stored in the cache and read back. -/
  reload : Resp → Resp
  queueSize : Nat
  maxBackoffs : Nat

/-- The argument of one `make_batch_requests` call. A request is named by its `id()`, so that one object may
    stand at several positions. -/
structure Batch (Req : Type) where
  id : Nat
  requests : List (Option Nat)
  object : Nat → Req

/-- `QueueItem`. -/
structure QueueItem (Req Key : Type) where
  threadId : Nat
  request : Req
  future : Nat
  batchId : Nat
  requestFingerprint : Option Key

/-- An exception, with the batch of the item it was registered for. The code keeps the exception alone; the
    batch is there to state which batch an exception belongs to. -/
structure Failure (Exc : Type) where
  batchId : Nat
  exception : Exc
  deriving DecidableEq

/-- The state of a `concurrent.futures.Future`. -/
inductive FutureState (Resp Exc : Type) where
  | pending
  | result (response : Option Resp)
  | exception (failure : Failure Exc)
  deriving DecidableEq

/-- A future. That of a duplicate request copies the future of the first one when that is done. -/
structure Future (Resp Exc : Type) where
  state : FutureState Resp Exc
  copyOf : Option Nat
  deriving DecidableEq

/-- `set_result` and `set_exception`, guarded by `not future.done()`. -/
def Future.settle (st : FutureState Resp Exc) : Future Resp Exc → Future Resp Exc
  | ⟨.pending, copyOf⟩ => ⟨st, copyOf⟩
  | fut => fut

/-! ## Requests with one key -/

/-- The key a batch tells its requests apart by: the request key, or the object itself when there is none. -/
def dedupKey (c : Client Req Resp Key) (b : Batch Req) (ref : Nat) : Key ⊕ Nat :=
  match c.requestKey (b.object ref) with
  | some key => .inl key
  | none => .inr ref

section

variable [DecidableEq Key]

/-- The cached response of a request among the entries that the lookup of its batch found. -/
def cachedResponse (c : Client Req Resp Key) (cached : List (Key × Resp)) (request : Req) : Option Resp :=
  (c.requestKey request).bind (fun key => (cached.lookup key).map c.reload)

/-- The first request of the batch with a given key. -/
def leader (c : Client Req Resp Key) (b : Batch Req) (key : Key ⊕ Nat) : Option Nat :=
  (b.requests.filterMap id).find? (fun ref => decide (dedupKey c b ref = key))

/-- **What a position of the result should hold**: nothing for no request; the cached response of its key if
    the lookup found one; and otherwise what the provider answers to the first request of the batch with the
    same key. -/
def expected (c : Client Req Resp Key) (b : Batch Req) (cached : List (Key × Resp)) :
    Option Nat → Option Resp
  | none => none
  | some ref =>
    match cachedResponse c cached (b.object ref) with
    | some response => some response
    | none => (leader c b (dedupKey c b ref)).bind (fun lead => c.respond (b.object lead))

end

/-! ## Threads -/

/-- The local variables of a batch: `cached_responses`, `request_futures`, `unique_futures`, and the queue
    items it has made. -/
structure Submission (Req Resp Key : Type) where
  batch : Batch Req
  cached : List (Key × Resp)
  futures : List Nat
  unique : List ((Key ⊕ Nat) × Nat)
  items : List (QueueItem Req Key)

/-- `unique_futures.get(key)`. -/
def Submission.uniqueFuture? [DecidableEq Key] (sub : Submission Req Resp Key) (key : Key ⊕ Nat) :
    Option Nat :=
  (sub.unique.find? (fun entry => decide (entry.1 = key))).map Prod.snd

theorem Submission.mem_of_uniqueFuture? [DecidableEq Key] {sub : Submission Req Resp Key} {key : Key ⊕ Nat}
    {f : Nat} (h : sub.uniqueFuture? key = some f) : (key, f) ∈ sub.unique := by
  obtain ⟨⟨key', f'⟩, hfind, rfl⟩ := Option.map_eq_some_iff.mp h
  have hkey : key' = key := by simpa using List.find?_some hfind
  exact hkey ▸ List.mem_of_find?_eq_some hfind

theorem Submission.not_mem_of_uniqueFuture? [DecidableEq Key] {sub : Submission Req Resp Key}
    {key : Key ⊕ Nat} (h : sub.uniqueFuture? key = none) : key ∉ sub.unique.map Prod.fst := by
  intro hmem
  obtain ⟨entry, hentry, heq⟩ := List.mem_map.mp hmem
  have hne := List.find?_eq_none.mp (Option.map_eq_none_iff.mp h) entry hentry
  exact hne (by simpa using heq)

/-- Where a thread is. -/
inductive Phase (Req Resp Key : Type) where
  | idle
  /-- In the submission loop, before (`false`) or after (`true`) `_maybe_raise_thread_exception`. -/
  | submitting (sub : Submission Req Resp Key) (checked : Bool)
  /-- Waiting in `enqueue_future.result()`. -/
  | enqueuing (sub : Submission Req Resp Key) (item : QueueItem Req Key)
  /-- In `_collect_batch_responses`, with the responses so far. -/
  | collecting (sub : Submission Req Resp Key) (responses : List (Option Resp))

/-- How a batch ended. -/
inductive Outcome (Req Resp Key Exc : Type) where
  | returned (thread : Nat) (sub : Submission Req Resp Key) (responses : List (Option Resp))
  | raised (thread : Nat) (batch : Batch Req) (failure : Failure Exc)
  /-- The thread left the batch for a reason of its own. -/
  | aborted (thread : Nat) (batch : Batch Req)

/-! ## The whole state -/

/-- The four places where an item can be. -/
structure Queues (Req Key : Type) where
  requestQueue : List (QueueItem Req Key)
  retryQueue : List (QueueItem Req Key)
  pendingRequests : List (QueueItem Req Key)
  inflightRequests : List (QueueItem Req Key)

def Queues.items (q : Queues Req Key) : List (QueueItem Req Key) :=
  q.requestQueue ++ q.retryQueue ++ q.pendingRequests ++ q.inflightRequests

structure State (Req Resp Key Exc : Type) where
  futures : List (Future Resp Exc)
  queues : Queues Req Key
  threads : Nat → Phase Req Resp Key
  threadExceptions : Nat → Option (Failure Exc)
  cache : List (Key × Resp)
  numBackoffs : Nat
  /-- Every item made so far. -/
  created : List (QueueItem Req Key)
  /-- Every batch id used so far. -/
  started : List Nat
  outcomes : List (Outcome Req Resp Key Exc)

/-- A fresh client over a response cache that may hold entries of earlier sessions. -/
def init (cache : List (Key × Resp)) : State Req Resp Key Exc where
  futures := []
  queues := ⟨[], [], [], []⟩
  threads := fun _ => .idle
  threadExceptions := fun _ => none
  cache := cache
  numBackoffs := 0
  created := []
  started := []
  outcomes := []

namespace State

/-- Move a thread. -/
def goto (s : State Req Resp Key Exc) (t : Nat) (phase : Phase Req Resp Key) : State Req Resp Key Exc :=
  { s with threads := Function.update s.threads t phase }

/-- Append a future; its number is the old length. -/
def addFuture (s : State Req Resp Key Exc) (fut : Future Resp Exc) : State Req Resp Key Exc :=
  { s with futures := s.futures ++ [fut] }

/-- Make a queue item with a future of its own, `_get_or_create_request_future`. -/
def addItem (s : State Req Resp Key Exc) (item : QueueItem Req Key) : State Req Resp Key Exc :=
  { s.addFuture ⟨.pending, none⟩ with created := item :: s.created }

def setQueues (s : State Req Resp Key Exc) (q : Queues Req Key) : State Req Resp Key Exc :=
  { s with queues := q }

/-- End a batch. -/
def conclude (s : State Req Resp Key Exc) (t : Nat) (o : Outcome Req Resp Key Exc) :
    State Req Resp Key Exc :=
  { s.goto t .idle with outcomes := o :: s.outcomes }

/-- `_register_thread_exception`. -/
def registerThreadException (s : State Req Resp Key Exc) (item : QueueItem Req Key) (e : Exc) :
    State Req Resp Key Exc :=
  { s with
    futures := s.futures.modify item.future (Future.settle (.exception ⟨item.batchId, e⟩))
    threadExceptions := Function.update s.threadExceptions item.threadId (some ⟨item.batchId, e⟩) }

/-- `cache.set` of a response, which may fail to store it. -/
def storeResponse (s : State Req Resp Key Exc) (c : Client Req Resp Key) (item : QueueItem Req Key)
    (stored : Bool) : State Req Resp Key Exc :=
  match c.respond item.request, item.requestFingerprint with
  | some response, some key =>
    if c.caches && stored then { s with cache := (key, response) :: s.cache } else s
  | _, _ => s

/-- The success branch of `_handle_response`. -/
def answer (s : State Req Resp Key Exc) (c : Client Req Resp Key) (item : QueueItem Req Key) (stored : Bool) :
    State Req Resp Key Exc :=
  let s := storeResponse s c item stored
  { s with futures := s.futures.modify item.future (Future.settle (.result (c.respond item.request))) }

end State

/-! ## What can happen next -/

/-- One atomic action of a thread (named by its number), of the worker, or of a future. -/
inductive Action (Req Key Exc : Type) where
  /-- `make_batch_requests`, up to the cache lookup, which finds the entries under the `visible` keys. -/
  | start (t : Nat) (batch : Batch Req) (visible : Key → Bool)
  /-- `_maybe_raise_thread_exception` at the head of the loop. -/
  | check (t : Nat)
  /-- The body of the loop, up to the enqueuing of a new item. -/
  | submit (t : Nat)
  /-- The new item enters the queue, which has room. -/
  | enqueue (t : Nat)
  /-- The loop is over. -/
  | submitted (t : Nat)
  /-- `req_future.result()` of the next position. -/
  | collect (t : Nat)
  /-- The batch returns. -/
  | finish (t : Nat)
  /-- The thread leaves the batch for a reason of its own. -/
  | abort (t : Nat)
  /-- `_get_queued_requests`: one item from the retry queue, from the request queue, or from both. -/
  | getQueued (retry request : Bool)
  /-- The rate limiter lets a pending item through. -/
  | dispatch (i : Nat)
  /-- An error in the worker loop, or the shutdown, for a pending item. -/
  | failPending (i : Nat) (e : Exc)
  /-- An error in the worker loop after the item's task was created. -/
  | failDispatched (i : Nat) (e : Exc)
  /-- The shutdown empties the queues. -/
  | drainRequest (e : Exc)
  | drainRetry (e : Exc)
  /-- The request in flight ran into its timeout. -/
  | timeout (i : Nat)
  /-- A transient exception; `e` is what is raised when the retries are used up. -/
  | transient (i : Nat) (e : Exc)
  /-- A fatal exception, any other exception of the task, or its cancellation. -/
  | fatal (i : Nat) (e : Exc)
  /-- A response; `stored` says whether the cache kept it. -/
  | succeed (i : Nat) (stored : Bool)
  /-- A response whose bookkeeping raised before the future was set. -/
  | succeedThenFail (i : Nat) (stored : Bool) (e : Exc)
  /-- The callback that copies a finished future to the one of a duplicate. -/
  | callback (f : Nat)
  /-- `_maybe_backoff`. -/
  | backoff

section

variable [DecidableEq Key]

/-! ## A thread -/

/-- The body of the submission loop for one position. -/
def submitRequest (c : Client Req Resp Key) (s : State Req Resp Key Exc) (t : Nat)
    (sub : Submission Req Resp Key) : Option Nat → State Req Resp Key Exc
  | none =>
    -- an empty request gets a future that is done
    (s.addFuture ⟨.result none, none⟩).goto t
      (.submitting { sub with futures := sub.futures ++ [s.futures.length] } false)
  | some ref =>
    match cachedResponse c sub.cached (sub.batch.object ref) with
    | some response =>
      (s.addFuture ⟨.result (some response), none⟩).goto t
        (.submitting { sub with futures := sub.futures ++ [s.futures.length] } false)
    | none =>
      match sub.uniqueFuture? (dedupKey c sub.batch ref) with
      | some f =>
        -- `_get_or_create_request_future`: copy now if the first future is done, else by callback
        let st := ((s.futures[f]?).map Future.state).getD .pending
        (s.addFuture ⟨st, some f⟩).goto t
          (.submitting { sub with futures := sub.futures ++ [s.futures.length] } false)
      | none =>
        let item : QueueItem Req Key :=
          ⟨t, sub.batch.object ref, s.futures.length, sub.batch.id, c.requestKey (sub.batch.object ref)⟩
        (s.addItem item).goto t (.enqueuing
          { sub with
            futures := sub.futures ++ [item.future]
            unique := (dedupKey c sub.batch ref, item.future) :: sub.unique
            items := item :: sub.items } item)

/-- `make_batch_requests` up to the loop. -/
def startBatch (c : Client Req Resp Key) (s : State Req Resp Key Exc) (t : Nat) (batch : Batch Req)
    (visible : Key → Bool) : State Req Resp Key Exc :=
  let cached := if c.caches then s.cache.filter (fun entry => visible entry.1) else []
  { s.goto t (.submitting ⟨batch, cached, [], [], []⟩ false) with started := batch.id :: s.started }

/-- The action of thread `t` in a given phase. -/
def threadStep (c : Client Req Resp Key) (s : State Req Resp Key Exc) (t : Nat) :
    Phase Req Resp Key → Action Req Key Exc → Option (State Req Resp Key Exc)
  | .idle, .start _ batch visible =>
    if batch.id ∈ s.started then none else some (startBatch c s t batch visible)
  | .submitting sub false, .check _ =>
    if sub.futures.length < sub.batch.requests.length then
      match s.threadExceptions t with
      | some failure => some (s.conclude t (.raised t sub.batch failure))
      | none => some (s.goto t (.submitting sub true))
    else none
  | .submitting sub true, .submit _ =>
    (sub.batch.requests[sub.futures.length]?).map (submitRequest c s t sub)
  | .enqueuing sub item, .enqueue _ =>
    -- as for every `asyncio.Queue`, size zero means no bound
    if c.queueSize = 0 ∨ s.queues.requestQueue.length < c.queueSize then
      some ((s.setQueues { s.queues with requestQueue := s.queues.requestQueue ++ [item] }).goto t
        (.submitting sub false))
    else none
  | .submitting sub false, .submitted _ =>
    if sub.futures.length = sub.batch.requests.length then some (s.goto t (.collecting sub [])) else none
  | .collecting sub responses, .collect _ =>
    match (sub.futures[responses.length]?).bind (fun f => s.futures[f]?) with
    | some ⟨.result response, _⟩ => some (s.goto t (.collecting sub (responses ++ [response])))
    | some ⟨.exception failure, _⟩ => some (s.conclude t (.raised t sub.batch failure))
    | _ => none
  | .collecting sub responses, .finish _ =>
    if responses.length = sub.futures.length then some (s.conclude t (.returned t sub responses)) else none
  | .submitting sub _, .abort _ => some (s.conclude t (.aborted t sub.batch))
  | .enqueuing sub item, .abort _ =>
    -- the coroutine that puts the item into the queue goes on without the thread
    some ((s.setQueues { s.queues with requestQueue := s.queues.requestQueue ++ [item] }).conclude t
      (.aborted t sub.batch))
  | .collecting sub _, .abort _ => some (s.conclude t (.aborted t sub.batch))
  | _, _ => none

/-! ## The worker -/

/-- The queues after one item was taken out of the tasks in flight. -/
def Queues.land (q : Queues Req Key) (i : Nat) : Queues Req Key :=
  { q with inflightRequests := q.inflightRequests.eraseIdx i }

/-- The action of the worker. -/
def workerStep (c : Client Req Resp Key) (s : State Req Resp Key Exc) :
    Action Req Key Exc → Option (State Req Resp Key Exc)
  | .getQueued retry request =>
    let q := s.queues
    let taken := (if retry then q.retryQueue.take 1 else []) ++ (if request then q.requestQueue.take 1 else [])
    if q.pendingRequests.isEmpty then
      some (s.setQueues
        { q with
          retryQueue := if retry then q.retryQueue.drop 1 else q.retryQueue
          requestQueue := if request then q.requestQueue.drop 1 else q.requestQueue
          pendingRequests := taken })
    else none
  | .dispatch i =>
    (s.queues.pendingRequests[i]?).map (fun item => s.setQueues
      { s.queues with
        pendingRequests := s.queues.pendingRequests.eraseIdx i
        inflightRequests := item :: s.queues.inflightRequests })
  | .failPending i e =>
    (s.queues.pendingRequests[i]?).map (fun item =>
      (s.setQueues { s.queues with pendingRequests := s.queues.pendingRequests.eraseIdx i }).registerThreadException
        item e)
  | .failDispatched i e =>
    (s.queues.inflightRequests[i]?).map (fun item => s.registerThreadException item e)
  | .drainRequest e =>
    (s.queues.requestQueue[0]?).map (fun item =>
      (s.setQueues { s.queues with requestQueue := s.queues.requestQueue.drop 1 }).registerThreadException item e)
  | .drainRetry e =>
    (s.queues.retryQueue[0]?).map (fun item =>
      (s.setQueues { s.queues with retryQueue := s.queues.retryQueue.drop 1 }).registerThreadException item e)
  | .timeout i =>
    (s.queues.inflightRequests[i]?).map (fun item => s.setQueues
      { s.queues.land i with retryQueue := s.queues.retryQueue ++ [item] })
  | .transient i e =>
    (s.queues.inflightRequests[i]?).map (fun item =>
      if c.maxBackoffs ≤ s.numBackoffs then (s.setQueues (s.queues.land i)).registerThreadException item e
      else s.setQueues { s.queues.land i with retryQueue := s.queues.retryQueue ++ [item] })
  | .fatal i e =>
    (s.queues.inflightRequests[i]?).map (fun item =>
      (s.setQueues (s.queues.land i)).registerThreadException item e)
  | .succeed i stored =>
    (s.queues.inflightRequests[i]?).map (fun item => (s.setQueues (s.queues.land i)).answer c item stored)
  | .succeedThenFail i stored e =>
    (s.queues.inflightRequests[i]?).map (fun item =>
      ((s.setQueues (s.queues.land i)).storeResponse c item stored).registerThreadException item e)
  | .callback f =>
    match s.futures[f]? with
    | some ⟨.pending, some source⟩ =>
      (s.futures[source]?).map (fun fut =>
        { s with futures := s.futures.modify f (Future.settle fut.state) })
    | _ => none
  | .backoff => some { s with numBackoffs := s.numBackoffs + 1 }
  | _ => none

/-- The thread that takes an action, if it is one of a thread. -/
def Action.thread : Action Req Key Exc → Option Nat
  | .start t _ _ => some t
  | .check t => some t
  | .submit t => some t
  | .enqueue t => some t
  | .submitted t => some t
  | .collect t => some t
  | .finish t => some t
  | .abort t => some t
  | _ => none

/-- One step of the system. -/
def step (c : Client Req Resp Key) (s : State Req Resp Key Exc) (a : Action Req Key Exc) :
    Option (State Req Resp Key Exc) :=
  match a.thread with
  | some t => threadStep c s t (s.threads t) a
  | none => workerStep c s a

end

end ModelClient

end Fenic
