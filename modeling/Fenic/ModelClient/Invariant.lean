import Fenic.ModelClient.Step

/-!
# `ModelClient.Invariant` — what holds in every reachable state

## Contents
- **Futures.** A done future holds the provider's answer to the request of its item, or a failure of the
  item's own batch; the future of a duplicate holds the same (`FuturesOk`).
- **Progress.** A future that is done never changes, and items are never forgotten (`Progress`).
- **The worker.** Its steps are put together from five moves, each of which keeps all this.
-/

namespace Fenic

namespace ModelClient

variable {Req Resp Key Exc : Type}

/-! ## Futures -/

/-- A state that a future of `item` may have. -/
def ItemState (c : Client Req Resp Key) (item : QueueItem Req Key) : FutureState Resp Exc → Prop
  | .pending => True
  | .result response => response = c.respond item.request
  | .exception failure => failure.batchId = item.batchId

/-- The invariant of futures, items and queues. -/
structure FuturesOk (c : Client Req Resp Key) (s : State Req Resp Key Exc) : Prop where
  live : ∀ item ∈ s.queues.items, item ∈ s.created
  own : ∀ item ∈ s.created, ∃ fut : Future Resp Exc, s.futures[item.future]? = some fut ∧ fut.copyOf = none ∧
    ItemState c item fut.state
  copies : ∀ (f source : Nat) (fut : Future Resp Exc), s.futures[f]? = some fut → fut.copyOf = some source →
    ∃ item ∈ s.created, item.future = source ∧ ItemState c item fut.state
  distinct : ∀ item ∈ s.created, ∀ item' ∈ s.created, item.future = item'.future → item = item'
  keyed : ∀ item ∈ s.created, item.requestFingerprint = c.requestKey item.request

/-- What a change of state keeps: items, and futures with their sources; a done future does not change. -/
structure Progress (s s' : State Req Resp Key Exc) : Prop where
  created : ∀ item ∈ s.created, item ∈ s'.created
  futures : ∀ (f : Nat) (fut : Future Resp Exc), s.futures[f]? = some fut →
    ∃ fut', s'.futures[f]? = some fut' ∧ fut'.copyOf = fut.copyOf ∧ (fut.state ≠ .pending → fut' = fut)

theorem Progress.refl (s : State Req Resp Key Exc) : Progress s s :=
  ⟨fun _ h => h, fun _ fut h => ⟨fut, h, rfl, fun _ => rfl⟩⟩

/-- Nothing happened to items and futures. -/
theorem Progress.of_eq {s s' : State Req Resp Key Exc} (hcreated : s'.created = s.created)
    (hfutures : s'.futures = s.futures) : Progress s s' := by
  refine ⟨fun item hitem => hcreated ▸ hitem, fun f fut hf => ⟨fut, ?_, rfl, fun _ => rfl⟩⟩
  rwa [hfutures]

theorem Progress.trans {s s' s'' : State Req Resp Key Exc} (h : Progress s s') (h' : Progress s' s'') :
    Progress s s'' where
  created := fun item hitem => h'.created item (h.created item hitem)
  futures := by
    intro f fut hf
    obtain ⟨fut', hf', hcopy, hdone⟩ := h.futures f fut hf
    obtain ⟨fut'', hf'', hcopy', hdone'⟩ := h'.futures f fut' hf'
    refine ⟨fut'', hf'', hcopy'.trans hcopy, fun hne => ?_⟩
    have heq : fut' = fut := hdone hne
    rw [heq] at hdone'
    exact hdone' hne

/-- Settling leaves done futures and sources alone. -/
theorem Future.settle_copyOf (st : FutureState Resp Exc) (fut : Future Resp Exc) :
    (fut.settle st).copyOf = fut.copyOf := by
  obtain ⟨state, copyOf⟩ := fut
  cases state <;> rfl

variable {fut : Future Resp Exc}

theorem Future.settle_done (st : FutureState Resp Exc) (h : fut.state ≠ .pending) :
    fut.settle st = fut := by
  obtain ⟨state, copyOf⟩ := fut
  cases state with
  | pending => exact absurd rfl h
  | result r => rfl
  | exception f => rfl

/-- After settling, the future has its old state or the new one. -/
theorem Future.settle_state (st : FutureState Resp Exc) (fut : Future Resp Exc) :
    (fut.settle st).state = fut.state ∨ (fut.settle st).state = st := by
  obtain ⟨state, copyOf⟩ := fut
  cases state with
  | pending => exact Or.inr rfl
  | result r => exact Or.inl rfl
  | exception f => exact Or.inl rfl

/-- Looking up a future after one was settled. -/
theorem getElem?_settle {futures : List (Future Resp Exc)} {i f : Nat} {st : FutureState Resp Exc}
    (h : (futures.modify i (Future.settle st))[f]? = some fut) :
    ∃ fut₀, futures[f]? = some fut₀ ∧ fut = if i = f then fut₀.settle st else fut₀ := by
  rw [List.getElem?_modify] at h
  cases h₀ : futures[f]? with
  | none =>
    rw [h₀] at h
    cases h
  | some fut₀ =>
    rw [h₀] at h
    cases h
    refine ⟨fut₀, rfl, ?_⟩
    split <;> rfl

/-- Settling one future is progress. -/
theorem progress_settle (s : State Req Resp Key Exc) (i : Nat) (st : FutureState Resp Exc) :
    Progress s { s with futures := s.futures.modify i (Future.settle st) } where
  created := fun _ h => h
  futures := by
    intro f fut hf
    by_cases hi : i = f
    · refine ⟨fut.settle st, ?_, Future.settle_copyOf st fut, fun hne => Future.settle_done st hne⟩
      simp [hf, hi]
    · exact ⟨fut, by simp [hf, hi], rfl, fun _ => rfl⟩

/-- **Settling a future keeps the invariant** when the new state is one that every item of the future, and
    every item it copies, may have. -/
theorem FuturesOk.settle {c : Client Req Resp Key} {s : State Req Resp Key Exc} {i : Nat}
    {st : FutureState Resp Exc} (h : FuturesOk c s)
    (hown : ∀ item ∈ s.created, item.future = i → ItemState c item st)
    (hcopy : ∀ (fut : Future Resp Exc) (source : Nat), s.futures[i]? = some fut → fut.copyOf = some source →
      ∀ item ∈ s.created, item.future = source → ItemState c item st) :
    FuturesOk c { s with futures := s.futures.modify i (Future.settle st) } where
  live := h.live
  distinct := h.distinct
  keyed := h.keyed
  own := by
    intro item hitem
    obtain ⟨fut, hfut, hnone, hstate⟩ := h.own item hitem
    by_cases hi : i = item.future
    · refine ⟨fut.settle st, by simp [hfut, hi], ?_, ?_⟩
      · rw [Future.settle_copyOf, hnone]
      · rcases Future.settle_state st fut with heq | heq
        · rwa [heq]
        · rw [heq]
          exact hown item hitem hi.symm
    · exact ⟨fut, by simp [hfut, hi], hnone, hstate⟩
  copies := by
    intro f source fut hf hsource
    obtain ⟨fut₀, hf₀, rfl⟩ := getElem?_settle hf
    by_cases hi : i = f
    · subst hi
      simp only [if_true] at hsource ⊢
      rw [Future.settle_copyOf] at hsource
      obtain ⟨item, hitem, hsrc, hstate⟩ := h.copies i source fut₀ hf₀ hsource
      refine ⟨item, hitem, hsrc, ?_⟩
      rcases Future.settle_state st fut₀ with heq | heq
      · rwa [heq]
      · rw [heq]
        exact hcopy fut₀ source hf₀ hsource item hitem hsrc
    · simp only [hi, if_false] at hsource ⊢
      exact h.copies f source fut₀ hf₀ hsource

/-- Settling the future of an item with a state the item may have. -/
theorem FuturesOk.settle_item {c : Client Req Resp Key} {s : State Req Resp Key Exc}
    {item : QueueItem Req Key} (h : FuturesOk c s) (hitem : item ∈ s.created) (st : FutureState Resp Exc)
    (hst : ItemState c item st) :
    FuturesOk c { s with futures := s.futures.modify item.future (Future.settle st) } := by
  refine h.settle ?_ ?_
  · intro item' hitem' heq
    rwa [h.distinct item' hitem' item hitem heq]
  · intro fut source hfut hsource
    -- the future of an item is no copy
    obtain ⟨fut', hfut', hnone, -⟩ := h.own item hitem
    rw [hfut] at hfut'
    cases hfut'
    rw [hnone] at hsource
    cases hsource

/-! ## New futures -/

theorem progress_addFuture (s : State Req Resp Key Exc) (fut : Future Resp Exc) :
    Progress s (s.addFuture fut) where
  created := fun _ h => h
  futures := by
    intro f fut' hf
    have hlt : f < s.futures.length := (List.getElem?_eq_some_iff.mp hf).1
    exact ⟨fut', by rw [State.addFuture, List.getElem?_append_left hlt, hf], rfl, fun _ => rfl⟩

theorem getElem?_addFuture (s : State Req Resp Key Exc) (fut : Future Resp Exc) :
    (s.addFuture fut).futures[s.futures.length]? = some fut := by
  simp [State.addFuture]

/-- A new future that copies nothing, or an item in a state the item may have. -/
theorem FuturesOk.addFuture {c : Client Req Resp Key} {s : State Req Resp Key Exc}
    (h : FuturesOk c s) (hcopy : ∀ source, fut.copyOf = some source →
      ∃ item ∈ s.created, item.future = source ∧ ItemState c item fut.state) :
    FuturesOk c (s.addFuture fut) where
  live := h.live
  distinct := h.distinct
  keyed := h.keyed
  own := by
    intro item hitem
    obtain ⟨own, hown, hrest⟩ := h.own item hitem
    have hlt : item.future < s.futures.length := (List.getElem?_eq_some_iff.mp hown).1
    exact ⟨own, by rw [State.addFuture, List.getElem?_append_left hlt, hown], hrest⟩
  copies := by
    intro f source fut' hf hsource
    by_cases hlt : f < s.futures.length
    · rw [State.addFuture, List.getElem?_append_left hlt] at hf
      exact h.copies f source fut' hf hsource
    · have hnew : fut' = fut := by
        rw [State.addFuture, List.getElem?_append_right (by omega)] at hf
        exact (List.mem_singleton.mp (List.mem_of_getElem? hf))
      rw [hnew] at hsource ⊢
      exact hcopy source hsource

theorem progress_addItem (s : State Req Resp Key Exc) (item : QueueItem Req Key) :
    Progress s (s.addItem item) :=
  ⟨fun _ h => List.mem_cons_of_mem _ h, (progress_addFuture s _).futures⟩

theorem FuturesOk.addItem {c : Client Req Resp Key} {s : State Req Resp Key Exc} {item : QueueItem Req Key}
    (h : FuturesOk c s) (hfuture : item.future = s.futures.length)
    (hkey : item.requestFingerprint = c.requestKey item.request) : FuturesOk c (s.addItem item) := by
  have hadd : FuturesOk c (s.addFuture ⟨.pending, none⟩) := h.addFuture (by simp)
  have hlt : ∀ other ∈ s.created, other.future < s.futures.length := by
    intro other hother
    obtain ⟨own, hown, -⟩ := h.own other hother
    exact (List.getElem?_eq_some_iff.mp hown).1
  refine ⟨fun other hother => List.mem_cons_of_mem _ (h.live other hother), ?_, ?_, ?_, ?_⟩
  · intro other hother
    rcases List.mem_cons.mp hother with rfl | hother
    · exact ⟨⟨.pending, none⟩, by rw [hfuture]; exact getElem?_addFuture s _, rfl, trivial⟩
    · exact hadd.own other hother
  · intro f source fut hf hsource
    obtain ⟨other, hother, hrest⟩ := hadd.copies f source fut hf hsource
    exact ⟨other, List.mem_cons_of_mem _ hother, hrest⟩
  · intro other hother other' hother' heq
    rcases List.mem_cons.mp hother with rfl | hold
    · rcases List.mem_cons.mp hother' with rfl | hold'
      · rfl
      · have hlt' := hlt other' hold'
        omega
    · rcases List.mem_cons.mp hother' with rfl | hold'
      · have hlt' := hlt other hold
        omega
      · exact h.distinct other hold other' hold' heq
  · intro other hother
    rcases List.mem_cons.mp hother with rfl | hold
    · exact hkey
    · exact h.keyed other hold

/-! ## The worker

Everything the worker does is put together from five moves: items between the queues, a registered failure, a
stored response, an answered future and a copied one. -/

/-- A cache entry that was there at the start, or that the provider gave for a request with its key. -/
def Honest (c : Client Req Resp Key) (initial : List (Key × Resp)) (entry : Key × Resp) : Prop :=
  entry ∈ initial ∨ ∃ request, c.requestKey request = some entry.1 ∧ c.respond request = some entry.2

/-- What a move of the worker keeps. -/
structure WorkerMove (c : Client Req Resp Key) (initial : List (Key × Resp))
    (s s' : State Req Resp Key Exc) : Prop where
  futuresOk : FuturesOk c s'
  progress : Progress s s'
  created_eq : s'.created = s.created
  threads_eq : s'.threads = s.threads
  outcomes_eq : s'.outcomes = s.outcomes
  honest : (∀ entry ∈ s.cache, Honest c initial entry) → ∀ entry ∈ s'.cache, Honest c initial entry

section

variable {c : Client Req Resp Key} {initial : List (Key × Resp)} {s s' s'' : State Req Resp Key Exc}

theorem WorkerMove.trans (h : WorkerMove c initial s s') (h' : WorkerMove c initial s' s'') :
    WorkerMove c initial s s'' :=
  ⟨h'.futuresOk, h.progress.trans h'.progress, h'.created_eq.trans h.created_eq,
    h'.threads_eq.trans h.threads_eq, h'.outcomes_eq.trans h.outcomes_eq, fun hc => h'.honest (h.honest hc)⟩

/-- Items may move between the queues, or leave them. -/
theorem WorkerMove.setQueues (h : FuturesOk c s) {q : Queues Req Key}
    (hq : ∀ item ∈ q.items, item ∈ s.created) : WorkerMove c initial s (s.setQueues q) :=
  ⟨⟨hq, h.own, h.copies, h.distinct, h.keyed⟩, Progress.of_eq rfl rfl, rfl, rfl, rfl, fun hc => hc⟩

variable {item : QueueItem Req Key}

/-- A failure registered for an item. -/
theorem WorkerMove.register (h : FuturesOk c s) (hitem : item ∈ s.created)
    (e : Exc) : WorkerMove c initial s (s.registerThreadException item e) := by
  have hf := h.settle_item hitem (.exception ⟨item.batchId, e⟩) rfl
  have hp := progress_settle s item.future (.exception ⟨item.batchId, e⟩)
  exact ⟨⟨hf.live, hf.own, hf.copies, hf.distinct, hf.keyed⟩, ⟨hp.created, hp.futures⟩, rfl, rfl, rfl,
    fun hc => hc⟩

/-- A response stored in the cache. -/
theorem WorkerMove.store (h : FuturesOk c s) (hitem : item ∈ s.created)
    (stored : Bool) : WorkerMove c initial s (s.storeResponse c item stored) := by
  have hself : WorkerMove c initial s s := ⟨h, Progress.refl s, rfl, rfl, rfl, fun hc => hc⟩
  unfold State.storeResponse
  split
  · rename_i response key hresponse hkey
    split
    · refine ⟨⟨h.live, h.own, h.copies, h.distinct, h.keyed⟩, Progress.of_eq rfl rfl, rfl, rfl, rfl, ?_⟩
      intro hc entry hentry
      rcases List.mem_cons.mp hentry with rfl | hentry
      · exact Or.inr ⟨item.request, by rw [← h.keyed item hitem, hkey], hresponse⟩
      · exact hc entry hentry
    · exact hself
  · exact hself

/-- The future of an item set to the provider's answer. -/
theorem WorkerMove.answer (h : FuturesOk c s) (hitem : item ∈ s.created)
    (stored : Bool) : WorkerMove c initial s (s.answer c item stored) := by
  have hstore : WorkerMove c initial s (s.storeResponse c item stored) := WorkerMove.store h hitem stored
  have hmem : item ∈ (s.storeResponse c item stored).created := hstore.created_eq ▸ hitem
  refine hstore.trans ⟨hstore.futuresOk.settle_item hmem _ rfl, progress_settle _ _ _, rfl, rfl, rfl, ?_⟩
  exact fun hc => hc

/-- The future of a duplicate set to the state of the one it copies. -/
theorem WorkerMove.copy (h : FuturesOk c s) {f source : Nat} {fut src : Future Resp Exc}
    (hf : s.futures[f]? = some fut) (hsource : fut.copyOf = some source)
    (hsrc : s.futures[source]? = some src) :
    WorkerMove c initial s { s with futures := s.futures.modify f (Future.settle src.state) } := by
  refine ⟨h.settle ?_ ?_, progress_settle _ _ _, rfl, rfl, rfl, fun hc => hc⟩
  · intro item hitem heq
    -- a copy is not the future of an item
    obtain ⟨fut', hfut', hnone, -⟩ := h.own item hitem
    rw [heq, hf] at hfut'
    cases hfut'
    rw [hnone] at hsource
    cases hsource
  · intro fut' source' hfut' hsource' item hitem heq
    rw [hf] at hfut'
    cases hfut'
    rw [hsource] at hsource'
    cases hsource'
    obtain ⟨own, hown, -, hstate⟩ := h.own item hitem
    rw [heq, hsrc] at hown
    cases hown
    exact hstate

/-! ### Membership in the queues -/

theorem Queues.mem_items {q : Queues Req Key} :
    item ∈ q.items ↔ item ∈ q.requestQueue ∨ item ∈ q.retryQueue ∨ item ∈ q.pendingRequests ∨
      item ∈ q.inflightRequests := by
  simp only [Queues.items, List.mem_append, or_assoc]

/-- An item of a queue was created. -/
theorem FuturesOk.created_of_live (h : FuturesOk c s)
    (hitem : item ∈ s.queues.requestQueue ∨ item ∈ s.queues.retryQueue ∨ item ∈ s.queues.pendingRequests ∨
      item ∈ s.queues.inflightRequests) : item ∈ s.created :=
  h.live item (Queues.mem_items.mpr hitem)

variable {i : Nat}

theorem FuturesOk.created_of_inflight (h : FuturesOk c s)
    (hi : s.queues.inflightRequests[i]? = some item) : item ∈ s.created :=
  h.created_of_live (Or.inr (Or.inr (Or.inr (List.mem_of_getElem? hi))))

theorem FuturesOk.created_of_pending (h : FuturesOk c s)
    (hi : s.queues.pendingRequests[i]? = some item) : item ∈ s.created :=
  h.created_of_live (Or.inr (Or.inr (Or.inl (List.mem_of_getElem? hi))))

/-- Taking an item out of the tasks in flight. -/
theorem WorkerMove.land (h : FuturesOk c s) (i : Nat) :
    WorkerMove c initial s (s.setQueues (s.queues.land i)) := by
  refine WorkerMove.setQueues h (fun item hitem => h.created_of_live ?_)
  rw [Queues.mem_items] at hitem
  exact hitem.imp_right (Or.imp_right (Or.imp_right List.mem_of_mem_eraseIdx))

/-- Putting it back into the retry queue. -/
theorem WorkerMove.retry (h : FuturesOk c s)
    (hi : s.queues.inflightRequests[i]? = some item) :
    WorkerMove c initial s
      (s.setQueues { s.queues.land i with retryQueue := s.queues.retryQueue ++ [item] }) := by
  refine WorkerMove.setQueues h (fun item' hitem' => ?_)
  rw [Queues.mem_items] at hitem'
  rcases hitem' with hm | hm | hm | hm
  · exact h.created_of_live (Or.inl hm)
  · rcases List.mem_append.mp hm with hm | hm
    · exact h.created_of_live (Or.inr (Or.inl hm))
    · rw [List.mem_singleton.mp hm]
      exact h.created_of_inflight hi
  · exact h.created_of_live (Or.inr (Or.inr (Or.inl hm)))
  · exact h.created_of_live (Or.inr (Or.inr (Or.inr (List.mem_of_mem_eraseIdx hm))))

/-- The worker takes what the queues offer. -/
theorem WorkerMove.getQueued (h : FuturesOk c s) (retry request : Bool) :
    WorkerMove c initial s (s.setQueues
      { s.queues with
        retryQueue := if retry then s.queues.retryQueue.drop 1 else s.queues.retryQueue
        requestQueue := if request then s.queues.requestQueue.drop 1 else s.queues.requestQueue
        pendingRequests := (if retry then s.queues.retryQueue.take 1 else [])
          ++ (if request then s.queues.requestQueue.take 1 else []) }) := by
  refine WorkerMove.setQueues h (fun item hitem => ?_)
  rw [Queues.mem_items] at hitem
  rcases hitem with hm | hm | hm | hm
  · refine h.created_of_live (Or.inl ?_)
    cases request with
    | true => exact List.mem_of_mem_drop hm
    | false => exact hm
  · refine h.created_of_live (Or.inr (Or.inl ?_))
    cases retry with
    | true => exact List.mem_of_mem_drop hm
    | false => exact hm
  · rcases List.mem_append.mp hm with hm | hm
    · cases retry with
      | true => exact h.created_of_live (Or.inr (Or.inl (List.mem_of_mem_take hm)))
      | false => cases hm
    · cases request with
      | true => exact h.created_of_live (Or.inl (List.mem_of_mem_take hm))
      | false => cases hm
  · exact h.created_of_live (Or.inr (Or.inr (Or.inr hm)))

/-- A pending item becomes a task. -/
theorem WorkerMove.dispatch (h : FuturesOk c s)
    (hi : s.queues.pendingRequests[i]? = some item) :
    WorkerMove c initial s (s.setQueues
      { s.queues with
        pendingRequests := s.queues.pendingRequests.eraseIdx i
        inflightRequests := item :: s.queues.inflightRequests }) := by
  refine WorkerMove.setQueues h (fun item' hitem' => ?_)
  rw [Queues.mem_items] at hitem'
  rcases hitem' with hm | hm | hm | hm
  · exact h.created_of_live (Or.inl hm)
  · exact h.created_of_live (Or.inr (Or.inl hm))
  · exact h.created_of_live (Or.inr (Or.inr (Or.inl (List.mem_of_mem_eraseIdx hm))))
  · rcases List.mem_cons.mp hm with rfl | hm
    · exact h.created_of_pending hi
    · exact h.created_of_live (Or.inr (Or.inr (Or.inr hm)))

/-- A failure registered after the item's queues changed. -/
theorem WorkerMove.registerAfter (hmove : WorkerMove c initial s s')
    (hitem : item ∈ s.created) (e : Exc) : WorkerMove c initial s (s'.registerThreadException item e) :=
  hmove.trans (WorkerMove.register hmove.futuresOk (hmove.created_eq ▸ hitem) e)

end

/-- **Every step of the worker is made of such moves.** -/
theorem workerStep_move [DecidableEq Key] {c : Client Req Resp Key} {initial : List (Key × Resp)}
    {s s' : State Req Resp Key Exc} {a : Action Req Key Exc} (h : FuturesOk c s) (hstep : workerStep c s a = some s') :
    WorkerMove c initial s s' := by
  cases a with
  | getQueued retry request =>
    simp only [workerStep] at hstep
    split at hstep
    · cases hstep
      exact WorkerMove.getQueued h retry request
    · cases hstep
  | dispatch i =>
    obtain ⟨item, hi, rfl⟩ := Option.map_eq_some_iff.mp hstep
    exact WorkerMove.dispatch h hi
  | failPending i e =>
    obtain ⟨item, hi, rfl⟩ := Option.map_eq_some_iff.mp hstep
    refine WorkerMove.registerAfter (WorkerMove.setQueues h (fun item' hitem' => ?_))
      (h.created_of_pending hi) e
    rw [Queues.mem_items] at hitem'
    exact h.created_of_live
      (hitem'.imp_right (Or.imp_right (Or.imp_left List.mem_of_mem_eraseIdx)))
  | failDispatched i e =>
    obtain ⟨item, hi, rfl⟩ := Option.map_eq_some_iff.mp hstep
    exact WorkerMove.register h (h.created_of_inflight hi) e
  | drainRequest e =>
    obtain ⟨item, hi, rfl⟩ := Option.map_eq_some_iff.mp hstep
    refine WorkerMove.registerAfter (WorkerMove.setQueues h (fun item' hitem' => ?_))
      (h.created_of_live (Or.inl (List.mem_of_getElem? hi))) e
    rw [Queues.mem_items] at hitem'
    exact h.created_of_live (hitem'.imp_left List.mem_of_mem_drop)
  | drainRetry e =>
    obtain ⟨item, hi, rfl⟩ := Option.map_eq_some_iff.mp hstep
    refine WorkerMove.registerAfter (WorkerMove.setQueues h (fun item' hitem' => ?_))
      (h.created_of_live (Or.inr (Or.inl (List.mem_of_getElem? hi)))) e
    rw [Queues.mem_items] at hitem'
    exact h.created_of_live (hitem'.imp_right (Or.imp_left List.mem_of_mem_drop))
  | timeout i =>
    obtain ⟨item, hi, rfl⟩ := Option.map_eq_some_iff.mp hstep
    exact WorkerMove.retry h hi
  | transient i e =>
    obtain ⟨item, hi, rfl⟩ := Option.map_eq_some_iff.mp hstep
    split
    · exact WorkerMove.registerAfter (WorkerMove.land h i) (h.created_of_inflight hi) e
    · exact WorkerMove.retry h hi
  | fatal i e =>
    obtain ⟨item, hi, rfl⟩ := Option.map_eq_some_iff.mp hstep
    exact WorkerMove.registerAfter (WorkerMove.land h i) (h.created_of_inflight hi) e
  | succeed i stored =>
    obtain ⟨item, hi, rfl⟩ := Option.map_eq_some_iff.mp hstep
    have hland : WorkerMove c initial s _ := WorkerMove.land h i
    exact hland.trans (WorkerMove.answer hland.futuresOk (h.created_of_inflight hi) stored)
  | succeedThenFail i stored e =>
    obtain ⟨item, hi, rfl⟩ := Option.map_eq_some_iff.mp hstep
    have hland : WorkerMove c initial s _ := WorkerMove.land h i
    exact (hland.trans (WorkerMove.store hland.futuresOk (h.created_of_inflight hi) stored)).registerAfter
      (h.created_of_inflight hi) e
  | callback f =>
    simp only [workerStep] at hstep
    split at hstep
    · rename_i source hf
      obtain ⟨src, hsrc, rfl⟩ := Option.map_eq_some_iff.mp hstep
      exact WorkerMove.copy h hf rfl hsrc
    · cases hstep
  | backoff =>
    cases hstep
    exact ⟨⟨h.live, h.own, h.copies, h.distinct, h.keyed⟩, Progress.of_eq rfl rfl, rfl, rfl, rfl,
      fun hc => hc⟩
  | _ => cases hstep

end ModelClient

end Fenic
