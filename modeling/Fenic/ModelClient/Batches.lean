import Fenic.ModelClient.Invariant

/-!
# `ModelClient.Batches` — every batch gets its own responses

## Contents
- **Slots.** `Slot` says what the future at one position of a batch is; `SubmissionOk` that all futures made so
  far are the right ones, and that the items of the batch carry different, uncached keys.
- **The invariant.** `Inv` adds the threads and the outcomes to `FuturesOk`; `step_inv` keeps it.
- **The main result.** `returned_expected`: whatever the interleaving, a batch that returns gives every
  position what `expected` says, and made at most one item for each uncached key.
-/

namespace Fenic

namespace ModelClient

variable {Req Resp Key Exc : Type} [DecidableEq Key]

/-! ## Slots -/

/-- The future `f` belongs to a position with the given request. -/
def Slot (c : Client Req Resp Key) (s : State Req Resp Key Exc) (sub : Submission Req Resp Key) (f : Nat) :
    Option Nat → Prop
  | none => s.futures[f]? = some ⟨.result none, none⟩
  | some ref =>
    match cachedResponse c sub.cached (sub.batch.object ref) with
    | some response => s.futures[f]? = some ⟨.result (some response), none⟩
    | none =>
      ∃ item ∈ s.created, item.batchId = sub.batch.id ∧
        (∃ lead, leader c sub.batch (dedupKey c sub.batch ref) = some lead ∧
          item.request = sub.batch.object lead) ∧
        ∃ fut : Future Resp Exc, s.futures[f]? = some fut ∧ (f = item.future ∨ fut.copyOf = some item.future)

/-- What the local variables of a running batch satisfy. -/
structure SubmissionOk (c : Client Req Resp Key) (initial : List (Key × Resp)) (s : State Req Resp Key Exc)
    (sub : Submission Req Resp Key) : Prop where
  length_le : sub.futures.length ≤ sub.batch.requests.length
  slots : ∀ (i f : Nat) (request : Option Nat), sub.futures[i]? = some f →
    sub.batch.requests[i]? = some request → Slot c s sub f request
  seen : ∀ (i ref : Nat), i < sub.futures.length → sub.batch.requests[i]? = some (some ref) →
    cachedResponse c sub.cached (sub.batch.object ref) = none →
      dedupKey c sub.batch ref ∈ sub.unique.map Prod.fst
  unique : ∀ entry ∈ sub.unique, ∃ item ∈ s.created, item.future = entry.2 ∧ item.batchId = sub.batch.id ∧
    ∃ lead, leader c sub.batch entry.1 = some lead ∧ item.request = sub.batch.object lead
  itemKeys : (sub.items.filterMap QueueItem.requestFingerprint).Nodup
  known : ∀ key ∈ sub.items.filterMap QueueItem.requestFingerprint,
    .inl key ∈ sub.unique.map Prod.fst ∧ sub.cached.lookup key = none
  honest : ∀ entry ∈ sub.cached, Honest c initial entry

/-- A slot stays one. -/
theorem Slot.mono {c : Client Req Resp Key} {s s' : State Req Resp Key Exc} {sub : Submission Req Resp Key}
    {f : Nat} {request : Option Nat} (hp : Progress s s') (h : Slot c s sub f request) :
    Slot c s' sub f request := by
  have hdone : ∀ st : FutureState Resp Exc, st ≠ .pending → s.futures[f]? = some ⟨st, none⟩ →
      s'.futures[f]? = some ⟨st, none⟩ := by
    intro st hst hf
    obtain ⟨fut', hf', -, hsame⟩ := hp.futures f _ hf
    rw [hf', hsame hst]
  cases request with
  | none => exact hdone _ (by simp) h
  | some ref =>
    unfold Slot at h ⊢
    cases hcached : cachedResponse c sub.cached (sub.batch.object ref) with
    | some response =>
      simp only [hcached] at h ⊢
      exact hdone _ (by simp) h
    | none =>
      simp only [hcached] at h ⊢
      obtain ⟨item, hitem, hbatch, hlead, fut, hf, hsource⟩ := h
      obtain ⟨fut', hf', hcopy, -⟩ := hp.futures f fut hf
      exact ⟨item, hp.created item hitem, hbatch, hlead, fut', hf', by rwa [hcopy]⟩

/-- So the invariant of a running batch survives what others do. -/
theorem SubmissionOk.mono {c : Client Req Resp Key} {initial : List (Key × Resp)}
    {s s' : State Req Resp Key Exc} {sub : Submission Req Resp Key} (hp : Progress s s')
    (h : SubmissionOk c initial s sub) : SubmissionOk c initial s' sub where
  length_le := h.length_le
  slots := fun i f request hi hr => (h.slots i f request hi hr).mono hp
  seen := h.seen
  unique := by
    intro entry hentry
    obtain ⟨item, hitem, hrest⟩ := h.unique entry hentry
    exact ⟨item, hp.created item hitem, hrest⟩
  itemKeys := h.itemKeys
  known := h.known
  honest := h.honest

/-- A done slot holds the expected response or a failure of the batch itself. -/
theorem Slot.state {c : Client Req Resp Key} {s : State Req Resp Key Exc} {sub : Submission Req Resp Key}
    {f : Nat} {request : Option Nat} {fut : Future Resp Exc} (hok : FuturesOk c s)
    (h : Slot c s sub f request) (hf : s.futures[f]? = some fut) :
    (∀ response, fut.state = .result response → response = expected c sub.batch sub.cached request) ∧
      ∀ failure, fut.state = .exception failure → failure.batchId = sub.batch.id := by
  cases request with
  | none =>
    have hfut : fut = ⟨.result none, none⟩ := Option.some.inj (hf.symm.trans h)
    subst hfut
    refine ⟨?_, by simp⟩
    rintro response ⟨⟩
    rfl
  | some ref =>
    unfold Slot at h
    unfold expected
    cases hcached : cachedResponse c sub.cached (sub.batch.object ref) with
    | some cached =>
      simp only [hcached] at h ⊢
      have hfut : fut = ⟨.result (some cached), none⟩ := Option.some.inj (hf.symm.trans h)
      subst hfut
      refine ⟨?_, by simp⟩
      rintro response ⟨⟩
      rfl
    | none =>
      simp only [hcached] at h ⊢
      obtain ⟨item, hitem, hbatch, ⟨lead, hlead, hrequest⟩, fut', hf', hsource⟩ := h
      have hfut : fut' = fut := Option.some.inj (hf'.symm.trans hf)
      subst hfut
      have hstate : ItemState c item fut'.state := by
        rcases hsource with rfl | hcopy
        · obtain ⟨own, hown, -, hstate⟩ := hok.own item hitem
          rwa [Option.some.inj (hf.symm.trans hown)]
        · obtain ⟨item', hitem', hfuture, hstate⟩ := hok.copies f _ fut' hf hcopy
          rwa [hok.distinct item hitem item' hitem' hfuture.symm]
      refine ⟨fun response heq => ?_, fun failure heq => ?_⟩
      · rw [heq] at hstate
        rw [hlead, Option.bind_some, ← hrequest]
        exact hstate
      · rw [heq] at hstate
        rw [← hbatch]
        exact hstate

/-! ## The first request with a key -/

/-- The request at the next position is the first with its key when no earlier one has it. -/
theorem leader_eq {c : Client Req Resp Key} {b : Batch Req} {n ref : Nat}
    (hn : b.requests[n]? = some (some ref))
    (hfirst : ∀ i ref', i < n → b.requests[i]? = some (some ref') → dedupKey c b ref' ≠ dedupKey c b ref) :
    leader c b (dedupKey c b ref) = some ref := by
  obtain ⟨hlt, hget⟩ := List.getElem?_eq_some_iff.mp hn
  have hsplit : b.requests = b.requests.take n ++ some ref :: b.requests.drop (n + 1) := by
    rw [← hget, ← List.drop_eq_getElem_cons hlt, List.take_append_drop]
  unfold leader
  rw [hsplit, List.filterMap_append, List.find?_append]
  have hnone : ((b.requests.take n).filterMap id).find?
      (fun ref' => decide (dedupKey c b ref' = dedupKey c b ref)) = none := by
    rw [List.find?_eq_none]
    intro ref' hmem
    obtain ⟨request, hrequest, hid⟩ := List.mem_filterMap.mp hmem
    obtain ⟨i, hi, hi'⟩ := List.mem_take_iff_getElem.mp hrequest
    have hne := hfirst i ref' (by omega) (by
      rw [List.getElem?_eq_getElem (by omega), hi']
      exact congrArg some hid)
    simpa using hne
  rw [hnone]
  simp

/-- Requests with one key are cached or not together. -/
theorem cachedResponse_of_dedupKey_eq {c : Client Req Resp Key} {b : Batch Req}
    {cached : List (Key × Resp)} {ref ref' : Nat} (h : dedupKey c b ref = dedupKey c b ref') :
    cachedResponse c cached (b.object ref) = cachedResponse c cached (b.object ref') := by
  unfold dedupKey at h
  unfold cachedResponse
  cases hk : c.requestKey (b.object ref) with
  | none =>
    rw [hk] at h
    cases hk' : c.requestKey (b.object ref') with
    | none => rfl
    | some key =>
      rw [hk'] at h
      cases h
  | some key =>
    rw [hk] at h
    cases hk' : c.requestKey (b.object ref') with
    | none =>
      rw [hk'] at h
      cases h
    | some key' =>
      rw [hk'] at h
      cases h
      rfl

/-! ## One more position -/

section

variable {c : Client Req Resp Key} {initial : List (Key × Resp)} {s : State Req Resp Key Exc}
  {sub : Submission Req Resp Key}

/-- The future of the next position. -/
theorem SubmissionOk.extend {f : Nat} {request : Option Nat} (h : SubmissionOk c initial s sub)
    (hnext : sub.batch.requests[sub.futures.length]? = some request) (hslot : Slot c s sub f request)
    (hseen : ∀ ref, request = some ref → cachedResponse c sub.cached (sub.batch.object ref) = none →
      dedupKey c sub.batch ref ∈ sub.unique.map Prod.fst) :
    SubmissionOk c initial s { sub with futures := sub.futures ++ [f] } where
  length_le := by
    have hlt : sub.futures.length < sub.batch.requests.length := (List.getElem?_eq_some_iff.mp hnext).1
    simp only [List.length_append, List.length_singleton]
    omega
  slots := by
    intro i f' request' hi hr
    by_cases hlt : i < sub.futures.length
    · rw [List.getElem?_append_left hlt] at hi
      exact h.slots i f' request' hi hr
    · rw [List.getElem?_append_right (by omega)] at hi
      obtain ⟨hi0, hf'⟩ := List.getElem?_eq_some_iff.mp hi
      have heq : i = sub.futures.length := by
        simp only [List.length_singleton] at hi0
        omega
      subst heq
      rw [hnext] at hr
      cases hr
      simp only [Nat.sub_self, List.getElem_cons_zero] at hf'
      rw [← hf']
      exact hslot
  seen := by
    intro i ref hi hr hcached
    by_cases hlt : i < sub.futures.length
    · exact h.seen i ref hlt hr hcached
    · have heq : i = sub.futures.length := by
        simp only [List.length_append, List.length_singleton] at hi
        omega
      rw [heq, hnext] at hr
      cases hr
      exact hseen ref rfl hcached
  unique := h.unique
  itemKeys := h.itemKeys
  known := h.known
  honest := h.honest

/-- The first request with its key gets an item of its own. -/
theorem SubmissionOk.newItem {ref : Nat} {item : QueueItem Req Key} (h : SubmissionOk c initial s sub)
    (hitem : item ∈ s.created) (hnext : sub.batch.requests[sub.futures.length]? = some (some ref))
    (hcached : cachedResponse c sub.cached (sub.batch.object ref) = none)
    (hnew : dedupKey c sub.batch ref ∉ sub.unique.map Prod.fst) (hbatch : item.batchId = sub.batch.id)
    (hrequest : item.request = sub.batch.object ref)
    (hfingerprint : item.requestFingerprint = c.requestKey (sub.batch.object ref)) :
    leader c sub.batch (dedupKey c sub.batch ref) = some ref ∧
      SubmissionOk c initial s
        { sub with
          unique := (dedupKey c sub.batch ref, item.future) :: sub.unique
          items := item :: sub.items } := by
  have hlead : leader c sub.batch (dedupKey c sub.batch ref) = some ref := by
    refine leader_eq hnext (fun i ref' hi hr heq => ?_)
    -- an earlier request with the same key is not cached either, so its key would be known
    have hcached' : cachedResponse c sub.cached (sub.batch.object ref') = none := by
      rw [cachedResponse_of_dedupKey_eq heq, hcached]
    exact hnew (heq ▸ h.seen i ref' hi hr hcached')
  refine ⟨hlead, h.length_le, h.slots, ?_, ?_, ?_, ?_, h.honest⟩
  · intro i ref' hi hr hc
    exact List.mem_cons_of_mem _ (h.seen i ref' hi hr hc)
  · intro entry hentry
    rcases List.mem_cons.mp hentry with rfl | hentry
    · exact ⟨item, hitem, rfl, hbatch, ref, hlead, hrequest⟩
    · exact h.unique entry hentry
  · cases hkey : item.requestFingerprint with
    | none => simpa [List.filterMap_cons, hkey] using h.itemKeys
    | some key =>
      simp only [List.filterMap_cons, hkey, List.nodup_cons]
      refine ⟨fun hmem => hnew ?_, h.itemKeys⟩
      have hdedup : dedupKey c sub.batch ref = .inl key := by
        rw [dedupKey, ← hfingerprint, hkey]
      rw [hdedup]
      exact (h.known key hmem).1
  · intro key hmem
    rw [List.filterMap_cons] at hmem
    have hold : ∀ k ∈ sub.items.filterMap QueueItem.requestFingerprint,
        .inl k ∈ ((dedupKey c sub.batch ref, item.future) :: sub.unique).map Prod.fst ∧
          sub.cached.lookup k = none :=
      fun k hk => ⟨List.mem_cons_of_mem _ (h.known k hk).1, (h.known k hk).2⟩
    cases hkey : item.requestFingerprint with
    | none =>
      rw [hkey] at hmem
      exact hold key hmem
    | some k =>
      rw [hkey] at hmem
      rcases List.mem_cons.mp hmem with rfl | hmem
      · rw [hkey] at hfingerprint
        refine ⟨?_, ?_⟩
        · simp [dedupKey, ← hfingerprint]
        · simpa [cachedResponse, ← hfingerprint] using hcached
      · exact hold key hmem

end

/-! ## The invariant -/

/-- What holds of a thread in a given phase. -/
def PhaseOk (c : Client Req Resp Key) (initial : List (Key × Resp)) (s : State Req Resp Key Exc) :
    Phase Req Resp Key → Prop
  | .idle => True
  | .submitting sub _ => SubmissionOk c initial s sub
  | .enqueuing sub item => SubmissionOk c initial s sub ∧ item ∈ s.created
  | .collecting sub responses =>
    SubmissionOk c initial s sub ∧ sub.futures.length = sub.batch.requests.length ∧
      responses = (sub.batch.requests.map (expected c sub.batch sub.cached)).take responses.length

/-- **What a batch that returned is owed.** -/
structure Served (c : Client Req Resp Key) (initial : List (Key × Resp)) (sub : Submission Req Resp Key)
    (responses : List (Option Resp)) : Prop where
  responses_eq : responses = sub.batch.requests.map (expected c sub.batch sub.cached)
  itemKeys : (sub.items.filterMap QueueItem.requestFingerprint).Nodup
  uncached : ∀ key ∈ sub.items.filterMap QueueItem.requestFingerprint, sub.cached.lookup key = none
  honest : ∀ entry ∈ sub.cached, Honest c initial entry

/-- The invariant of the system. -/
structure Inv (c : Client Req Resp Key) (initial : List (Key × Resp)) (s : State Req Resp Key Exc) : Prop where
  futuresOk : FuturesOk c s
  phases : ∀ t, PhaseOk c initial s (s.threads t)
  honest : ∀ entry ∈ s.cache, Honest c initial entry
  served : ∀ t sub responses, Outcome.returned t sub responses ∈ s.outcomes → Served c initial sub responses

theorem init_inv (c : Client Req Resp Key) (initial : List (Key × Resp)) :
    Inv c initial (init initial : State Req Resp Key Exc) := by
  refine ⟨⟨?_, ?_, ?_, ?_, ?_⟩, fun _ => trivial, fun entry hentry => Or.inl hentry, ?_⟩
  · intro item hitem
    cases hitem
  · intro item hitem
    cases hitem
  · intro f source fut hf
    simp [init] at hf
  · intro item hitem
    cases hitem
  · intro item hitem
    cases hitem
  · intro t sub responses hmem
    cases hmem

section

variable {c : Client Req Resp Key} {initial : List (Key × Resp)} {s s' : State Req Resp Key Exc} {t : Nat}

variable {phase : Phase Req Resp Key}

theorem PhaseOk.mono (hp : Progress s s') (h : PhaseOk c initial s phase) :
    PhaseOk c initial s' phase := by
  cases phase with
  | idle => trivial
  | submitting sub checked => exact SubmissionOk.mono hp h
  | enqueuing sub item => exact ⟨h.1.mono hp, hp.created item h.2⟩
  | collecting sub responses => exact ⟨h.1.mono hp, h.2⟩

/-- The invariant after a change that leaves the threads and the outcomes alone. -/
theorem Inv.of_progress (h : Inv c initial s) (hok : FuturesOk c s') (hp : Progress s s')
    (hthreads : s'.threads = s.threads) (houtcomes : s'.outcomes = s.outcomes)
    (hcache : ∀ entry ∈ s'.cache, Honest c initial entry) : Inv c initial s' where
  futuresOk := hok
  phases := fun t => by
    rw [hthreads]
    exact (h.phases t).mono hp
  honest := hcache
  served := by
    rw [houtcomes]
    exact h.served

/-- A thread moves on. -/
theorem Inv.goto (h : Inv c initial s) (hphase : PhaseOk c initial s phase) :
    Inv c initial (s.goto t phase) where
  futuresOk := ⟨h.futuresOk.live, h.futuresOk.own, h.futuresOk.copies, h.futuresOk.distinct, h.futuresOk.keyed⟩
  phases := by
    intro t'
    have hp : Progress s (s.goto t phase) := Progress.of_eq rfl rfl
    by_cases ht : t' = t
    · subst ht
      simp only [State.goto, Function.update_self]
      exact hphase.mono hp
    · simp only [State.goto, Function.update_of_ne ht]
      exact (h.phases t').mono hp
  honest := h.honest
  served := h.served

/-- A batch ends. -/
theorem Inv.conclude (h : Inv c initial s) {o : Outcome Req Resp Key Exc}
    (ho : ∀ t' sub responses, o = .returned t' sub responses → Served c initial sub responses) :
    Inv c initial (s.conclude t o) := by
  have hidle : Inv c initial (s.goto t .idle) := h.goto trivial
  refine ⟨⟨hidle.futuresOk.live, hidle.futuresOk.own, hidle.futuresOk.copies, hidle.futuresOk.distinct,
    hidle.futuresOk.keyed⟩, fun t' => ?_, h.honest, ?_⟩
  · have hp : Progress (s.goto t .idle) (s.conclude t o) := Progress.of_eq rfl rfl
    exact (hidle.phases t').mono hp
  · intro t' sub responses hmem
    rcases List.mem_cons.mp hmem with heq | hmem
    · exact ho t' sub responses heq.symm
    · exact h.served t' sub responses hmem

/-- A done future appended for the next position. -/
theorem Inv.submitDone (h : Inv c initial s) {sub : Submission Req Resp Key} {request : Option Nat}
    {fut : Future Resp Exc} (hsub : SubmissionOk c initial s sub)
    (hnext : sub.batch.requests[sub.futures.length]? = some request)
    (hok : FuturesOk c (s.addFuture fut)) (hslot : Slot c (s.addFuture fut) sub s.futures.length request)
    (hseen : ∀ ref, request = some ref → cachedResponse c sub.cached (sub.batch.object ref) = none →
      dedupKey c sub.batch ref ∈ sub.unique.map Prod.fst) :
    Inv c initial ((s.addFuture fut).goto t
      (.submitting { sub with futures := sub.futures ++ [s.futures.length] } false)) := by
  have hp := progress_addFuture s fut
  have hadd : Inv c initial (s.addFuture fut) := h.of_progress hok hp rfl rfl h.honest
  exact hadd.goto ((hsub.mono hp).extend hnext hslot hseen)

/-- **The body of the submission loop keeps the invariant.** -/
theorem submitRequest_inv (h : Inv c initial s) {sub : Submission Req Resp Key} {request : Option Nat}
    (hsub : SubmissionOk c initial s sub)
    (hnext : sub.batch.requests[sub.futures.length]? = some request) :
    Inv c initial (submitRequest c s t sub request) := by
  cases request with
  | none =>
    refine h.submitDone hsub hnext (h.futuresOk.addFuture (by simp)) ?_ (by simp)
    exact getElem?_addFuture s _
  | some ref =>
    unfold submitRequest
    cases hcached : cachedResponse c sub.cached (sub.batch.object ref) with
    | some response =>
      simp only [hcached]
      refine h.submitDone hsub hnext (h.futuresOk.addFuture (by simp)) ?_ ?_
      · simp only [Slot, hcached]
        exact getElem?_addFuture s _
      · rintro ref' ⟨⟩ hnone
        rw [hcached] at hnone
        cases hnone
    | none =>
      simp only [hcached]
      cases hlookup : sub.uniqueFuture? (dedupKey c sub.batch ref) with
      | some f =>
        have hentry := Submission.mem_of_uniqueFuture? hlookup
        obtain ⟨item, hitem, hfuture, hbatch, hlead⟩ := hsub.unique _ hentry
        obtain ⟨own, hown, -, hstate⟩ := h.futuresOk.own item hitem
        simp only at hfuture hlead
        have hst : ((s.futures[f]?).map Future.state).getD .pending = own.state := by
          rw [← hfuture, hown]
          rfl
        simp only [hst]
        refine h.submitDone hsub hnext (h.futuresOk.addFuture ?_) ?_ ?_
        · rintro source ⟨⟩
          exact ⟨item, hitem, hfuture, hstate⟩
        · simp only [Slot, hcached]
          exact ⟨item, hitem, hbatch, hlead, _, getElem?_addFuture s _, Or.inr (congrArg some hfuture.symm)⟩
        · rintro ref' ⟨⟩ -
          exact List.mem_map_of_mem hentry
      | none =>
        have hnew := Submission.not_mem_of_uniqueFuture? hlookup
        generalize hitemeq : (⟨t, sub.batch.object ref, s.futures.length, sub.batch.id,
          c.requestKey (sub.batch.object ref)⟩ : QueueItem Req Key) = item
        have hfuture : item.future = s.futures.length := by rw [← hitemeq]
        have hok : FuturesOk c (s.addItem item) :=
          h.futuresOk.addItem hfuture (by rw [← hitemeq])
        have hp : Progress s (s.addItem item) := progress_addItem s item
        have hitem : item ∈ (s.addItem item).created := List.mem_cons_self
        have hadd : Inv c initial (s.addItem item) := h.of_progress hok hp rfl rfl h.honest
        obtain ⟨hlead, hsub'⟩ := (hsub.mono hp).newItem hitem hnext hcached hnew
          (by rw [← hitemeq]) (by rw [← hitemeq]) (by rw [← hitemeq])
        rw [hfuture] at hsub'
        refine hadd.goto ⟨hsub'.extend hnext ?_ ?_, hitem⟩
        · simp only [Slot, hcached]
          exact ⟨item, hitem, by rw [← hitemeq], ⟨ref, hlead, by rw [← hitemeq]⟩, ⟨.pending, none⟩,
            getElem?_addFuture s _, Or.inl hfuture.symm⟩
        · rintro ref' ⟨⟩ -
          exact List.mem_cons_self

/-- A batch starts. -/
theorem startBatch_inv (h : Inv c initial s) (batch : Batch Req) (visible : Key → Bool) :
    Inv c initial (startBatch c s t batch visible) := by
  have hcached : ∀ entry ∈ (if c.caches then s.cache.filter (fun entry => visible entry.1) else []),
      Honest c initial entry := by
    intro entry hentry
    split at hentry
    · exact h.honest entry (List.mem_filter.mp hentry).1
    · cases hentry
  have hsub : SubmissionOk c initial s ⟨batch, if c.caches then s.cache.filter (fun entry => visible entry.1)
      else [], [], [], []⟩ := by
    refine ⟨Nat.zero_le _, ?_, ?_, ?_, List.nodup_nil, ?_, hcached⟩
    · intro i f request hi
      simp at hi
    · intro i ref hi
      cases hi
    · intro entry hentry
      cases hentry
    · intro key hkey
      cases hkey
  have hgoto : Inv c initial (s.goto t (.submitting _ false)) := h.goto hsub
  exact hgoto.of_progress
    ⟨hgoto.futuresOk.live, hgoto.futuresOk.own, hgoto.futuresOk.copies, hgoto.futuresOk.distinct,
      hgoto.futuresOk.keyed⟩ (Progress.of_eq rfl rfl) rfl rfl h.honest

/-- An item enters the request queue. -/
theorem enqueue_inv (h : Inv c initial s) {item : QueueItem Req Key} (hitem : item ∈ s.created) :
    Inv c initial (s.setQueues { s.queues with requestQueue := s.queues.requestQueue ++ [item] }) := by
  have hmove : WorkerMove c initial s
      (s.setQueues { s.queues with requestQueue := s.queues.requestQueue ++ [item] }) := by
    refine WorkerMove.setQueues h.futuresOk (fun item' hitem' => ?_)
    rw [Queues.mem_items] at hitem'
    rcases hitem' with hm | hm
    · rcases List.mem_append.mp hm with hm | hm
      · exact h.futuresOk.created_of_live (Or.inl hm)
      · rwa [List.mem_singleton.mp hm]
    · exact h.futuresOk.created_of_live (Or.inr hm)
  exact h.of_progress hmove.futuresOk hmove.progress rfl rfl (hmove.honest h.honest)

/-- One more response is collected: it is the expected one. -/
theorem collect_phaseOk (h : Inv c initial s) {sub : Submission Req Resp Key}
    {responses : List (Option Resp)} {f : Nat} {fut : Future Resp Exc}
    (hphase : PhaseOk c initial s (.collecting sub responses))
    (hnext : sub.futures[responses.length]? = some f) (hfut : s.futures[f]? = some fut) :
    (∀ response, fut.state = .result response →
      PhaseOk c initial s (.collecting sub (responses ++ [response]))) ∧
      ∀ failure, fut.state = .exception failure → failure.batchId = sub.batch.id := by
  obtain ⟨hsub, hlength, hresponses⟩ := hphase
  obtain ⟨hlt, -⟩ := List.getElem?_eq_some_iff.mp hnext
  have hlt' : responses.length < sub.batch.requests.length := by omega
  have hrequest := List.getElem?_eq_getElem hlt'
  obtain ⟨hresult, hfailure⟩ := (hsub.slots _ f _ hnext hrequest).state h.futuresOk hfut
  refine ⟨fun response hstate => ⟨hsub, hlength, ?_⟩, hfailure⟩
  have hexpected := hresult response hstate
  have hlt'' : responses.length < (sub.batch.requests.map (expected c sub.batch sub.cached)).length := by
    rwa [List.length_map]
  rw [List.length_append, List.length_singleton, ← List.take_append_getElem hlt'', ← hresponses,
    List.getElem_map, hexpected]

/-- A batch returns what it collected. -/
theorem finish_served {sub : Submission Req Resp Key} {responses : List (Option Resp)}
    (hphase : PhaseOk c initial s (.collecting sub responses))
    (hdone : responses.length = sub.futures.length) : Served c initial sub responses := by
  obtain ⟨hsub, hlength, hresponses⟩ := hphase
  refine ⟨?_, hsub.itemKeys, fun key hkey => (hsub.known key hkey).2, hsub.honest⟩
  rw [List.take_of_length_le (by simp [hdone, hlength])] at hresponses
  exact hresponses

/-- **Every step of a thread keeps the invariant.** -/
theorem threadStep_inv {a : Action Req Key Exc} (h : Inv c initial s)
    (hphase : PhaseOk c initial s phase) (hstep : threadStep c s t phase a = some s') :
    Inv c initial s' := by
  unfold threadStep at hstep
  split at hstep
  · -- start
    split at hstep
    · cases hstep
    · cases hstep
      exact startBatch_inv h _ _
  · -- check
    split at hstep
    · split at hstep
      · cases hstep
        exact h.conclude (by simp)
      · cases hstep
        exact h.goto hphase
    · cases hstep
  · -- submit
    obtain ⟨request, hnext, rfl⟩ := Option.map_eq_some_iff.mp hstep
    exact submitRequest_inv h hphase hnext
  · -- enqueue
    split at hstep
    · cases hstep
      obtain ⟨hsub, hitem⟩ := hphase
      have hp : ∀ q, Progress s (s.setQueues q) := fun q => Progress.of_eq rfl rfl
      exact (enqueue_inv h hitem).goto (hsub.mono (hp _))
    · cases hstep
  · -- submitted
    split at hstep
    · rename_i hlength
      cases hstep
      exact h.goto ⟨hphase, hlength, by simp⟩
    · cases hstep
  · -- collect
    split at hstep
    · rename_i response copyOf hbind
      obtain ⟨f, hf, hfut⟩ := Option.bind_eq_some_iff.mp hbind
      cases hstep
      exact h.goto ((collect_phaseOk h hphase hf hfut).1 response rfl)
    · cases hstep
      exact h.conclude (by simp)
    · cases hstep
  · -- finish
    split at hstep
    · rename_i hdone
      cases hstep
      refine h.conclude ?_
      rintro t' sub' responses' ⟨⟩
      exact finish_served hphase hdone
    · cases hstep
  · -- abort
    cases hstep
    exact h.conclude (by simp)
  · cases hstep
    exact (enqueue_inv h hphase.2).conclude (by simp)
  · cases hstep
    exact h.conclude (by simp)
  · cases hstep

/-- **Every step keeps the invariant.** -/
theorem step_inv {a : Action Req Key Exc} (h : Inv c initial s) (hstep : step c s a = some s') :
    Inv c initial s' := by
  unfold step at hstep
  split at hstep
  · exact threadStep_inv h (h.phases _) hstep
  · have hmove : WorkerMove c initial s s' := workerStep_move h.futuresOk hstep
    exact h.of_progress hmove.futuresOk hmove.progress hmove.threads_eq hmove.outcomes_eq
      (hmove.honest h.honest)

end

/-! ## The main result -/

/-- **Whatever the interleaving, a batch that returns holds at every position what `expected` says, and it
    made at most one queue item for each key, none for a cached one.** -/
theorem returned_expected (c : Client Req Resp Key) (initial : List (Key × Resp))
    (actions : List (Action Req Key Exc)) (s : State Req Resp Key Exc)
    (hrun : Transition.run (step c) (init initial) actions = some s) :
    ∀ t sub responses, Outcome.returned t sub responses ∈ s.outcomes → Served c initial sub responses :=
  (Transition.invariant_run (P := Inv c initial) (fun _ _ _ h hstep => step_inv h hstep)
    (init_inv c initial) hrun).served

/-! ### A repeated request, retried -/

/-- A client that answers a number with itself. -/
def echoClient : Client Nat Nat Nat where
  requestKey := some
  caches := false
  respond := some
  reload := id
  queueSize := 100
  maxBackoffs := 1

/-- A request that stands at two positions, with none in between. -/
def repeatedBatch : Batch Nat := ⟨1, [some 0, none, some 0], fun ref => ref + 7⟩

/-- The request times out once. -/
def repeatedRun : List (Action Nat Nat String) :=
  [.start 0 repeatedBatch (fun _ => true), .check 0, .submit 0, .enqueue 0, .getQueued false true, .dispatch 0,
    .check 0, .submit 0, .timeout 0, .check 0, .submit 0, .submitted 0, .getQueued true true, .dispatch 0,
    .succeed 0 true, .collect 0, .collect 0, .callback 2, .collect 0, .finish 0]

theorem repeatedBatch_served :
    ∃ sub, sub.batch = repeatedBatch ∧ Served echoClient [] sub [some 7, none, some 7] := by
  refine ⟨_, ?_, returned_expected echoClient [] repeatedRun _ rfl 0 _ _ (List.mem_singleton.mpr rfl)⟩
  rfl

end ModelClient

end Fenic
