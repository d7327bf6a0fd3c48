import Fenic.ModelClient.Isolation
import Fenic.ModelClient.ShutdownSteps

/-!
# `ModelClient.ShutdownLossless` — which futures a shutdown leaves open

When every step of a run is `Lossless`, a shutdown that has completed leaves no future open (`shutdown_settles`).
Without that a caller may wait for ever: `shutdownPopped` is the run in which the worker has taken a request out of the
queue and sees the shutdown event before it looks at what it took.
-/

namespace Fenic

namespace ModelClient

variable {Req Resp Key Exc : Type}

/-! ## Callbacks -/

section

variable {s : System Req Resp Key Exc}

/-- The future of a first request copies nothing. -/
theorem Future.copyFrom_first {futures : List (Future Resp Exc)} {fut : Future Resp Exc} (h : fut.copyOf = none) :
    fut.copyFrom futures = fut := by
  obtain ⟨state, copyOf⟩ := fut
  cases h
  cases state <;> rfl

theorem Future.copyFrom_copyOf (futures : List (Future Resp Exc)) (fut : Future Resp Exc) :
    (fut.copyFrom futures).copyOf = fut.copyOf := by
  obtain ⟨state, copyOf⟩ := fut
  cases state <;> cases copyOf <;> rfl

theorem Future.copyFrom_pending {futures : List (Future Resp Exc)} {fut : Future Resp Exc}
    (h : (fut.copyFrom futures).state = .pending) : fut.state = .pending := by
  obtain ⟨state, copyOf⟩ := fut
  cases state with
  | pending => rfl
  | result response => cases h
  | exception failure => cases h

theorem getElem?_runCallbacks {s : State Req Resp Key Exc} {f : Nat} {fut' : Future Resp Exc}
    (h : s.runCallbacks.futures[f]? = some fut') :
    ∃ fut : Future Resp Exc, s.futures[f]? = some fut ∧ fut' = fut.copyFrom s.futures := by
  unfold State.runCallbacks at h
  rw [List.getElem?_map] at h
  obtain ⟨fut, hfut, rfl⟩ := Option.map_eq_some_iff.mp h
  exact ⟨fut, hfut, rfl⟩

theorem runCallbacks_settled (s : State Req Resp Key Exc) : SettledFrom s.futures s.runCallbacks.futures where
  copyOf := by
    intro f
    unfold State.runCallbacks
    rw [List.getElem?_map, Option.map_map]
    apply congrArg (fun g => Option.map g s.futures[f]?)
    exact funext (Future.copyFrom_copyOf s.futures)
  pending := by
    intro f fut' hfut' hpending
    obtain ⟨fut, hfut, rfl⟩ := getElem?_runCallbacks hfut'
    exact ⟨fut, hfut, Future.copyFrom_pending hpending⟩

/-- **When the callbacks have run, no duplicate waits for a request that is done.** -/
theorem runCallbacks_synced {s : State Req Resp Key Exc} (h : Sourced s) : Synced s.runCallbacks.futures := by
  intro f fut' g hfut' hcopy hpending
  obtain ⟨⟨state, copyOf⟩, hfut, rfl⟩ := getElem?_runCallbacks hfut'
  rw [Future.copyFrom_copyOf] at hcopy
  have hcopy' : copyOf = some g := hcopy
  subst hcopy'
  obtain ⟨first, hfirst, hnone⟩ := h.copies f _ g hfut rfl
  have hstate : state = .pending := Future.copyFrom_pending hpending
  subst hstate
  -- the duplicate has the state of the first request
  have hsame : first.state = .pending := by
    change ((s.futures[g]?).map Future.state).getD .pending = .pending at hpending
    rw [hfirst] at hpending
    exact hpending
  refine ⟨first, ?_, hsame, hnone⟩
  unfold State.runCallbacks
  rw [List.getElem?_map, hfirst, Option.map_some, Future.copyFrom_first hnone]

end

/-! ## Runs -/

/-- The invariant of the runs whose steps are all `Lossless`. -/
structure ShutdownInv (s : System Req Resp Key Exc) : Prop where
  sourced : Sourced s.client
  synced : Synced s.client.futures
  located : Located s
  finishing : Finishing s

section

variable [DecidableEq Key] {c : Client Req Resp Key} {s s' : System Req Resp Key Exc}

/-- **One action loses no request.** -/
theorem effect_keeps {a : SystemAction Req Key Exc} (h : ShutdownInv s) (hlossless : Lossless c s a)
    (hstep : effect c s a = some s') : Sourced s'.client ∧ Located s' ∧ Finishing s' := by
  unfold effect at hstep
  split at hstep
  · rename_i a
    split at hstep
    · rename_i ha
      obtain ⟨client, hclient, rfl⟩ := Option.map_eq_some_iff.mp hstep
      unfold step at hclient
      split at hclient
      · rename_i t hthread
        have hmove := threadStep_move hclient
        exact ⟨threadMove_sourced h.sourced hmove, threadMove_located h.located hmove,
          threadMove_finishing h.finishing hthread hlossless hmove⟩
      · have hmove := workerStep_taskMove ha hclient
        obtain ⟨hthreads, hsettled⟩ := taskMove_settled hmove
        exact ⟨h.sourced.carry hsettled (fun t entry hentry => hthreads ▸ hentry), taskMove_located h.located hmove,
          h.finishing.carry (fun f => hsettled.waiting) rfl (fun _ => rfl)⟩
    · cases hstep
  · obtain ⟨item, hitem, rfl⟩ := Option.map_eq_some_iff.mp hstep
    exact ⟨h.sourced.carry (.refl _) (fun t entry hentry => hentry),
      h.located.move (fun f hf => hf) (fun f _ => startTask_elsewhere hitem) rfl rfl rfl,
      h.finishing.carry (fun f hf => hf) rfl (fun _ => rfl)⟩
  · split at hstep
    · cases hstep
    · cases hstep
      exact ⟨h.sourced, ⟨h.located.placed, h.located.processed, h.located.idle⟩,
        ⟨h.finishing.cancelled, h.finishing.completed⟩⟩
  · obtain ⟨item, hitem, rfl⟩ := Option.map_eq_some_iff.mp hstep
    obtain ⟨hthreads, hsettled⟩ :=
      endCancelledTask_settled (c := c) (s := { s with cancelled := s.cancelled.eraseIdx _ }) item _
    exact ⟨h.sourced.carry hsettled (fun t entry hentry => hthreads ▸ hentry),
      endCancelled_located h.located hlossless hitem, endCancelled_finishing h.finishing hlossless hitem⟩
  · rcases Option.or_eq_some_iff.mp hstep with hloop | ⟨-, hcall⟩
    · obtain ⟨⟨hthreads, hsettled⟩, hcancelled, hcall⟩ := loopStep_frame hloop
      exact ⟨h.sourced.carry hsettled (fun t entry hentry => hthreads ▸ hentry),
        loopStep_located h.located hlossless hloop, h.finishing.carry (fun f => hsettled.waiting) hcancelled hcall⟩
    · obtain ⟨hthreads, hsettled⟩ := shutdownStep_settled hcall
      exact ⟨h.sourced.carry hsettled (fun t entry hentry => hthreads ▸ hentry),
        shutdownStep_located h.located hlossless hcall,
        shutdownStep_finishing h.located h.finishing hlossless hcall⟩

/-- **A step that loses no request keeps the invariant.** -/
theorem systemStep_inv {a : SystemAction Req Key Exc} (h : ShutdownInv s) (hlossless : Lossless c s a)
    (hstep : systemStep c s a = some s') : ShutdownInv s' := by
  obtain ⟨t, heffect, rfl⟩ := Option.map_eq_some_iff.mp hstep
  obtain ⟨hsourced, hlocated, hfinishing⟩ := effect_keeps h hlossless heffect
  have hsettled := runCallbacks_settled t.client
  refine ⟨?_, runCallbacks_synced hsourced, ?_, ?_⟩
  · exact hsourced.carry hsettled (fun t entry hentry => hentry)
  · exact hlocated.move (fun f => hsettled.waiting) (fun f _ hf => hf) rfl rfl rfl
  · exact hfinishing.carry (fun f => hsettled.waiting) rfl (fun _ => rfl)

omit [DecidableEq Key] in
theorem systemInit_inv (cache : List (Key × Resp)) : ShutdownInv (systemInit cache : System Req Resp Key Exc) where
  sourced := ⟨fun f fut g h => absurd h (by simp [systemInit, init]), fun t entry hentry => absurd hentry List.not_mem_nil⟩
  synced := fun f fut g h => absurd h (by simp [systemInit, init])
  located := ⟨fun f ⟨fut, h, _⟩ => absurd h (by simp [systemInit, init]), fun f _ hmem => absurd hmem (has_nil f), nofun⟩
  finishing := ⟨nofun, nofun⟩

end

/-! ## The main result -/

/-- **When no step loses a request, a shutdown that has completed leaves no future open.** -/
theorem shutdown_settles [DecidableEq Key] (c : Client Req Resp Key) (cache : List (Key × Resp))
    (actions : List (SystemAction Req Key Exc)) (s : System Req Resp Key Exc)
    (hrun : Transition.run (systemStep c) (systemInit cache) actions = some s)
    (hlossless : Transition.Along (systemStep c) (Lossless c) (systemInit cache) actions)
    (hcompleted : s.call = .completed) :
    ∀ (f : Nat) (fut : Future Resp Exc), s.client.futures[f]? = some fut → fut.state ≠ .pending := by
  have h := Transition.along_run (fun _ _ _ => systemStep_inv) (systemInit_inv cache) hrun hlossless
  have hnone : ∀ f, ¬ Waiting s.client.futures f := by
    intro f hf
    have hhas := h.finishing.cancelled (Or.inr hcompleted) f hf
    rw [h.finishing.completed hcompleted] at hhas
    exact has_nil f hhas
  intro f fut hfut hpending
  cases hcopy : fut.copyOf with
  | none => exact hnone f ⟨fut, hfut, hpending, hcopy⟩
  | some g => exact hnone g (h.synced f fut g hfut hcopy hpending)

/-! ### A request that the shutdown finds, and one that it does not -/

/-- Thread 0 puts a request into the queue. -/
def putRequest : List (SystemAction Nat Nat String) :=
  [.client (.start 0 (singleBatch 1 7) (fun _ => false)), .client (.check 0), .client (.submit 0), .client (.enqueue 0)]

/-- The shutdown of a client that has nothing to do but what is in the request queue. -/
def shutdownQueue : List (SystemAction Nat Nat String) :=
  putRequest ++ [.callShutdown, .setEvent, .failPending "shut down", .drainRequests "shut down",
    .drainRequests "shut down", .drainRetries "shut down", .cancelInFlight, .completeShutdown]

/-- A request that is in the queue when the client is shut down fails. -/
theorem shutdownQueue_settles :
    ∃ s, Transition.run (systemStep echoClient) (systemInit []) shutdownQueue = some s ∧
      s.client.futures.length = 1 ∧
        ∀ (f : Nat) (fut : Future Nat String), s.client.futures[f]? = some fut → fut.state ≠ .pending := by
  refine ⟨_, rfl, rfl, shutdown_settles echoClient [] shutdownQueue _ rfl ?_ rfl⟩
  repeat refine (Transition.along_cons rfl).mpr ⟨trivial, ?_⟩
  refine (Transition.along_cons rfl).mpr ⟨?_, ?_⟩
  · -- nobody has called `shutdown` yet
    rintro (h | h) <;> cases h
  · repeat refine (Transition.along_cons rfl).mpr ⟨trivial, ?_⟩
    refine (Transition.along_cons rfl).mpr ⟨?_, ?_⟩
    · -- the one request there is has failed
      rintro f - ⟨fut, hfut, hpending, -⟩
      cases f with
      | zero =>
        cases hfut
        cases hpending
      | succ f => cases hfut
    · exact (Transition.along_cons rfl).mpr ⟨trivial, trivial⟩

/-- The worker takes the request out of the queue, and the event is set before the worker goes on. -/
def shutdownPopped : List (SystemAction Nat Nat String) :=
  putRequest ++ [.loop, .pop false, .callShutdown, .setEvent, .resume true, .failPending "shut down",
    .drainRequests "shut down", .drainRetries "shut down", .cancelInFlight, .completeShutdown]

/-- **The shutdown has completed, and the thread waits for its response for ever.** -/
theorem shutdownPopped_pending :
    ∃ s, Transition.run (systemStep echoClient) (systemInit []) shutdownPopped = some s ∧ s.call = .completed ∧
      ¬ ∀ (f : Nat) (fut : Future Nat String), s.client.futures[f]? = some fut → fut.state ≠ .pending := by
  refine ⟨_, rfl, rfl, ?_⟩
  intro hdone
  exact hdone 0 ⟨.pending, none⟩ rfl rfl

end ModelClient

end Fenic
